import Mathlib.Data.List.Basic
import Mathlib.Data.Nat.Notation
import Mathlib.Order.Basic
import Mathlib.Tactic.Ring

/-!
# Disjoint occurrences of a pattern

A pattern occurs in a list if its elements can be read off the list in order, possibly
with other elements between them and through a partial reading function that ignores
some elements altogether. If the pattern repeated `n` times is a sublist of what can be
read, then it occurs `n` times at positions no two of which are shared.

## Main definitions

* `Occurrence.Occurs` — positions at which the pattern is read

## Main results

* `exists_positions` — a sublist of what can be read, as positions
* `exists_disjoint` — `n` disjoint occurrences from `n` repetitions
-/

namespace Occurrence

variable {α β : Type*} {f : β → Option α} {pat p : List α} {l : List β}

/-- The pattern is read at the positions `i 0 < i 1 < …`. -/
structure Occurs (f : β → Option α) (pat : List α) (l : List β) (i : ℕ → ℕ) : Prop where
  increasing : ∀ k, k + 1 < pat.length → i k < i (k + 1)
  reads : ∀ k < pat.length, l[i k]?.bind f = pat[k]?

theorem exists_positions (h : p.Sublist (l.filterMap f)) : ∃ g, Occurs f p l g := by
  induction l generalizing p with
  | nil =>
    obtain rfl : p = [] := by simpa using h
    exact ⟨id, ⟨by simp, by simp⟩⟩
  | cons x l ih =>
    -- positions in the tail are positions in the list, one further on
    have hshift : p.Sublist (l.filterMap f) → ∃ g, Occurs f p (x :: l) g := by
      intro hp
      obtain ⟨g, hg⟩ := ih hp
      refine ⟨fun j => g j + 1, ⟨fun k hk => ?_, fun k hk => ?_⟩⟩
      · exact Nat.add_lt_add_right (hg.increasing k hk) 1
      · simpa using hg.reads k hk
    cases hx : f x with
    | none =>
      rw [List.filterMap_cons_none hx] at h
      exact hshift h
    | some a =>
      rw [List.filterMap_cons_some hx] at h
      cases h with
      | cons _ h => exact hshift h
      | cons_cons _ h =>
        obtain ⟨g, hg⟩ := ih h
        refine ⟨fun j => if j = 0 then 0 else g (j - 1) + 1, ⟨fun k hk => ?_, fun k hk => ?_⟩⟩
        · cases k with
          | zero => simp
          | succ k =>
            have := hg.increasing k (by simpa using hk)
            simpa using this
        · cases k with
          | zero => simpa using hx
          | succ k => simpa using hg.reads k (by simpa using hk)

theorem Occurs.lt_of_lt {g : ℕ → ℕ} (h : Occurs f p l g) {j k : ℕ} (hjk : j < k)
    (hk : k < p.length) : g j < g k := by
  induction k with
  | zero => cases hjk
  | succ k ih =>
    rcases Nat.lt_succ_iff_lt_or_eq.mp hjk with hlt | rfl
    · exact (ih hlt (by omega)).trans (h.increasing k hk)
    · exact h.increasing j hk

theorem Occurs.inj {g : ℕ → ℕ} (h : Occurs f p l g) {j k : ℕ} (hj : j < p.length)
    (hk : k < p.length) (heq : g j = g k) : j = k := by
  rcases Nat.lt_trichotomy j k with hlt | hjk | hlt
  · exact absurd heq (h.lt_of_lt hlt hk).ne
  · exact hjk
  · exact absurd heq (h.lt_of_lt hlt hj).ne'

theorem getElem?_flatten_replicate {n m k : ℕ} (hm : m < n) (hk : k < pat.length) :
    (List.replicate n pat).flatten[m * pat.length + k]? = pat[k]? := by
  induction n generalizing m with
  | zero => cases hm
  | succ n ih =>
    rw [List.replicate_succ, List.flatten_cons]
    cases m with
    | zero => rw [Nat.zero_mul, Nat.zero_add, List.getElem?_append_left hk]
    | succ m =>
      have hidx : (m + 1) * pat.length + k = pat.length + (m * pat.length + k) := by ring
      rw [hidx, List.getElem?_append_right (by omega), Nat.add_sub_cancel_left]
      exact ih (by omega)

/-- `n` disjoint occurrences. -/
theorem exists_disjoint {n : ℕ} (h : (List.replicate n pat).flatten.Sublist (l.filterMap f)) :
    ∃ i : ℕ → ℕ → ℕ, (∀ m < n, Occurs f pat l (i m)) ∧
      ∀ m < n, ∀ m' < n, ∀ k < pat.length, ∀ k' < pat.length,
        i m k = i m' k' → m = m' ∧ k = k' := by
  obtain ⟨g, hg⟩ := exists_positions h
  have hlen : (List.replicate n pat).flatten.length = n * pat.length := by simp
  have hbound : ∀ m < n, ∀ k < pat.length,
      m * pat.length + k < (List.replicate n pat).flatten.length := by
    intro m hm k hk
    rw [hlen]
    calc m * pat.length + k < (m + 1) * pat.length := by rw [Nat.add_mul]; omega
      _ ≤ n * pat.length := Nat.mul_le_mul_right _ hm
  refine ⟨fun m k => g (m * pat.length + k), fun m hm => ⟨fun k hk => ?_, fun k hk => ?_⟩, ?_⟩
  · exact hg.increasing _ (hbound m hm (k + 1) hk)
  · rw [hg.reads _ (hbound m hm k hk), getElem?_flatten_replicate hm hk]
  · intro m hm m' hm' k hk k' hk' heq
    have hidx := hg.inj (hbound m hm k hk) (hbound m' hm' k' hk') heq
    -- quotient and remainder by the length of the pattern
    have hpos : 0 < pat.length := by omega
    have hquot : m = m' := by
      have := congrArg (· / pat.length) hidx
      simpa [Nat.mul_add_div hpos, Nat.mul_comm _ pat.length, Nat.div_eq_of_lt hk,
        Nat.div_eq_of_lt hk'] using this
    subst hquot
    exact ⟨rfl, by omega⟩

end Occurrence
