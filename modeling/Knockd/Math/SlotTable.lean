import Mathlib.Data.Finset.Card
import Mathlib.Data.List.Basic
import Mathlib.Data.Nat.Notation

/-!
# Tables of reusable slots

A fixed array of slots, each carrying a flag that says whether it is in use and a
key. A key is looked up by a left-to-right scan for a live slot that carries it.
As long as no two live slots share a key the scan is a partial function of the key,
and the three ways a table changes are easy to follow: one slot is overwritten, one
slot is released, or a sweep releases any number of them.

## Main definitions

* `SlotTable.lookup` / `SlotTable.entry` — the index, the contents of the live slot
  of a key
* `SlotTable.Distinct` — live slots carry distinct keys
* `SlotTable.liveKeys` — the keys of the live slots, in slot order

## Main results

* `entry_eq_some_iff` — under `Distinct`, `entry` finds exactly the live slots
* `entry_set_self`, `entry_set_of_ne` — overwriting a slot
* `Distinct.map`, `entry_map` — sweeping a table
* `countP_live_eq` — tables with the same live keys have equally many live slots
* `liveKeys_set_claim`, `liveKeys_set_release` — how the live keys change with a slot
* `exists_dead_of_card_le` — when a table has room for one more key
-/

namespace SlotTable

variable {α κ : Type*} [DecidableEq κ] (live : α → Bool) (key : α → κ)

/-- Index of the first live slot that carries the key. -/
def lookup (t : List α) (k : κ) : Option ℕ :=
  t.findIdx? fun a => live a && key a == k

/-- Contents of the first live slot that carries the key. -/
def entry (t : List α) (k : κ) : Option α :=
  t.find? fun a => live a && key a == k

/-- No two live slots carry the same key. -/
def Distinct (t : List α) : Prop :=
  ∀ ⦃i j : ℕ⦄ ⦃a b : α⦄, t[i]? = some a → t[j]? = some b →
    live a → live b → key a = key b → i = j

variable {live key} {t : List α} {k k' : κ} {a b : α} {i : ℕ}

theorem entry_eq_bind_lookup : entry live key t k = (lookup live key t k).bind (t[·]?) :=
  List.find?_eq_bind_findIdx?_getElem?

theorem lookup_eq_none_iff : lookup live key t k = none ↔ entry live key t k = none := by
  simp only [lookup, entry, List.findIdx?_eq_none_iff, List.find?_eq_none, Bool.not_eq_true]

/-- A successful lookup points at the entry it found. -/
theorem lookup_eq_some (h : lookup live key t k = some i) :
    ∃ a, t[i]? = some a ∧ entry live key t k = some a := by
  obtain ⟨hi, -⟩ := List.findIdx?_eq_some_iff_getElem.mp h
  refine ⟨t[i], List.getElem?_eq_getElem hi, ?_⟩
  rw [entry_eq_bind_lookup, h]
  exact List.getElem?_eq_getElem hi

theorem entry_live (h : entry live key t k = some a) : live a = true ∧ key a = k := by
  have := List.find?_some h
  simpa using this

theorem entry_mem (h : entry live key t k = some a) : ∃ i : ℕ, t[i]? = some a :=
  List.mem_iff_getElem?.mp (List.mem_of_find?_eq_some h)

theorem entry_eq_none_iff :
    entry live key t k = none ↔ ∀ (i : ℕ) a, t[i]? = some a → live a → key a ≠ k := by
  simp only [entry, List.find?_eq_none, Bool.and_eq_true, beq_iff_eq, not_and]
  constructor
  · intro h i a ha
    exact h a (List.mem_of_getElem? ha)
  · intro h a ha
    obtain ⟨i, hi⟩ := List.mem_iff_getElem?.mp ha
    exact h i a hi

/-- With distinct keys the scan finds a slot exactly when the slot is live and
carries the key, wherever it stands. -/
theorem entry_eq_some_iff (hd : Distinct live key t) :
    entry live key t k = some a ↔
      ∃ i : ℕ, t[i]? = some a ∧ live a = true ∧ key a = k := by
  constructor
  · intro h
    obtain ⟨i, hi⟩ := entry_mem h
    exact ⟨i, hi, entry_live h⟩
  · rintro ⟨i, hi, hlive, hkey⟩
    cases he : entry live key t k with
    | none => exact absurd hkey (entry_eq_none_iff.mp he i a hi hlive)
    | some b =>
      obtain ⟨j, hj⟩ := entry_mem he
      obtain ⟨hlb, hkb⟩ := entry_live he
      obtain rfl := hd hi hj hlive hlb (hkey.trans hkb.symm)
      rw [← hi, hj]

/-! ### Overwriting one slot -/

omit [DecidableEq κ] in
theorem Distinct.set (hd : Distinct live key t)
    (hfresh : live a → ∀ j b, j ≠ i → t[j]? = some b → live b → key b ≠ key a) :
    Distinct live key (t.set i a) := by
  intro m n x y hx hy hlx hly hxy
  rw [List.getElem?_set] at hx hy
  split at hx <;> split at hy
  · simp_all
  · split at hx
    · cases hx
      exact absurd hxy.symm (hfresh hlx n y (by omega) hy hly)
    · cases hx
  · split at hy
    · cases hy
      exact absurd hxy (hfresh hly m x (by omega) hx hlx)
    · cases hy
  · exact hd hx hy hlx hly hxy

/-- What the key of the overwritten slot finds afterwards, when no other slot is
live under that key. -/
theorem entry_set_self (hi : i < t.length)
    (hothers : ∀ j b, j ≠ i → t[j]? = some b → live b → key b ≠ key a) :
    entry live key (t.set i a) (key a) = if live a then some a else none := by
  have hget : (t.set i a)[i]? = some a := List.getElem?_set_self hi
  have hnone : ∀ j b, j ≠ i → (t.set i a)[j]? = some b → live b → key b ≠ key a := by
    intro j b hji hb
    rw [List.getElem?_set_ne (Ne.symm hji)] at hb
    exact hothers j b hji hb
  split
  · rename_i hlive
    cases he : entry live key (t.set i a) (key a) with
    | none => exact absurd rfl (entry_eq_none_iff.mp he i a hget hlive)
    | some b =>
      obtain ⟨j, hj⟩ := entry_mem he
      obtain ⟨hlb, hkb⟩ := entry_live he
      by_cases hji : j = i
      · subst hji
        rw [← hget, hj]
      · exact absurd hkb (hnone j b hji hj hlb)
  · rename_i hdead
    rw [entry_eq_none_iff]
    intro j b hb hlb
    by_cases hji : j = i
    · subst hji
      rw [hget] at hb
      cases hb
      exact absurd hlb hdead
    · exact hnone j b hji hb hlb

/-- A key that neither the old nor the new contents of the slot answer to finds
what it found before. -/
theorem entry_set_of_ne (hold : ∀ b, t[i]? = some b → live b → key b ≠ k)
    (hnew : live a → key a ≠ k) :
    entry live key (t.set i a) k = entry live key t k := by
  induction t generalizing i with
  | nil => simp
  | cons b t ih =>
    cases i with
    | zero =>
      have hb : (live b && key b == k) = false := by
        simpa using hold b rfl
      have ha : (live a && key a == k) = false := by
        simpa using hnew
      simp [entry, hb, ha]
    | succ i =>
      have := ih (i := i) (fun c hc => hold c (by simpa using hc))
      simp only [entry, List.set_cons_succ, List.find?_cons] at this ⊢
      rw [this]

/-! ### Sweeping a table -/

variable {f : α → α}

omit [DecidableEq κ] in
/-- A sweep that leaves a slot alone or releases it keeps the keys distinct. -/
theorem Distinct.map (hd : Distinct live key t) (hf : ∀ a, live (f a) → f a = a) :
    Distinct live key (t.map f) := by
  intro i j x y hx hy hlx hly hxy
  simp only [List.getElem?_map, Option.map_eq_some_iff] at hx hy
  obtain ⟨a, ha, rfl⟩ := hx
  obtain ⟨b, hb, rfl⟩ := hy
  have hfa := hf a hlx
  have hfb := hf b hly
  rw [hfa] at hlx hxy
  rw [hfb] at hly hxy
  exact hd ha hb hlx hly hxy

/-- After a sweep a key finds its old entry if that was left alone, and nothing if
it was released. -/
theorem entry_map (hd : Distinct live key t) (hf : ∀ a, live (f a) → f a = a) :
    entry live key (t.map f) k = (entry live key t k).filter fun a => live (f a) := by
  have hd' := hd.map hf
  ext a
  rw [entry_eq_some_iff hd', Option.filter_eq_some_iff, entry_eq_some_iff hd]
  simp only [List.getElem?_map, Option.map_eq_some_iff]
  constructor
  · rintro ⟨i, ⟨b, hb, rfl⟩, hlive, hkey⟩
    have hfb := hf b hlive
    rw [hfb] at hlive hkey ⊢
    exact ⟨⟨i, hb, hlive, hkey⟩, by rwa [hfb]⟩
  · rintro ⟨⟨i, hi, hlive, hkey⟩, hkeep⟩
    exact ⟨i, ⟨a, hi, hf a hkeep⟩, hlive, hkey⟩

/-! ### The live keys

For a table that mirrors something outside it, what counts is which keys are live and
how often, not where they stand. -/

variable (live key) in
/-- Keys of the live slots, in slot order. -/
def liveKeys (t : List α) : List κ := (t.filter live).map key

omit [DecidableEq κ] in
theorem mem_liveKeys : k ∈ liveKeys live key t ↔ ∃ a ∈ t, live a = true ∧ key a = k := by
  simp [liveKeys, and_assoc]

omit [DecidableEq κ] in
/-- No key is live twice. -/
theorem Distinct.nodup_liveKeys (hd : Distinct live key t) : (liveKeys live key t).Nodup := by
  rw [liveKeys, List.Nodup, List.pairwise_map, List.pairwise_filter, List.pairwise_iff_getElem]
  intro i j hi hj hij hli hlj hkey
  have := hd (List.getElem?_eq_getElem hi) (List.getElem?_eq_getElem hj) hli hlj hkey
  omega

omit [DecidableEq κ] in
/-- Tables with the same live keys have equally many live slots. -/
theorem countP_live_eq {s : List α} (hs : Distinct live key s) (ht : Distinct live key t)
    (h : ∀ k, k ∈ liveKeys live key s ↔ k ∈ liveKeys live key t) :
    s.countP live = t.countP live := by
  have hperm : (liveKeys live key s).Perm (liveKeys live key t) :=
    (List.perm_ext_iff_of_nodup hs.nodup_liveKeys ht.nodup_liveKeys).mpr h
  have hlen := hperm.length_eq
  rwa [liveKeys, liveKeys, List.length_map, List.length_map, ← List.countP_eq_length_filter,
    ← List.countP_eq_length_filter] at hlen

theorem entry_eq_none_iff_notMem : entry live key t k = none ↔ k ∉ liveKeys live key t := by
  simp only [entry, List.find?_eq_none, mem_liveKeys, Bool.and_eq_true, beq_iff_eq, not_and,
    not_exists]

omit [DecidableEq κ] in
/-- A slot cuts the table in two, and overwriting it leaves both parts alone. -/
theorem exists_split (h : t[i]? = some a) :
    ∃ l r, t = l ++ a :: r ∧ ∀ b, t.set i b = l ++ b :: r := by
  obtain ⟨hi, rfl⟩ := List.getElem?_eq_some_iff.mp h
  refine ⟨t.take i, t.drop (i + 1), ?_, fun b => ?_⟩
  · rw [List.getElem_cons_drop, List.take_append_drop]
  · rw [List.set_eq_take_append_cons_drop, if_pos hi]

omit [DecidableEq κ] in
theorem liveKeys_set_claim (h : t[i]? = some a) (ha : live a = false) (hb : live b = true) :
    (liveKeys live key (t.set i b)).Perm (key b :: liveKeys live key t) := by
  obtain ⟨l, r, ht, hset⟩ := exists_split h
  rw [hset, ht]
  simp [liveKeys, ha, hb, List.perm_middle]

omit [DecidableEq κ] in
theorem liveKeys_set_release (h : t[i]? = some a) (ha : live a = true) (hb : live b = false) :
    (liveKeys live key t).Perm (key a :: liveKeys live key (t.set i b)) := by
  obtain ⟨l, r, ht, hset⟩ := exists_split h
  rw [hset, ht]
  simp [liveKeys, ha, hb, List.perm_middle]

omit [DecidableEq κ] in
theorem liveKeys_set_of_eq (h : t[i]? = some a) (hlive : live b = live a)
    (hkey : live a = true → key b = key a) :
    liveKeys live key (t.set i b) = liveKeys live key t := by
  obtain ⟨l, r, ht, hset⟩ := exists_split h
  rw [hset, ht]
  simp only [liveKeys, List.filter_append, List.filter_cons, hlive, List.map_append]
  split
  · rename_i ha
    simp [hkey ha]
  · rfl

omit [DecidableEq κ] in
/-- Overwriting a slot does not raise the number of slots that satisfy a predicate,
unless it makes this one satisfy it. -/
theorem countP_set_le (h : t[i]? = some a) (p : α → Bool) (hp : p b = true → p a = true) :
    (t.set i b).countP p ≤ t.countP p := by
  obtain ⟨l, r, ht, hset⟩ := exists_split h
  rw [hset, ht, List.countP_append, List.countP_append, List.countP_cons, List.countP_cons]
  split
  · rename_i hb
    simp [hp hb]
  · omega

/-- If the live keys and one more are among no more keys than there are slots, a slot is
not live. -/
theorem exists_dead_of_card_le (hnodup : (liveKeys live key t).Nodup) {keys : List κ}
    (hsub : liveKeys live key t ⊆ keys) (hk : k ∈ keys) (hnew : k ∉ liveKeys live key t)
    (hcard : keys.toFinset.card ≤ t.length) : ∃ a ∈ t, live a = false := by
  by_contra hnone
  have hall : ∀ a ∈ t, live a = true := fun a ha => by
    cases hlive : live a with
    | true => rfl
    | false => exact absurd ⟨a, ha, hlive⟩ hnone
  have hlen : (liveKeys live key t).length = t.length := by
    rw [liveKeys, List.length_map, List.filter_eq_self.mpr hall]
  have hmore : (k :: liveKeys live key t).toFinset.card = t.length + 1 := by
    rw [List.toFinset_card_of_nodup (hnodup.cons hnew), List.length_cons, hlen]
  have hle : (k :: liveKeys live key t).toFinset.card ≤ keys.toFinset.card :=
    Finset.card_le_card fun x hx =>
      List.mem_toFinset.mpr (List.cons_subset.mpr ⟨hk, hsub⟩ (List.mem_toFinset.mp hx))
  omega

end SlotTable
