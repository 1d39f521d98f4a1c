import Mathlib.Data.Int.ModEq
import Mathlib.Data.List.Basic
import Mathlib.Logic.Function.Basic

/-!
# Ring buffers

A ring of `n` slots holds a queue of up to `n` elements: from the slot `tail` on,
`count` slots in ring order. Enqueueing writes the slot after the last one, dequeueing
moves the tail forward. Both are ordinary list operations on the contents, and that is
all a user of the ring has to know about its index arithmetic.

## Main definitions

* `RingBuffer.contents` — the queue a ring holds

## Main results

* `contents_enqueue` — writing behind the last element appends it
* `contents_dequeue` — the element at the tail is the head of the queue
-/

namespace RingBuffer

variable {α : Type*} {slot : ℕ → α} {n tail count : ℕ} {a : α}

/-- The queue held in `count` slots from `tail` on, around a ring of `n` slots. -/
def contents (slot : ℕ → α) (n tail count : ℕ) : List α :=
  (List.range count).map fun i => slot ((tail + i) % n)

@[simp] theorem length_contents : (contents slot n tail count).length = count := by
  simp [contents]

/-- Distinct offsets below the capacity are distinct slots. -/
theorem offset_ne {i j : ℕ} (hi : i < j) (hj : j < n) : (tail + i) % n ≠ (tail + j) % n := by
  intro h
  have hmod : i % n = j % n := Nat.ModEq.add_left_cancel' tail h
  rw [Nat.mod_eq_of_lt (hi.trans hj), Nat.mod_eq_of_lt hj] at hmod
  omega

/-- Writing the slot behind the last element appends to the queue. -/
theorem contents_enqueue (hcount : count < n) :
    contents (Function.update slot ((tail + count) % n) a) n tail (count + 1) =
      contents slot n tail count ++ [a] := by
  rw [contents, List.range_succ, List.map_append, List.map_singleton, Function.update_self]
  congr 1
  refine List.map_congr_left fun i hi => ?_
  exact Function.update_of_ne (offset_ne (List.mem_range.mp hi) hcount) _ _

/-- Reading the tail and moving it forward takes the head off the queue. -/
theorem contents_dequeue :
    contents slot n tail (count + 1) =
      slot (tail % n) :: contents slot n ((tail + 1) % n) count := by
  rw [contents, List.range_succ_eq_map, List.map_cons, List.map_map]
  congr 1
  refine List.map_congr_left fun i _ => ?_
  simp only [Function.comp_apply, Nat.mod_add_mod]
  congr 2
  omega

end RingBuffer
