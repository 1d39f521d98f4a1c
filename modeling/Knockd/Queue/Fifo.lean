import Mathlib.Data.Nat.Bitwise
import Knockd.Math.RingBuffer
import Knockd.Model.PacketQueue

/-!
# The packet queue is a queue

The three indices of `packet_queue.c` are tied together by one invariant, and under it
the ring holds a list of at most 256 events. Every operation is an operation on that
list: a push appends or, when the list is full, changes nothing; both readers take the
head.

## Main definitions

* `PacketQueue.Inv` — the indices agree
* `PacketQueue.events` — the queued events, oldest first

## Main results

* `pktqueuePush_spec`, `dequeue_spec` — pushing and taking, as list operations
-/

namespace Knockd

namespace PacketQueue

/-- What a slot of the ring holds. -/
def slot (q : PacketQueue) (i : ℕ) : KnockEvent := q.ring[i]?.getD .zeroed

/-- The queued events, oldest first. -/
def events (q : PacketQueue) : List KnockEvent :=
  RingBuffer.contents q.slot queueCapacity q.tail q.count

/-- The indices agree. -/
structure Inv (q : PacketQueue) : Prop where
  tail_lt : q.tail < queueCapacity
  count_le : q.count ≤ queueCapacity
  head_eq : q.head = (q.tail + q.count) % queueCapacity

variable {q : PacketQueue}

@[simp] theorem length_events : q.events.length = q.count := RingBuffer.length_contents

theorem events_eq_nil_iff : q.events = [] ↔ q.count = 0 := by
  rw [← List.length_eq_zero_iff, length_events]

theorem Inv.head_lt (h : q.Inv) : q.head < queueCapacity := by
  rw [h.head_eq]
  exact Nat.mod_lt _ (by decide)

end PacketQueue

/-- The capacity is a power of two, so masking is taking the remainder. -/
theorem mask_eq_mod (i : ℕ) : i &&& (queueCapacity - 1) = i % queueCapacity :=
  Nat.and_two_pow_sub_one_eq_mod i 8

theorem pktqueueInit_inv : pktqueueInit.Inv := ⟨by decide, by decide, by decide⟩

theorem events_pktqueueInit : pktqueueInit.events = [] := rfl

section Operations

variable {q : PacketQueue}

/-- A push appends the event, unless 256 events are queued already; then it changes no
queued event. -/
theorem pktqueuePush_spec (h : q.Inv) (cfg : Config) (now : ℤ) (event : KnockEvent) :
    let out := pktqueuePush cfg now event q
    out.1.Inv ∧ out.2.1 = decide (q.count < queueCapacity) ∧
      out.1.events = q.events ++ (if out.2.1 then [event] else []) ∧
      out.1.shuttingDown = q.shuttingDown := by
  intro out
  by_cases hroom : q.count < queueCapacity
  · have hout : out = ({ q with
        ring := q.ring.setIfInBounds q.head event
        head := (q.head + 1) &&& (queueCapacity - 1)
        count := q.count + 1 }, true, []) := by
      simp only [out, pktqueuePush, if_pos hroom]
    rw [hout]
    refine ⟨⟨h.tail_lt, hroom, ?_⟩, by simp [hroom], ?_, rfl⟩
    · change (q.head + 1) &&& (queueCapacity - 1) = (q.tail + (q.count + 1)) % queueCapacity
      rw [mask_eq_mod, h.head_eq, Nat.mod_add_mod, Nat.add_assoc]
    · -- the slot written is the one behind the last event
      have hslot : PacketQueue.slot { q with
            ring := q.ring.setIfInBounds q.head event
            head := (q.head + 1) &&& (queueCapacity - 1)
            count := q.count + 1 } =
          Function.update q.slot ((q.tail + q.count) % queueCapacity) event := by
        funext i
        rw [← h.head_eq, Function.update_apply, PacketQueue.slot, PacketQueue.slot]
        simp only [Vector.getElem?_setIfInBounds]
        by_cases hi : i = q.head
        · subst hi
          simp [h.head_lt]
        · rw [if_neg (Ne.symm hi), if_neg hi]
      rw [PacketQueue.events, hslot, PacketQueue.events]
      exact RingBuffer.contents_enqueue hroom
  · -- no room: at most the drop counter and the time of its last report change
    simp only [out, pktqueuePush, if_neg hroom]
    split
    · exact ⟨⟨h.tail_lt, h.count_le, h.head_eq⟩, by simp [hroom],
        (List.append_nil q.events).symm, rfl⟩
    · exact ⟨⟨h.tail_lt, h.count_le, h.head_eq⟩, by simp [hroom],
        (List.append_nil q.events).symm, rfl⟩

/-- A reader takes the oldest event, and comes back empty-handed only when there is
none. -/
theorem dequeue_spec (h : q.Inv) :
    (dequeue q).2.Inv ∧ q.events = (dequeue q).1.toList ++ (dequeue q).2.events ∧
      ((dequeue q).1 = none ↔ q.events = []) ∧
      (dequeue q).2.shuttingDown = q.shuttingDown := by
  by_cases hsome : q.count > 0
  · have hout : dequeue q = (some (q.slot q.tail),
        { q with tail := (q.tail + 1) &&& (queueCapacity - 1), count := q.count - 1 }) := by
      rw [dequeue, if_pos hsome, PacketQueue.slot]
    rw [hout, mask_eq_mod]
    obtain ⟨m, hm⟩ : ∃ m, q.count = m + 1 := ⟨q.count - 1, by omega⟩
    have hcount := h.count_le
    refine ⟨⟨Nat.mod_lt _ (by decide), ?_, ?_⟩, ?_, ?_, rfl⟩
    · change q.count - 1 ≤ queueCapacity
      omega
    · change q.head = ((q.tail + 1) % queueCapacity + (q.count - 1)) % queueCapacity
      rw [h.head_eq, Nat.mod_add_mod]
      congr 1
      omega
    · simp only [PacketQueue.events, hm, Nat.add_sub_cancel, Option.toList_some]
      rw [RingBuffer.contents_dequeue, Nat.mod_eq_of_lt h.tail_lt]
      rfl
    · simp only [PacketQueue.events_eq_nil_iff]
      constructor
      · intro hnone
        cases hnone
      · intro hzero
        omega
  · have hzero : q.count = 0 := by omega
    have hout : dequeue q = (none, q) := by rw [dequeue, if_neg hsome]
    rw [hout]
    exact ⟨h, rfl, ⟨fun _ => PacketQueue.events_eq_nil_iff.mpr hzero, fun _ => rfl⟩, rfl⟩

theorem pktqueueShutdown_spec (h : q.Inv) :
    (pktqueueShutdown q).Inv ∧ (pktqueueShutdown q).events = q.events :=
  ⟨⟨h.tail_lt, h.count_le, h.head_eq⟩, rfl⟩

end Operations

end Knockd
