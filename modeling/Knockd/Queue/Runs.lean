import Mathlib.Algebra.BigOperators.Group.List.Basic
import Knockd.Queue.Fifo
import Knockd.Semantics.Machine

/-!
# Runs of the packet queue

The capture thread pushes, the processor takes, and either may shut the queue down.
Every function of `packet_queue.c` works under the lock, so an interleaving of the
threads is a list of calls. Over any such run the queue hands out what it has accepted,
once and in order, and every push it refuses is counted: in a report, or in the counter
of what has not been reported yet.

## Main definitions

* `QueueCall`, `queueStep`, `queueRun` — the calls of both threads and their runs
* `PacketQueue.toReport` — the local `to_report` of `pktqueue_push`
* `QueueAccounted` — what a run has done and the state it left, tied together

## Main results

* `queueStep_accounted` — every call keeps the accounts
* `queue_loses_nothing` — the accounts of every run
-/

namespace Knockd

/-! ### Calls and runs -/

/-- One locked section. `wait` is a turn of the loop in `pktqueue_wait`, which is told
whether its deadline has passed. -/
inductive QueueCall
  | push (now : ℤ) (event : KnockEvent)
  | pop
  | wait (timedOut : Bool)
  | shutdown
  deriving DecidableEq, Repr

/-- What the callers see: a push that was taken, a push that was not, with the number
it went on to report, and what a reader got. -/
inductive QueueEvent
  | accepted (event : KnockEvent)
  | refused (now : ℤ) (toReport : UInt64)
  | returned (event : Option KnockEvent)
  deriving DecidableEq, Repr

/-- `to_report` as a push at this time leaves it: zero unless the queue is full and the
last report is long enough ago. -/
def PacketQueue.toReport (q : PacketQueue) (now : ℤ) : UInt64 :=
  if q.count < queueCapacity then 0
  else if now - q.lastDropReport ≥ dropReportInterval then q.dropped + 1
  else 0

/-- The log of a push that reports this number; there is no report of zero. -/
def dropReport (cfg : Config) (toReport : UInt64) : List LogLine :=
  if toReport > 0 then
    logMsg cfg .warn
      ("Packet queue full — dropped " ++ toString toReport.toNat ++ " knock event(s)")
  else []

/-- One call: the queue it leaves and what its caller sees. -/
def queueStep (cfg : Config) (q : PacketQueue) : QueueCall → PacketQueue × List QueueEvent
  | .push now event =>
    let out := pktqueuePush cfg now event q
    (out.1, [if out.2.1 then .accepted event else .refused now (q.toReport now)])
  | .pop =>
    let out := pktqueuePop q
    (out.2, [.returned out.1])
  | .wait timedOut =>
    match pktqueueWait timedOut q with
    | some out => (out.2, [.returned out.1])
    -- the caller goes on waiting and has seen nothing yet
    | none => (q, [])
  | .shutdown => (pktqueueShutdown q, [])

/-- The queue after `pktqueue_init` and a list of calls, with everything their callers
saw. -/
def queueRun (cfg : Config) (calls : List QueueCall) : Option (PacketQueue × List QueueEvent) :=
  Machine.run (fun q call => some (queueStep cfg q call)) pktqueueInit calls

/-! ### Accounts of a run -/

/-- The events pushed with success, in order. -/
def acceptedEvents (seen : List QueueEvent) : List KnockEvent :=
  seen.filterMap fun
    | .accepted event => some event
    | _ => none

/-- The events the readers got, in order. -/
def returnedEvents (seen : List QueueEvent) : List KnockEvent :=
  seen.filterMap fun
    | .returned event => event
    | _ => none

/-- How many pushes returned minus one. -/
def refusals (seen : List QueueEvent) : ℕ :=
  seen.countP fun
    | .refused .. => true
    | _ => false

/-- The reports, with the clock reading of each. -/
def dropReports (seen : List QueueEvent) : List (ℤ × UInt64) :=
  seen.filterMap fun
    | .refused now toReport => if toReport > 0 then some (now, toReport) else none
    | _ => none

/-- The total of all reported drop counts. -/
def reportedDrops (seen : List QueueEvent) : ℕ :=
  ((dropReports seen).map fun report => report.2.toNat).sum

/-- What ties the events seen so far to the state of the queue. -/
structure QueueAccounted (q : PacketQueue) (seen : List QueueEvent) : Prop where
  inv : q.Inv
  fifo : returnedEvents seen ++ q.events = acceptedEvents seen
  drops : refusals seen ≡ reportedDrops seen + q.dropped.toNat [MOD 2 ^ 64]
  spaced : (dropReports seen).Pairwise fun r r' => r.1 + dropReportInterval ≤ r'.1
  last : ∀ report ∈ dropReports seen, report.1 ≤ q.lastDropReport

section Lists

variable (seen obs : List QueueEvent)

theorem acceptedEvents_append :
    acceptedEvents (seen ++ obs) = acceptedEvents seen ++ acceptedEvents obs :=
  List.filterMap_append

theorem returnedEvents_append :
    returnedEvents (seen ++ obs) = returnedEvents seen ++ returnedEvents obs :=
  List.filterMap_append

theorem refusals_append : refusals (seen ++ obs) = refusals seen + refusals obs :=
  List.countP_append

theorem dropReports_append : dropReports (seen ++ obs) = dropReports seen ++ dropReports obs :=
  List.filterMap_append

theorem reportedDrops_append :
    reportedDrops (seen ++ obs) = reportedDrops seen + reportedDrops obs := by
  simp [reportedDrops, dropReports_append]

/-- A report of zero is no report, and adds nothing either. -/
theorem reportedDrops_refused (now : ℤ) (n : UInt64) :
    reportedDrops [.refused now n] = n.toNat := by
  by_cases hpos : n > 0
  · simp [reportedDrops, dropReports, hpos]
  · have hzero : n = 0 := by
      apply UInt64.toNat_inj.mp
      simpa [UInt64.lt_iff_toNat_lt] using hpos
    simp [reportedDrops, dropReports, hzero]

end Lists

theorem accounted_pktqueueInit : QueueAccounted pktqueueInit [] where
  inv := pktqueueInit_inv
  fifo := events_pktqueueInit
  drops := rfl
  spaced := List.Pairwise.nil
  last := by simp [dropReports]

/-! ### One call -/

section Step

variable {cfg : Config} {q : PacketQueue} {seen : List QueueEvent}

/-- What a push logs is the report of its `to_report`. -/
theorem pktqueuePush_log (cfg : Config) (now : ℤ) (event : KnockEvent) (q : PacketQueue) :
    (pktqueuePush cfg now event q).2.2 = dropReport cfg (q.toReport now) := by
  unfold pktqueuePush PacketQueue.toReport
  split
  · rfl
  · split
    · rfl
    · rfl

/-- A refused push adds one to the counter, and moves the counter to the report if there
is one; the time of the last report moves along. -/
theorem pktqueuePush_refused (cfg : Config) (now : ℤ) (event : KnockEvent)
    (hfull : ¬ q.count < queueCapacity) :
    ((pktqueuePush cfg now event q).1.dropped = 0 ∧
        (pktqueuePush cfg now event q).1.lastDropReport = now ∧
        q.toReport now = q.dropped + 1 ∧ q.lastDropReport + dropReportInterval ≤ now) ∨
      ((pktqueuePush cfg now event q).1.dropped = q.dropped + 1 ∧
        (pktqueuePush cfg now event q).1.lastDropReport = q.lastDropReport ∧
        q.toReport now = 0) := by
  unfold pktqueuePush PacketQueue.toReport
  rw [if_neg hfull, if_neg hfull]
  by_cases hdue : now - q.lastDropReport ≥ dropReportInterval
  · rw [if_pos hdue, if_pos hdue]
    exact Or.inl ⟨rfl, rfl, rfl, by omega⟩
  · rw [if_neg hdue, if_neg hdue]
    exact Or.inr ⟨rfl, rfl, rfl⟩

/-- Counting up keeps the total, modulo the width of the counter. -/
theorem succ_toNat_modEq (n : UInt64) : (n + 1).toNat ≡ n.toNat + 1 [MOD 2 ^ 64] := by
  rw [UInt64.toNat_add]
  exact Nat.mod_modEq _ _

/-- A taken push leaves the drop counter alone. -/
theorem accounted_push_taken (h : QueueAccounted q seen) (now : ℤ) (event : KnockEvent)
    (hroom : q.count < queueCapacity) :
    QueueAccounted (pktqueuePush cfg now event q).1 (seen ++ [.accepted event]) := by
  obtain ⟨hinv, htaken, hevents, -⟩ := pktqueuePush_spec h.inv cfg now event
  have htaken' : (pktqueuePush cfg now event q).2.1 = true := by simpa [hroom] using htaken
  have hdropped : (pktqueuePush cfg now event q).1.dropped = q.dropped := by
    rw [pktqueuePush, if_pos hroom]
  have hlast : (pktqueuePush cfg now event q).1.lastDropReport = q.lastDropReport := by
    rw [pktqueuePush, if_pos hroom]
  have hreports : dropReports (seen ++ [.accepted event]) = dropReports seen := by
    simp [dropReports]
  refine ⟨hinv, ?_, ?_, ?_, ?_⟩
  · rw [hevents, htaken', acceptedEvents_append, returnedEvents_append]
    rw [← h.fifo]
    simp [returnedEvents, acceptedEvents]
  · rw [reportedDrops, hreports, hdropped, refusals_append]
    exact h.drops
  · rw [hreports]
    exact h.spaced
  · rw [hreports, hlast]
    exact h.last

/-- A refused push is one more refusal, and one more in the counter or the report. -/
theorem accounted_push_refused (h : QueueAccounted q seen) (now : ℤ) (event : KnockEvent)
    (hfull : ¬ q.count < queueCapacity) :
    QueueAccounted (pktqueuePush cfg now event q).1 (seen ++ [.refused now (q.toReport now)]) := by
  obtain ⟨hinv, htaken, hevents, -⟩ := pktqueuePush_spec h.inv cfg now event
  have htaken' : (pktqueuePush cfg now event q).2.1 = false := by simpa [hfull] using htaken
  have hfifo : returnedEvents (seen ++ [.refused now (q.toReport now)]) ++
      (pktqueuePush cfg now event q).1.events =
        acceptedEvents (seen ++ [.refused now (q.toReport now)]) := by
    rw [hevents, htaken', acceptedEvents_append, returnedEvents_append, ← h.fifo]
    simp [returnedEvents, acceptedEvents]
  have hrefusals : refusals (seen ++ [.refused now (q.toReport now)]) = refusals seen + 1 :=
    refusals_append _ _
  have hsucc := succ_toNat_modEq q.dropped
  rcases pktqueuePush_refused cfg now event hfull with
    ⟨hdropped, hlast, hreport, hdue⟩ | ⟨hdropped, hlast, hreport⟩
  · refine ⟨hinv, hfifo, ?_, ?_, ?_⟩
    · rw [hrefusals, reportedDrops_append, reportedDrops_refused, hdropped, hreport]
      calc refusals seen + 1 ≡ reportedDrops seen + q.dropped.toNat + 1 [MOD 2 ^ 64] :=
            h.drops.add_right 1
        _ = reportedDrops seen + (q.dropped.toNat + 1) := Nat.add_assoc _ _ _
        _ ≡ reportedDrops seen + (q.dropped + 1).toNat [MOD 2 ^ 64] := hsucc.symm.add_left _
        _ = reportedDrops seen + (q.dropped + 1).toNat + (0 : UInt64).toNat := rfl
    · rw [dropReports_append]
      refine List.pairwise_append.mpr ⟨h.spaced, ?_, fun r hr r' hr' => ?_⟩
      · by_cases hpos : q.toReport now > 0 <;> simp [dropReports, hpos]
      · have hle := h.last r hr
        obtain ⟨-, rfl⟩ : q.toReport now > 0 ∧ r' = (now, q.toReport now) := by
          simpa [dropReports, eq_comm] using hr'
        exact (Int.add_le_add_right hle _).trans hdue
    · rw [dropReports_append, hlast]
      intro r hr
      rcases List.mem_append.mp hr with hr | hr
      · have hle := h.last r hr
        have hten : dropReportInterval = 10 := rfl
        omega
      · obtain ⟨-, rfl⟩ : q.toReport now > 0 ∧ r = (now, q.toReport now) := by
          simpa [dropReports, eq_comm] using hr
        exact le_refl now
  · have hnone : dropReports (seen ++ [.refused now (q.toReport now)]) = dropReports seen := by
      rw [hreport]
      simp [dropReports]
    refine ⟨hinv, hfifo, ?_, ?_, ?_⟩
    · rw [hrefusals, reportedDrops, hnone, hdropped]
      calc refusals seen + 1 ≡ reportedDrops seen + q.dropped.toNat + 1 [MOD 2 ^ 64] :=
            h.drops.add_right 1
        _ = reportedDrops seen + (q.dropped.toNat + 1) := Nat.add_assoc _ _ _
        _ ≡ reportedDrops seen + (q.dropped + 1).toNat [MOD 2 ^ 64] := hsucc.symm.add_left _
    · rw [hnone]
      exact h.spaced
    · rw [hnone, hlast]
      exact h.last

/-- Both readers take the head of the queue and touch nothing else. -/
theorem accounted_dequeue (h : QueueAccounted q seen) :
    QueueAccounted (dequeue q).2 (seen ++ [.returned (dequeue q).1]) := by
  obtain ⟨hinv, hevents, -, -⟩ := dequeue_spec h.inv
  have hkept : (dequeue q).2.dropped = q.dropped ∧
      (dequeue q).2.lastDropReport = q.lastDropReport := by
    unfold dequeue
    split
    · exact ⟨rfl, rfl⟩
    · exact ⟨rfl, rfl⟩
  have hreports : dropReports (seen ++ [.returned (dequeue q).1]) = dropReports seen := by
    simp [dropReports]
  refine ⟨hinv, ?_, ?_, ?_, ?_⟩
  · rw [acceptedEvents_append, returnedEvents_append, ← h.fifo, hevents]
    cases (dequeue q).1 with
    | none => simp [returnedEvents, acceptedEvents]
    | some event => simp [returnedEvents, acceptedEvents]
  · rw [reportedDrops, hreports, hkept.1, refusals_append]
    exact h.drops
  · rw [hreports]
    exact h.spaced
  · rw [hreports, hkept.2]
    exact h.last

/-- Every call keeps the accounts. -/
theorem queueStep_accounted (h : QueueAccounted q seen) (call : QueueCall) :
    QueueAccounted (queueStep cfg q call).1 (seen ++ (queueStep cfg q call).2) := by
  cases call with
  | push now event =>
    have htaken := (pktqueuePush_spec h.inv cfg now event).2.1
    by_cases hroom : q.count < queueCapacity
    · simpa [queueStep, htaken, hroom] using accounted_push_taken h now event hroom
    · simpa [queueStep, htaken, hroom] using accounted_push_refused h now event hroom
  | pop => exact accounted_dequeue h
  | wait timedOut =>
    by_cases hwait : q.count = 0 ∧ q.shuttingDown = false ∧ timedOut = false
    · simpa [queueStep, pktqueueWait, hwait] using h
    · simpa [queueStep, pktqueueWait, hwait] using accounted_dequeue h
  | shutdown =>
    obtain ⟨hinv, hevents⟩ := pktqueueShutdown_spec h.inv
    simp only [queueStep, List.append_nil]
    exact ⟨hinv, by rw [hevents]; exact h.fifo, h.drops, h.spaced, h.last⟩

end Step

/-! ### Whole runs -/

/-- Every list of calls is a run. -/
theorem exists_queueRun (cfg : Config) (calls : List QueueCall) :
    ∃ q seen, queueRun cfg calls = some (q, seen) := by
  have htotal : ∀ q, ∃ q' seen,
      Machine.run (fun q call => some (queueStep cfg q call)) q calls = some (q', seen) := by
    induction calls with
    | nil => exact fun q => ⟨q, [], rfl⟩
    | cons call calls ih =>
      intro q
      obtain ⟨q', seen, hrun⟩ := ih (queueStep cfg q call).1
      exact ⟨q', _, Machine.run_cons.mpr ⟨_, _, seen, rfl, hrun, rfl⟩⟩
  exact htotal pktqueueInit

theorem accounted_of_queueRun {cfg : Config} {calls : List QueueCall} {q : PacketQueue}
    {seen : List QueueEvent} (h : queueRun cfg calls = some (q, seen)) : QueueAccounted q seen := by
  have hstep : ∀ q seen call q' obs, QueueAccounted q seen →
      some (queueStep cfg q call) = some (q', obs) → QueueAccounted q' (seen ++ obs) := by
    intro q seen call q' obs hq hnext
    have hkept : QueueAccounted (queueStep cfg q call).1 (seen ++ (queueStep cfg q call).2) :=
      queueStep_accounted hq call
    rwa [Option.some.inj hnext] at hkept
  simpa using Machine.invariant_of_run hstep accounted_pktqueueInit h

/-- A reader that comes back with nothing found nothing queued. -/
theorem events_of_returned_none {q : PacketQueue} (h : q.Inv) (hnone : (dequeue q).1 = none) :
    q.events = [] :=
  (dequeue_spec h).2.2.1.mp hnone

/-- **Nothing is lost silently.** After any interleaving of calls: the events the readers
got, followed by those still queued, are the events pushed with success, in order. The
indices agree. The pushes that returned minus one are counted in the reports and in the
counter, up to the width of the counter, and any two reports lie ten seconds or more
apart. Of the next call: a push returns minus one exactly when 256 events are queued,
then changes none of them, and logs the report of its count, if any; a reader returns
minus one only when nothing is queued, whether or not the queue is shutting down. -/
theorem queue_loses_nothing (cfg : Config) (calls : List QueueCall) :
    ∃ q seen, queueRun cfg calls = some (q, seen) ∧
      returnedEvents seen ++ q.events = acceptedEvents seen ∧
      (q.count ≤ queueCapacity ∧ q.head = (q.tail + q.count) % queueCapacity) ∧
      refusals seen ≡ reportedDrops seen + q.dropped.toNat [MOD 2 ^ 64] ∧
      ((dropReports seen).Pairwise fun r r' => r.1 + dropReportInterval ≤ r'.1) ∧
      (∀ now event,
        ((pktqueuePush cfg now event q).2.1 = false ↔ q.events.length = queueCapacity) ∧
        ((pktqueuePush cfg now event q).2.1 = false →
          (pktqueuePush cfg now event q).1.events = q.events) ∧
        (pktqueuePush cfg now event q).2.2 = dropReport cfg (q.toReport now)) ∧
      ((pktqueuePop q).1 = none → q.events = []) ∧
      ∀ timedOut q', pktqueueWait timedOut q = some (none, q') → q.events = [] := by
  obtain ⟨q, seen, hrun⟩ := exists_queueRun cfg calls
  have h := accounted_of_queueRun hrun
  refine ⟨q, seen, hrun, h.fifo, ⟨h.inv.count_le, h.inv.head_eq⟩, h.drops, h.spaced,
    fun now event => ?_, events_of_returned_none h.inv, fun timedOut q' hwait => ?_⟩
  · obtain ⟨-, htaken, hevents, -⟩ := pktqueuePush_spec h.inv cfg now event
    refine ⟨?_, fun hrefused => ?_, pktqueuePush_log cfg now event q⟩
    · have hle := h.inv.count_le
      rw [htaken, PacketQueue.length_events, decide_eq_false_iff_not]
      omega
    · rw [hevents, hrefused]
      simp
  · rw [pktqueueWait] at hwait
    split at hwait
    · cases hwait
    · exact events_of_returned_none h.inv (congrArg Prod.fst (Option.some.inj hwait))

end Knockd
