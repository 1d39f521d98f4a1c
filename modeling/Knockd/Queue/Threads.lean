import Knockd.Model.QueueThreads
import Knockd.Queue.Runs
import Knockd.Semantics.Wakeup

/-!
# The packet queue under its lock

Any number of threads run the functions of `packet_queue.c`, statement by statement, in
any interleaving, with wake-ups for no reason and timeouts at any moment. Each section,
from the lock to the unlock or to the sleep, does what one atomic call does, so every such
run is a run of atomic calls in the order in which the sections ended, and has its
accounts. And no reader sleeps on an event: while one sleeps, the queue is not shutting
down, and there is a woken reader for every queued event.

## Main definitions

* `QueueProc.Starts` — where a call may take the lock
* `visitCalls`, `visitEvents` — the atomic calls the sections amount to
* `QueueCovered` — every queued event has a woken reader

## Main results

* `section_queueStep` — a section is an atomic call
* `threads_queueRun` — a run of the threads is a run of atomic calls
* `threads_wakeups` — no reader sleeps on an event
-/

namespace Knockd

open Monitor (Section section_iff)

/-- Where a call may take the lock: where it enters, and in the loop of `pktqueue_wait`
also behind it, when the deadline has passed. -/
def QueueProc.Starts : QueueProc → QueuePc → Prop
  | .push event now, pc => pc = .pushRoom event now
  | .pop, pc => pc = .takeAny
  | .wait, pc => pc = .waitLoop ∨ pc = .takeAny
  | .shutdown, pc => pc = .shutdownFlag

/-- The atomic call a section amounts to: one that starts behind the loop of
`pktqueue_wait` is the turn that timed out. -/
def visitCall (call : QueueProc) (start : QueuePc) : QueueCall :=
  match call with
  | .push event now => .push now event
  | .pop => .pop
  | .wait => .wait (start = .takeAny)
  | .shutdown => .shutdown

/-- What the caller sees when a section ends. -/
def exitEvent (call : QueueProc) : Monitor.Exit QueuePc QueueResult → Option QueueEvent
  | .slept .. => none
  | .returned (.got event) => some (.returned event)
  | .returned .stopped => none
  | .returned (.pushed taken toReport) =>
    match call with
    | .push event now => some (if taken then .accepted event else .refused now toReport)
    | _ => none

section Visits

variable {ι : Type}

/-- The atomic calls of a run of the threads, in the order in which the sections ended. -/
def visitCalls (seen : List (QueueVisit ι)) : List QueueCall :=
  seen.map fun v => visitCall v.call v.start

/-- What the callers saw. -/
def visitEvents (seen : List (QueueVisit ι)) : List QueueEvent :=
  seen.filterMap fun v => exitEvent v.call v.exit

end Visits

/-! ### Sections -/

section Sections

variable {q q' : PacketQueue} {exit : Monitor.Exit QueuePc QueueResult}

theorem queueCode_instr (pc : QueuePc) : queueCode.instr pc q = queueInstr pc q := rfl

/-- From `takeAny` on, both readers take the event at the tail. -/
theorem section_take : Section queueCode .takeAny q exit q' ↔
    exit = .returned (.got (dequeue q).1) ∧ q' = (dequeue q).2 := by
  rw [section_iff]
  by_cases hsome : q.count > 0
  · simp only [queueCode_instr, queueInstr, dequeue, if_pos hsome]
    iterate 4
      rw [section_iff]
      simp only [queueCode_instr, queueInstr]
  · simp only [queueCode_instr, queueInstr, dequeue, if_neg hsome]
    rw [section_iff]
    simp only [queueCode_instr, queueInstr]

/-- A turn of the loop of `pktqueue_wait` goes to sleep or takes. -/
theorem section_wait : Section queueCode .waitLoop q exit q' ↔
    (if q.count = 0 ∧ q.shuttingDown = false then exit = .slept .waitLoop .takeAny ∧ q' = q
    else Section queueCode .takeAny q exit q') := by
  rw [section_iff]
  by_cases hidle : q.count = 0 ∧ q.shuttingDown = false
  · simp only [queueCode_instr, queueInstr, if_pos hidle]
  · simp only [queueCode_instr, queueInstr, if_neg hidle]

theorem section_shutdown : Section queueCode .shutdownFlag q exit q' ↔
    exit = .returned .stopped ∧ q' = pktqueueShutdown q := by
  iterate 3
    rw [section_iff]
    simp only [queueCode_instr, queueInstr]
  rfl

/-- A push fills a slot, or counts the event as dropped and decides about the report. -/
theorem section_push (cfg : Config) {event : KnockEvent} {now : ℤ} :
    Section queueCode (.pushRoom event now) q exit q' ↔
      exit = .returned (.pushed (pktqueuePush cfg now event q).2.1 (q.toReport now)) ∧
        q' = (pktqueuePush cfg now event q).1 := by
  rw [section_iff]
  by_cases hroom : q.count < queueCapacity
  · simp only [queueCode_instr, queueInstr, pktqueuePush, PacketQueue.toReport, if_pos hroom]
    iterate 5
      rw [section_iff]
      simp only [queueCode_instr, queueInstr]
  · simp only [queueCode_instr, queueInstr, pktqueuePush, PacketQueue.toReport, if_neg hroom]
    iterate 2
      rw [section_iff]
      simp only [queueCode_instr, queueInstr]
    by_cases hdue : now - q.lastDropReport ≥ dropReportInterval
    · simp only [if_pos hdue]
      iterate 4
        rw [section_iff]
        simp only [queueCode_instr, queueInstr]
    · simp only [if_neg hdue]
      rw [section_iff]
      simp only [queueCode_instr, queueInstr]

/-- Only the loop of `pktqueue_wait` sleeps. -/
theorem queueCode_fits : queueCode.Fits QueueProc.Starts where
  entry call := by
    cases call with
    | wait => exact .inl rfl
    | _ => rfl
  slept call start q w t q' hstart hsection := by
    cases call with
    | push event now =>
      obtain rfl : start = .pushRoom event now := hstart
      cases ((section_push .default).mp hsection).1
    | pop =>
      obtain rfl : start = .takeAny := hstart
      cases (section_take.mp hsection).1
    | shutdown =>
      obtain rfl : start = .shutdownFlag := hstart
      cases (section_shutdown.mp hsection).1
    | wait =>
      rcases hstart with rfl | rfl
      · rw [section_wait] at hsection
        split at hsection
        · cases hsection.1
          exact ⟨.inl rfl, .inr rfl⟩
        · cases (section_take.mp hsection).1
      · cases (section_take.mp hsection).1

/-- Each section does what one atomic call does. -/
theorem section_queueStep (cfg : Config) {call : QueueProc} {start : QueuePc}
    (hstart : call.Starts start) (h : Section queueCode start q exit q') :
    queueStep cfg q (visitCall call start) = (q', (exitEvent call exit).toList) := by
  cases call with
  | push event now =>
    obtain rfl : start = .pushRoom event now := hstart
    obtain ⟨rfl, rfl⟩ := (section_push cfg).mp h
    rfl
  | pop =>
    obtain rfl : start = .takeAny := hstart
    obtain ⟨rfl, rfl⟩ := section_take.mp h
    rfl
  | shutdown =>
    obtain rfl : start = .shutdownFlag := hstart
    obtain ⟨rfl, rfl⟩ := section_shutdown.mp h
    rfl
  | wait =>
    rcases hstart with rfl | rfl
    · rw [section_wait] at h
      by_cases hidle : q.count = 0 ∧ q.shuttingDown = false
      · rw [if_pos hidle] at h
        obtain ⟨rfl, rfl⟩ := h
        simp [visitCall, queueStep, pktqueueWait, hidle, exitEvent]
      · rw [if_neg hidle] at h
        obtain ⟨rfl, rfl⟩ := section_take.mp h
        simp [visitCall, queueStep, pktqueueWait, if_neg hidle, exitEvent]
    · obtain ⟨rfl, rfl⟩ := section_take.mp h
      simp [visitCall, queueStep, pktqueueWait, exitEvent]

end Sections

/-! ### Runs -/

section Runs

variable {ι : Type} [DecidableEq ι] [Fintype ι] {actions : List (Monitor.Action ι QueueProc)}
  {s : QueueThreads ι} {seen : List (QueueVisit ι)}

/-- The atomic run of the sections so far, and the section under way. -/
theorem queueRun_of_threads (cfg : Config)
    (h : Monitor.run queueCode (.start pktqueueInit) actions = some (s, seen)) :
    ∃ q, queueRun cfg (visitCalls seen) = some (q, visitEvents seen) ∧
      Monitor.Sections queueCode s q := by
  refine Monitor.sections_of_run queueCode_fits
    (P := fun q seen => queueRun cfg (visitCalls seen) = some (q, visitEvents seen)) rfl ?_ h
  intro q seen v q' hrun hstart hsection
  have hstep := section_queueStep cfg hstart hsection
  have hlast : Machine.run (fun q call => some (queueStep cfg q call)) q
      [visitCall v.call v.start] = some (q', (exitEvent v.call v.exit).toList) := by
    simp [Machine.run, hstep]
  have hevents : visitEvents (seen ++ [v]) =
      visitEvents seen ++ (exitEvent v.call v.exit).toList := by
    rw [visitEvents, List.filterMap_append]
    cases hexit : exitEvent v.call v.exit <;> simp [visitEvents, hexit]
  rw [hevents, visitCalls, List.map_append]
  exact Machine.run_append hrun hlast

/-- **Each call of the queue is atomic.** However many threads run `packet_queue.c`
statement by statement, and however they are interleaved and woken: the sections they have
completed amount to a run of atomic calls, which returned the same and left the accounts in
order, the statics are as that run left them whenever nobody holds the lock, and no two
threads are ever inside at once. -/
theorem threads_queueRun (cfg : Config)
    (h : Monitor.run queueCode (.start pktqueueInit) actions = some (s, seen)) :
    (∃ q, queueRun cfg (visitCalls seen) = some (q, visitEvents seen) ∧
      QueueAccounted q (visitEvents seen) ∧ (s.holder = none → s.shared = q)) ∧
    ∀ i j, (s.threads i).isInside → (s.threads j).isInside → i = j := by
  obtain ⟨q, hrun, hsections⟩ := queueRun_of_threads cfg h
  refine ⟨⟨q, hrun, accounted_of_queueRun hrun, hsections.free⟩, fun i j hi hj => ?_⟩
  have hholder : ∀ k, (s.threads k).isInside → s.holder = some k := by
    intro k hk
    cases hthread : s.threads k with
    | inside call start pc => exact hsections.alone k call start pc hthread
    | _ =>
      rw [hthread] at hk
      cases hk
  exact Option.some.inj ((hholder i hi).symm.trans (hholder j hj))

/-- The reader goes to sleep; a push is half done when the reader wakes for no reason, and
it gets the event once the push has unlocked. -/
def wakeEarly (event : KnockEvent) : List (Monitor.Action Bool QueueProc) :=
  [.call true .wait, .acquire true, .exec true none, .call false (.push event 0),
    .acquire false, .exec false none, .exec false none, .wake true false, .exec false none,
    .exec false none, .exec false none, .exec false none, .acquire true, .exec true none,
    .exec true none, .exec true none, .exec true none, .exec true none, .exec true none]

/-- What the callers see of it. -/
theorem visitEvents_wakeEarly :
    (Monitor.run queueCode (.start pktqueueInit) (wakeEarly ⟨1, 7000⟩)).map
      (fun out => visitEvents out.2) =
        some [.accepted ⟨1, 7000⟩, .returned (some ⟨1, 7000⟩)] := by
  decide +kernel

theorem threads_queueRun_wakeEarly : ∃ s seen,
    Monitor.run queueCode (.start pktqueueInit) (wakeEarly ⟨1, 7000⟩) = some (s, seen) ∧
      visitEvents seen = [.accepted ⟨1, 7000⟩, .returned (some ⟨1, 7000⟩)] ∧
      (∃ q, queueRun .default (visitCalls seen) = some (q, visitEvents seen) ∧
        QueueAccounted q (visitEvents seen) ∧ (s.holder = none → s.shared = q)) ∧
      ∀ i j, (s.threads i).isInside → (s.threads j).isInside → i = j := by
  obtain ⟨⟨s, seen⟩, hrun, hevents⟩ := Option.map_eq_some_iff.mp visitEvents_wakeEarly
  exact ⟨s, seen, hrun, hevents, threads_queueRun .default hrun⟩

/-! ### Sleepers -/

/-- How many events more than woken readers there may be while the lock is held: the one a
push has not signalled yet, or the one the holder is about to take. -/
def QueuePc.credit : QueuePc → ℕ
  | .pushSignal | .waitLoop | .takeAny | .takeEvent | .takeTail _ | .takeCount _ => 1
  | _ => 0

/-- Every queued event has a woken reader, and the queue is not shutting down. -/
def QueueCovered (place : Option QueuePc) (waking : ℕ) (q : PacketQueue) : Prop :=
  match place with
  | none => q.shuttingDown = false ∧ q.count ≤ waking
  | some pc => (q.shuttingDown = false ∨ pc = .shutdownBroadcast) ∧ q.count ≤ waking + pc.credit

/-- A statement that goes on: counting up earns the credit a signal pays back, counting down
uses the credit of the holder. -/
theorem goto_covered {pc pc' : QueuePc} {k : ℕ} {q : PacketQueue}
    (hinstr : (queueInstr pc q).2 = .goto pc') (h : QueueCovered (some pc) k q) :
    QueueCovered (some pc') k (queueInstr pc q).1 := by
  cases pc <;> simp only [queueInstr, QueueCovered, QueuePc.credit] at * <;> grind [QueuePc.credit]

/-- Only a push signals, and its event is one that a reader is now woken for. -/
theorem signal_covered {pc pc' : QueuePc} {k : ℕ} {q : PacketQueue}
    (hinstr : (queueInstr pc q).2 = .signal pc') (h : QueueCovered (some pc) k q) :
    QueueCovered (some pc') (k + 1) (queueInstr pc q).1 := by
  cases pc <;> simp only [queueInstr, QueueCovered, QueuePc.credit] at * <;> grind [QueuePc.credit]

/-- Nobody goes to sleep on an event or after the shutdown. -/
theorem wait_covered {pc w t : QueuePc} {q : PacketQueue}
    (hinstr : (queueInstr pc q).2 = .wait w t) :
    (w = .waitLoop ∧ t = .takeAny) ∧ q.count = 0 ∧ q.shuttingDown = false ∧
      (queueInstr pc q).1 = q := by
  cases pc <;> simp only [queueInstr] at * <;> grind

theorem ret_covered {pc : QueuePc} {r : QueueResult} {k : ℕ} {q : PacketQueue}
    (hinstr : (queueInstr pc q).2 = .ret r) (h : QueueCovered (some pc) k q) :
    QueueCovered none k (queueInstr pc q).1 := by
  cases pc <;> simp only [queueInstr, QueueCovered, QueuePc.credit] at * <;> grind

theorem queueCode_covers :
    queueCode.Covers (fun pc => pc = .waitLoop ∨ pc = .takeAny) QueueCovered where
  mono place k k' q hle h := by
    cases place with
    | none => exact ⟨h.1, h.2.trans hle⟩
    | some pc => exact ⟨h.1, h.2.trans (Nat.add_le_add_right hle _)⟩
  enter call k q h := ⟨.inl h.1, h.2.trans (Nat.le_add_right _ _)⟩
  reenter pc k q hpc h := by
    refine ⟨.inl h.1, h.2.trans ?_⟩
    rcases hpc with rfl | rfl
    · exact le_refl _
    · exact le_refl _
  goto pc pc' k q hinstr h := goto_covered hinstr h
  signal pc pc' k q hinstr h := signal_covered hinstr h
  wait pc w t k q hinstr := by
    obtain ⟨⟨rfl, rfl⟩, hcount, hflag, hsame⟩ := wait_covered hinstr
    refine ⟨.inl rfl, .inr rfl, ?_⟩
    rw [queueCode_instr, hsame]
    exact ⟨hflag, hcount.trans_le (Nat.zero_le _)⟩
  ret pc r k q hinstr h := ret_covered hinstr h

/-- **No wake-up is lost.** However the threads are interleaved and woken: while some reader
sleeps in `pktqueue_wait` and nobody holds the lock, the queue is not shutting down, and
there are no more queued events than readers that have been woken and are on their way. -/
theorem threads_wakeups
    (h : Monitor.run queueCode (.start pktqueueInit) actions = some (s, seen))
    (hfree : s.holder = none) {i : ι} (hasleep : (s.threads i).isAsleep) :
    s.shared.shuttingDown = false ∧ s.shared.events.length ≤ s.waking := by
  have hcovered := (Monitor.covered_of_run queueCode_covers h).covered i hasleep
  have hplace : s.place = none := by simp [Monitor.State.place, hfree]
  rw [hplace] at hcovered
  rwa [PacketQueue.length_events]

/-- Two readers go to sleep, and a push wakes the first of them. -/
def wakeOne (event : KnockEvent) : List (Monitor.Action (Fin 3) QueueProc) :=
  [.call 0 .wait, .acquire 0, .exec 0 none, .call 1 .wait, .acquire 1, .exec 1 none,
    .call 2 (.push event 0), .acquire 2, .exec 2 none, .exec 2 none, .exec 2 none, .exec 2 none,
    .exec 2 (some 0), .exec 2 none]

theorem threads_wakeOne :
    (Monitor.run queueCode (.start pktqueueInit) (wakeOne ⟨1, 7000⟩)).map (fun out =>
      (out.1.holder, (out.1.threads 1).isAsleep, out.1.shared.count)) = some (none, true, 1) := by
  decide +kernel

theorem threads_wakeups_wakeOne : ∃ s seen,
    Monitor.run queueCode (.start pktqueueInit) (wakeOne ⟨1, 7000⟩) = some (s, seen) ∧
      s.shared.count = 1 ∧ (s.threads 1).isAsleep ∧
      s.shared.shuttingDown = false ∧ s.shared.events.length ≤ s.waking := by
  obtain ⟨⟨s, seen⟩, hrun, hseen⟩ := Option.map_eq_some_iff.mp threads_wakeOne
  simp only [Prod.mk.injEq] at hseen
  obtain ⟨hfree, hasleep, hcount⟩ := hseen
  exact ⟨s, seen, hrun, hcount, hasleep, threads_wakeups hrun hfree hasleep⟩

end Runs

end Knockd
