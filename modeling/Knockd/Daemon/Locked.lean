import Mathlib.Data.Fintype.Basic
import Knockd.Daemon.Stopping
import Knockd.Queue.Threads

/-!
# The daemon under the queue's lock

In the model of the daemon a queue operation of either thread is one step. Here it is what
it is in the program: a call that takes the lock, runs statement by statement and unlocks,
while the other thread does whatever it can without the lock; and the main thread sleeps in
`pktqueue_wait` until it is woken or its time is up. Everything else is as before.

Every run at this level is a run of the daemon with the same observations. The queue of the
model is the statics as the last section left them, so it is kept here as a record of
that; the threads read and write the statics only. What a thread writes to the log before
or after a section is recorded with the end of the section.

## Main definitions

* `Party`, `LockedDaemon` — the threads, and the daemon with the statics of the queue
* `LockedDaemon.step` — a step of either thread at this level

## Main results

* `locked_refines` — every run is a run of the daemon
* `locked_main_wakes` — the main thread does not sleep on a knock, or after the shutdown
* `locked_progress` — until the main thread is done, a thread can go on by itself
-/

namespace Knockd

/-- The two threads. -/
inductive Party
  | capture
  | main
  deriving DecidableEq, Repr

instance : Fintype Party where
  elems := {.capture, .main}
  complete
    | .capture => by decide
    | .main => by decide

/-- The daemon, the statics of the queue, and where the threads are in its code. -/
structure LockedDaemon where
  daemon : Daemon
  monitor : QueueThreads Party

/-- The call of the queue that a thread makes next, if it makes one, with the clock reading
a push takes. -/
def Daemon.queueCall (d : Daemon) (now : ℤ) : Party → Option QueueProc
  | .capture =>
    match d.capture with
    | .push event _ => some (.push event now)
    | .leaving => some .shutdown
    | _ => none
  | .main =>
    match d.processor with
    | .wait => some .wait
    | .drain => some .pop
    | .cleanup => some .shutdown
    | _ => none

/-- How a thread goes on when its call returns. -/
def Daemon.resume (cfg : Config) (d : Daemon) : Party → QueueResult → Daemon × List Obs
  | .capture, result =>
    match d.capture, result with
    | .push event arrival, .pushed taken toReport =>
      ({ d with capture := .check },
        [.pushed event arrival taken, .logged (dropReport cfg toReport)])
    | .leaving, .stopped => ({ d with capture := .stopped }, [])
    | _, _ => (d, [])
  | .main, result =>
    match d.processor, result with
    | .wait, .got (some event) => ({ d with processor := .handle event }, [])
    | .wait, .got none => ({ d with processor := .tick }, [])
    | .drain, .got (some event) => ({ d with processor := .handle event }, [])
    | .drain, .got none => ({ d with processor := .tick }, [])
    | .cleanup, .stopped =>
      ({ d with running := false, processor := .join },
        [.logged (logMsg cfg .info "Shutting down")])
    | _, _ => (d, [])

/-- A section has ended: the record is brought up to date, and if the call returned, its
thread goes on. -/
def Daemon.leave (cfg : Config) (queue : PacketQueue) (d : Daemon) :
    List (QueueVisit Party) → Daemon × List Obs
  | [] => (d, [])
  | v :: _ =>
    match v.exit with
    | .slept .. => ({ d with queue := queue }, [])
    | .returned result => Daemon.resume cfg { d with queue := queue } v.thread result

/-- What the scheduler can choose: a step outside the queue, the beginning of a call, and
the steps of a call. -/
inductive LockedAction
  | outside (action : Action)
  | call (party : Party) (now : ℤ)
  | acquire (party : Party)
  | exec (party : Party) (woken : Option Party)
  | wake (party : Party) (timedOut : Bool)

/-- Whose step it is, and at what time; a signal is nobody's. -/
def Action.party : Action → Option (Party × ℤ)
  | .signal => none
  | .capture _ now => some (.capture, now)
  | .processor input => some (.main, input.now)

/-- The thread of this action is not about to call the queue. -/
def Daemon.isOutside (d : Daemon) (action : Action) : Bool :=
  match action.party with
  | none => true
  | some (party, now) => (d.queueCall now party).isNone

namespace LockedDaemon

/-- A step inside the queue. -/
def advance (cfg : Config) (t : LockedDaemon) (action : Monitor.Action Party QueueProc) :
    Option (LockedDaemon × List Obs) :=
  (Monitor.step queueCode t.monitor action).map fun out =>
    let left := t.daemon.leave cfg out.1.shared out.2
    (⟨left.1, out.1⟩, left.2)

/-- One step of either thread. -/
def step (cfg : Config) (t : LockedDaemon) : LockedAction → Option (LockedDaemon × List Obs)
  | .outside action =>
    if t.daemon.isOutside action then
      (t.daemon.step cfg action).map fun out => (⟨out.1, t.monitor⟩, out.2)
    else none
  | .call party now => (t.daemon.queueCall now party).bind fun c => t.advance cfg (.call party c)
  | .acquire party => t.advance cfg (.acquire party)
  | .exec party woken => t.advance cfg (.exec party woken)
  | .wake party timedOut => t.advance cfg (.wake party timedOut)

/-- A run. -/
def run (cfg : Config) (t : LockedDaemon) (actions : List LockedAction) :
    Option (LockedDaemon × List Obs) :=
  Machine.run (step cfg) t actions

/-- The state in which the capture thread starts. -/
def start (cfg : Config) (ifindex : UInt32) (st : FirewallState) (now : ℤ) : LockedDaemon where
  daemon := .start cfg ifindex st now
  monitor := .start pktqueueInit

end LockedDaemon

/-! ### What stays the same -/

section Frame

variable {cfg : Config} {d d' : Daemon} {obs : List Obs} {now : ℤ}

/-- What the capture thread calls is a matter of where it is. -/
theorem queueCall_capture_congr (h : d'.capture = d.capture) :
    d'.queueCall now .capture = d.queueCall now .capture := by
  simp only [Daemon.queueCall, h]

theorem queueCall_main_congr (h : d'.processor = d.processor) :
    d'.queueCall now .main = d.queueCall now .main := by
  simp only [Daemon.queueCall, h]

theorem captureMove_processor {recv : Recv} (h : CaptureMove cfg recv now d d' obs) :
    d'.processor = d.processor := by
  cases h <;> rfl

theorem processorMove_capture {input : ProcessorInput} (h : ProcessorMove cfg input d d' obs) :
    d'.capture = d.capture := by
  cases h <;> rfl

/-- Away from the queue no step touches it, nor what the other thread is about to call. -/
theorem outside_step {action : Action} (hout : d.isOutside action)
    (h : d.step cfg action = some (d', obs)) :
    d'.queue = d.queue ∧
      ∀ party, action.party.map Prod.fst ≠ some party →
        ∀ now, d'.queueCall now party = d.queueCall now party := by
  cases action with
  | signal =>
    cases h
    exact ⟨rfl, fun party _ now => by cases party <;> rfl⟩
  | capture recv now =>
    have hmove := captureStep_move h
    refine ⟨?_, fun party hparty now => ?_⟩
    · simp only [Daemon.isOutside, Action.party, Option.isNone_iff_eq_none] at hout
      cases hmove with
      | push event arrival hpc => simp [Daemon.queueCall, hpc] at hout
      | leave hpc => simp [Daemon.queueCall, hpc] at hout
      | _ => rfl
    · cases party with
      | capture => exact absurd rfl hparty
      | main => exact queueCall_main_congr (captureMove_processor hmove)
  | processor input =>
    have hmove := processorStep_move h
    refine ⟨?_, fun party hparty now => ?_⟩
    · simp only [Daemon.isOutside, Action.party, Option.isNone_iff_eq_none] at hout
      cases hmove with
      | take event queue hpc => rcases hpc with hpc | hpc <;> simp [Daemon.queueCall, hpc] at hout
      | empty queue hpc => rcases hpc with hpc | hpc <;> simp [Daemon.queueCall, hpc] at hout
      | cleanup hpc => simp [Daemon.queueCall, hpc] at hout
      | _ => rfl
    · cases party with
      | main => exact absurd rfl hparty
      | capture => exact queueCall_capture_congr (processorMove_capture hmove)

/-- A thread that goes on after its call leaves the other one alone. -/
theorem resume_frame (cfg : Config) (d : Daemon) (party : Party) (result : QueueResult) :
    (d.resume cfg party result).1.queue = d.queue ∧
      ∀ other, other ≠ party → ∀ now,
        (d.resume cfg party result).1.queueCall now other = d.queueCall now other := by
  cases party with
  | capture =>
    simp only [Daemon.resume]
    refine ⟨?_, fun other hother now => ?_⟩
    · split <;> rfl
    · cases other with
      | capture => exact absurd rfl hother
      | main => split <;> rfl
  | main =>
    simp only [Daemon.resume]
    refine ⟨?_, fun other hother now => ?_⟩
    · split <;> rfl
    · cases other with
      | main => exact absurd rfl hother
      | capture => split <;> rfl

end Frame

/-! ### The refinement -/

section Refinement

variable {cfg : Config} {d : Daemon} {t t' : LockedDaemon} {obs : List Obs}

/-- The record of the queue is what the last section left, every thread takes the lock where
its call may, and a thread that is in a call is where it makes that call. -/
structure LockedDaemon.Inv (t : LockedDaemon) : Prop where
  sections : Monitor.Sections queueCode t.monitor t.daemon.queue
  fits : ∀ party, (t.monitor.threads party).Fits QueueProc.Starts
  calls : ∀ party c, (t.monitor.threads party).current = some c →
    ∃ now, t.daemon.queueCall now party = some c

/-- A section of the capture thread that ends is its queue operation. -/
theorem capture_leave {call : QueueProc} {start : QueuePc} {now : ℤ}
    {exit : Monitor.Exit QueuePc QueueResult} {q : PacketQueue}
    (hcall : d.queueCall now .capture = some call) (hstart : call.Starts start)
    (hsection : Monitor.Section queueCode start d.queue exit q) :
    d.step cfg (.capture .again now) = some (d.leave cfg q [⟨.capture, call, start, exit⟩]) := by
  simp only [Daemon.queueCall] at hcall
  split at hcall
  · rename_i event arrival hpc
    cases hcall
    obtain rfl : start = .pushRoom event now := hstart
    obtain ⟨rfl, rfl⟩ := (section_push cfg).mp hsection
    simp only [Daemon.step, captureStep, Daemon.leave, Daemon.resume, hpc, pktqueuePush_log]
  · rename_i hpc
    cases hcall
    obtain rfl : start = .shutdownFlag := hstart
    obtain ⟨rfl, rfl⟩ := section_shutdown.mp hsection
    simp only [Daemon.step, captureStep, Daemon.leave, Daemon.resume, hpc]
  · cases hcall

/-- What the main thread does with what a reader got. -/
theorem main_taken (hpc : d.processor = .wait ∨ d.processor = .drain) (call : QueueProc)
    (start : QueuePc) :
    d.leave cfg (dequeue d.queue).2 [⟨.main, call, start, .returned (.got (dequeue d.queue).1)⟩] =
      match dequeue d.queue with
      | (some event, queue) => ({ d with queue := queue, processor := .handle event }, [])
      | (none, queue) => ({ d with queue := queue, processor := .tick }, []) := by
  obtain ⟨taken, queue⟩ := dequeue d.queue
  rcases hpc with hpc | hpc
  · cases taken <;> simp only [Daemon.leave, Daemon.resume, hpc]
  · cases taken <;> simp only [Daemon.leave, Daemon.resume, hpc]

/-- A section of the main thread that ends is its queue operation, or it went to sleep. -/
theorem main_leave {call : QueueProc} {start : QueuePc} {now : ℤ}
    {exit : Monitor.Exit QueuePc QueueResult} {q : PacketQueue}
    (hcall : d.queueCall now .main = some call) (hstart : call.Starts start)
    (hsection : Monitor.Section queueCode start d.queue exit q) :
    d.leave cfg q [⟨.main, call, start, exit⟩] = (d, []) ∨
      d.step cfg (.processor ⟨now, now, start = .takeAny, none⟩) =
        some (d.leave cfg q [⟨.main, call, start, exit⟩]) := by
  simp only [Daemon.queueCall] at hcall
  split at hcall
  · rename_i hpc
    cases hcall
    have htake : Monitor.Section queueCode .takeAny d.queue exit q →
        (d.queue.count = 0 ∧ d.queue.shuttingDown = false → start = .takeAny) →
        d.step cfg (.processor ⟨now, now, start = .takeAny, none⟩) =
          some (d.leave cfg q [⟨.main, .wait, start, exit⟩]) := by
      intro htake htimeout
      obtain ⟨rfl, rfl⟩ := section_take.mp htake
      rw [main_taken (.inl hpc)]
      have hgo : ¬ (d.queue.count = 0 ∧ d.queue.shuttingDown = false ∧
          decide (start = .takeAny) = false) := by
        rintro ⟨hcount, hflag, hnot⟩
        simp [htimeout ⟨hcount, hflag⟩] at hnot
      simp only [Daemon.step, processorStep, hpc, pktqueueWait, if_neg hgo]
      obtain ⟨taken, queue⟩ := dequeue d.queue
      cases taken <;> rfl
    rcases hstart with rfl | rfl
    · rw [section_wait] at hsection
      split at hsection
      · obtain ⟨rfl, rfl⟩ := hsection
        exact .inl rfl
      · rename_i hidle
        exact .inr (htake hsection fun hcond => absurd hcond hidle)
    · exact .inr (htake hsection fun _ => rfl)
  · rename_i hpc
    cases hcall
    obtain rfl : start = .takeAny := hstart
    obtain ⟨rfl, rfl⟩ := section_take.mp hsection
    rw [main_taken (.inr hpc)]
    simp only [Daemon.step, processorStep, hpc, pktqueuePop]
    obtain ⟨taken, queue⟩ := dequeue d.queue
    cases taken <;> simp
  · rename_i hpc
    cases hcall
    obtain rfl : start = .shutdownFlag := hstart
    obtain ⟨rfl, rfl⟩ := section_shutdown.mp hsection
    simp only [Daemon.step, processorStep, Daemon.leave, Daemon.resume, hpc, or_true]
  · cases hcall

/-- The end of a section is a step of the daemon, or none if the thread went to sleep. -/
theorem leave_refines {v : QueueVisit Party} {now : ℤ} {q : PacketQueue}
    (hcall : d.queueCall now v.thread = some v.call) (hstart : v.call.Starts v.start)
    (hsection : Monitor.Section queueCode v.start d.queue v.exit q) :
    ∃ actions, d.run cfg actions = some (d.leave cfg q [v]) := by
  have hone : ∀ action, d.step cfg action = some (d.leave cfg q [v]) →
      ∃ actions, d.run cfg actions = some (d.leave cfg q [v]) := by
    intro action hstep
    exact ⟨[action], by simp [Daemon.run, Machine.run, hstep]⟩
  obtain ⟨party, call, start, exit⟩ := v
  cases party with
  | capture => exact hone _ (capture_leave hcall hstart hsection)
  | main =>
    rcases main_leave hcall hstart hsection with hsleep | hstep
    · exact ⟨[], by rw [hsleep]; rfl⟩
    · exact hone _ hstep

/-- What the end of a section leaves alone: the other thread, and a thread that sleeps. -/
theorem leave_frame (cfg : Config) (d : Daemon) (q : PacketQueue) (v : QueueVisit Party) :
    (d.leave cfg q [v]).1.queue = q ∧
      ∀ party, (party = v.thread → ∀ result, v.exit ≠ .returned result) → ∀ now,
        (d.leave cfg q [v]).1.queueCall now party = d.queueCall now party := by
  have hqueue : ∀ now party, Daemon.queueCall { d with queue := q } now party =
      d.queueCall now party := by
    rintro now (_ | _) <;> rfl
  cases hexit : v.exit with
  | slept w t =>
    simp only [Daemon.leave, hexit]
    exact ⟨trivial, fun party _ now => hqueue now party⟩
  | returned result =>
    simp only [Daemon.leave, hexit]
    obtain ⟨hkept, hother⟩ := resume_frame cfg { d with queue := q } v.thread result
    refine ⟨hkept, fun party hparty now => (hother party ?_ now).trans (hqueue now party)⟩
    exact fun hsame => hparty hsame result rfl

/-- A step inside the queue. -/
theorem advance_refines (hinv : t.Inv) {action : Monitor.Action Party QueueProc}
    (hcall : ∀ party c, action = .call party c → ∃ now, t.daemon.queueCall now party = some c)
    (h : t.advance cfg action = some (t', obs)) :
    (∃ actions, t.daemon.run cfg actions = some (t'.daemon, obs)) ∧ t'.Inv := by
  obtain ⟨⟨m, seen⟩, hstep, heq⟩ := Option.map_eq_some_iff.mp h
  have hmove := Monitor.step_move hstep
  obtain ⟨hfits, hstarts⟩ := queueCode_fits.move hinv.sections hinv.fits hmove
  rcases hinv.sections.move hmove with ⟨rfl, hsame⟩ | ⟨v, rfl, hsection, hnext⟩
  · -- in the middle of a section, or outside: the daemon does not move
    cases heq
    refine ⟨⟨[], rfl⟩, hsame, hfits, fun party c hc => ?_⟩
    rcases hmove.current party with hkeep | ⟨c', rfl, hc'⟩ | ⟨⟨v, hv, -⟩, -⟩
    · exact hinv.calls party c (hkeep ▸ hc)
    · cases hc'.symm.trans hc
      exact hcall party c rfl
    · cases hv
  · obtain ⟨hv, hreturned⟩ := hmove.visits v (List.mem_singleton_self v)
    obtain ⟨now, hnow⟩ := hinv.calls v.thread v.call hv
    obtain ⟨actions, hrun⟩ : ∃ actions, t.daemon.run cfg actions =
        some (t.daemon.leave cfg m.shared [v]) :=
      leave_refines hnow (hstarts v (List.mem_singleton_self v)) hsection
    obtain ⟨hqueue, hframe⟩ := leave_frame cfg t.daemon m.shared v
    cases heq
    refine ⟨⟨actions, hrun⟩, ?_, hfits, fun party c hc => ?_⟩
    · change Monitor.Sections queueCode m (t.daemon.leave cfg m.shared [v]).1.queue
      rwa [hqueue]
    · rcases hmove.current party with hkeep | ⟨c', rfl, -⟩ | ⟨-, hnone⟩
      · obtain ⟨now, hpast⟩ := hinv.calls party c (hkeep ▸ hc)
        refine ⟨now, (hframe party (fun hparty result hexit => ?_) now).trans hpast⟩
        -- a thread whose call has returned is in none
        subst hparty
        cases (hreturned result hexit).symm.trans hc
      · cases hmove
      · cases hnone.symm.trans hc

/-- A step outside the queue is a step of the daemon. -/
theorem outside_refines (hinv : t.Inv) {action : Action} {d' : Daemon}
    (hout : t.daemon.isOutside action) (h : t.daemon.step cfg action = some (d', obs)) :
    LockedDaemon.Inv ⟨d', t.monitor⟩ := by
  obtain ⟨hqueue, hother⟩ := outside_step hout h
  refine ⟨?_, hinv.fits, fun party c hc => ?_⟩
  · change Monitor.Sections queueCode t.monitor d'.queue
    rw [hqueue]
    exact hinv.sections
  · obtain ⟨now, hnow⟩ := hinv.calls party c hc
    refine ⟨now, (hother party (fun hparty => ?_) now).trans hnow⟩
    -- the thread that took the step was not in a call
    cases action with
    | signal => cases hparty
    | capture recv now' =>
      obtain rfl : Party.capture = party := Option.some.inj hparty
      simp only [Daemon.isOutside, Action.party, Daemon.queueCall] at hout hnow
      split at hnow <;> simp_all
    | processor input =>
      obtain rfl : Party.main = party := Option.some.inj hparty
      simp only [Daemon.isOutside, Action.party, Daemon.queueCall] at hout hnow
      split at hnow <;> simp_all

theorem LockedDaemon.inv_start (cfg : Config) (ifindex : UInt32) (st : FirewallState) (now : ℤ) :
    (LockedDaemon.start cfg ifindex st now).Inv where
  sections := Monitor.sections_start queueCode pktqueueInit
  fits _ := trivial
  calls _ _ h := by cases h

/-- Every step is a run of the daemon, of one step or none. -/
theorem step_refines (hinv : t.Inv) {action : LockedAction}
    (h : t.step cfg action = some (t', obs)) :
    (∃ actions, t.daemon.run cfg actions = some (t'.daemon, obs)) ∧ t'.Inv := by
  cases action with
  | outside action =>
    simp only [LockedDaemon.step, Option.ite_none_right_eq_some] at h
    obtain ⟨hout, h⟩ := h
    obtain ⟨⟨d', obs'⟩, hstep, heq⟩ := Option.map_eq_some_iff.mp h
    cases heq
    exact ⟨⟨[action], by simp [Daemon.run, Machine.run, hstep]⟩, outside_refines hinv hout hstep⟩
  | call party now =>
    obtain ⟨c, hc, hadvance⟩ := Option.bind_eq_some_iff.mp h
    refine advance_refines hinv (fun party' c' heq => ?_) hadvance
    cases heq
    exact ⟨now, hc⟩
  | acquire party => exact advance_refines hinv (fun _ _ heq => by cases heq) h
  | exec party woken => exact advance_refines hinv (fun _ _ heq => by cases heq) h
  | wake party timedOut => exact advance_refines hinv (fun _ _ heq => by cases heq) h

variable {ifindex : UInt32} {st : FirewallState} {now : ℤ} {actions : List LockedAction}

theorem inv_run (h : (LockedDaemon.start cfg ifindex st now).run cfg actions = some (t, obs)) :
    t.Inv ∧
      ∃ actions, (Daemon.start cfg ifindex st now).run cfg actions = some (t.daemon, obs) := by
  obtain ⟨actions', d, hrun, rfl, hinv⟩ := Machine.exists_run_of_simulation
    (R := fun d t => d = t.daemon ∧ LockedDaemon.Inv t)
    (by
      rintro d t action t' obs ⟨rfl, hinv⟩ hstep
      obtain ⟨⟨actions, hrun⟩, hinv'⟩ := step_refines hinv hstep
      exact ⟨actions, t'.daemon, hrun, rfl, hinv'⟩)
    (t := LockedDaemon.start cfg ifindex st now) ⟨rfl, LockedDaemon.inv_start ..⟩ h
  exact ⟨hinv, actions', hrun⟩

/-- **The atomic daemon is the daemon.** Let the two threads run the queue's functions
statement by statement under its lock, in any interleaving with each other and with
everything else the threads do, with wake-ups and timeouts at any moment. What can be seen
of it is what can be seen of a run of the model in which each queue operation is one step,
and whenever nobody holds the lock the statics are the queue of that model. -/
theorem locked_refines
    (h : (LockedDaemon.start cfg ifindex st now).run cfg actions = some (t, obs)) :
    (∃ actions, (Daemon.start cfg ifindex st now).run cfg actions = some (t.daemon, obs)) ∧
      (t.monitor.holder = none → t.monitor.shared = t.daemon.queue) := by
  obtain ⟨hinv, hrun⟩ := inv_run h
  exact ⟨hrun, hinv.sections.free⟩

/-- The daemon on the default configuration, with an empty ruleset at start-up. -/
def LockedDaemon.startDefault : LockedDaemon :=
  .start .default 0 (firewallStart .default true (fun _ => none) .empty).1 0

/-- The main thread goes to sleep in `pktqueue_wait`. -/
def mainSleeps : List LockedAction :=
  [.outside (processAt 0), .call .main 0, .acquire .main, .exec .main none]

/-- A knock arrives and wakes it. -/
def knockWakes (ip : UInt32) (port : UInt16) : List LockedAction :=
  mainSleeps ++
    [.outside (.capture .again 0), .outside (.capture (.frame (udpFrame ip port)) 0),
      .call .capture 0, .acquire .capture, .exec .capture none, .exec .capture none,
      .exec .capture none, .exec .capture none, .exec .capture (some .main), .exec .capture none,
      .acquire .main, .exec .main none, .exec .main none, .exec .main none, .exec .main none,
      .exec .main none, .exec .main none]

theorem knockWakes_taken :
    (LockedDaemon.startDefault.run .default (knockWakes 10 7000)).map (fun out =>
      (out.1.monitor.holder, out.1.daemon.queue.count, out.1.daemon.processor.inHand)) =
        some (none, 0, some ⟨10, 7000⟩) := by
  decide +kernel

theorem locked_refines_knockWakes : ∃ t obs,
    LockedDaemon.startDefault.run .default (knockWakes 10 7000) = some (t, obs) ∧
      t.daemon.processor.inHand = some ⟨10, 7000⟩ ∧
      (∃ actions, Daemon.startDefault.run .default actions = some (t.daemon, obs)) ∧
      (t.monitor.holder = none → t.monitor.shared = t.daemon.queue) := by
  obtain ⟨⟨t, obs⟩, hrun, hseen⟩ := Option.map_eq_some_iff.mp knockWakes_taken
  simp only [Prod.mk.injEq] at hseen
  exact ⟨t, obs, hrun, hseen.2.2, locked_refines hrun⟩

end Refinement

/-! ### Nobody is forgotten -/

section Progress

variable {cfg : Config} {t t' : LockedDaemon} {obs : List Obs} {now : ℤ}

/-- Where a sleeper of the queue goes on. -/
abbrev Resumes (pc : QueuePc) : Prop := pc = .waitLoop ∨ pc = .takeAny

/-- What is needed for progress: the refinement, woken readers for the queued events, and
the shutdown behind a capture thread that has stopped. -/
structure LockedDaemon.Live (t : LockedDaemon) : Prop extends t.Inv where
  covered : Monitor.Covered Resumes QueueCovered t.monitor
  stopped : t.daemon.capture = .stopped → t.daemon.queue.shuttingDown = true

theorem step_covered (hinv : t.Inv) (hcovered : Monitor.Covered Resumes QueueCovered t.monitor)
    {action : LockedAction} (h : t.step cfg action = some (t', obs)) :
    Monitor.Covered Resumes QueueCovered t'.monitor := by
  have hadvance : ∀ action, t.advance cfg action = some (t', obs) →
      Monitor.Covered Resumes QueueCovered t'.monitor := by
    intro action h
    obtain ⟨⟨m, seen⟩, hstep, heq⟩ := Option.map_eq_some_iff.mp h
    cases heq
    exact queueCode_covers.move hinv.sections hcovered (Monitor.step_move hstep)
  cases action with
  | outside action =>
    simp only [LockedDaemon.step, Option.ite_none_right_eq_some] at h
    obtain ⟨out, -, heq⟩ := Option.map_eq_some_iff.mp h.2
    cases heq
    exact hcovered
  | call party now =>
    obtain ⟨c, -, hcall⟩ := Option.bind_eq_some_iff.mp h
    exact hadvance _ hcall
  | acquire party => exact hadvance _ h
  | exec party woken => exact hadvance _ h
  | wake party timedOut => exact hadvance _ h

theorem step_live (hlive : t.Live) {action : LockedAction}
    (h : t.step cfg action = some (t', obs)) : t'.Live := by
  obtain ⟨⟨actions, hrun⟩, hinv⟩ := step_refines hlive.toInv h
  refine ⟨hinv, step_covered hlive.toInv hlive.covered h, ?_⟩
  exact Machine.state_invariant_of_run
    (P := fun d => d.capture = .stopped → d.queue.shuttingDown = true)
    (fun _ _ _ _ hstopped hstep => shuttingDown_step hstopped hstep) hlive.stopped hrun

theorem live_run {ifindex : UInt32} {st : FirewallState} {actions : List LockedAction}
    (h : (LockedDaemon.start cfg ifindex st now).run cfg actions = some (t, obs)) : t.Live :=
  Machine.state_invariant_of_run (fun _ _ _ _ hlive hstep => step_live hlive hstep)
    ⟨LockedDaemon.inv_start .., Monitor.covered_start pktqueueInit, fun hpc => by cases hpc⟩ h

/-- The capture thread never sleeps in the queue, nor wakes there. -/
theorem capture_awake (hlive : t.Live) :
    (t.monitor.threads .capture).isAsleep = false ∧
      (t.monitor.threads .capture).isWaking = false := by
  have hresumes := hlive.covered.resumes .capture
  have hfits := hlive.fits .capture
  have hcalls := hlive.calls .capture
  -- neither a push nor the shutdown takes the lock where a sleeper goes on
  have hnot : ∀ c pc, (∃ now, t.daemon.queueCall now .capture = some c) → c.Starts pc →
      ¬ Resumes pc := by
    rintro c pc ⟨now, hcall⟩ hstart hresume
    simp only [Daemon.queueCall] at hcall
    split at hcall
    · cases hcall
      rcases hresume with rfl | rfl <;> cases hstart
    · cases hcall
      rcases hresume with rfl | rfl <;> cases hstart
    · cases hcall
  cases hthread : t.monitor.threads .capture with
  | asleep c w timedOut =>
    rw [hthread] at hresumes hfits hcalls
    exact absurd hresumes.1 (hnot c w (hcalls c rfl) hfits.1)
  | waking c pc =>
    rw [hthread] at hresumes hfits hcalls
    exact absurd hresumes (hnot c pc (hcalls c rfl) hfits)
  | _ => exact ⟨rfl, rfl⟩

theorem waking_of_asleep (hlive : t.Live) (hasleep : (t.monitor.threads .main).isAsleep) :
    t.monitor.waking = 0 := by
  have hmain : (t.monitor.threads .main).isWaking = false := by
    cases hthread : t.monitor.threads .main with
    | waking c pc =>
      rw [hthread] at hasleep
      cases hasleep
    | _ => rfl
  refine Finset.sum_eq_zero fun party _ => ?_
  cases party with
  | capture => rw [(capture_awake hlive).2]; rfl
  | main => rw [hmain]; rfl

theorem asleep_idle (hlive : t.Live) (hfree : t.monitor.holder = none)
    (hasleep : (t.monitor.threads .main).isAsleep) :
    t.monitor.shared.shuttingDown = false ∧ t.monitor.shared.count = 0 := by
  have hcovered := hlive.covered.covered .main hasleep
  have hplace : t.monitor.place = none := by simp [Monitor.State.place, hfree]
  rw [hplace, waking_of_asleep hlive hasleep] at hcovered
  exact ⟨hcovered.1, Nat.le_zero.mp hcovered.2⟩

theorem running_of_asleep (hlive : t.Live) (hfree : t.monitor.holder = none)
    (hasleep : (t.monitor.threads .main).isAsleep) : t.daemon.capture ≠ .stopped := by
  intro hstopped
  have hset := hlive.stopped hstopped
  rw [← hlive.sections.free hfree, (asleep_idle hlive hfree hasleep).1] at hset
  cases hset

/-- **The main thread does not sleep on a knock.** While it sleeps in `pktqueue_wait` and
nobody holds the lock, the queue is empty and not shutting down, and the capture thread is
still running. -/
theorem locked_main_wakes {ifindex : UInt32} {st : FirewallState} {actions : List LockedAction}
    (h : (LockedDaemon.start cfg ifindex st now).run cfg actions = some (t, obs))
    (hfree : t.monitor.holder = none) (hasleep : (t.monitor.threads .main).isAsleep) :
    t.monitor.shared.events = [] ∧ t.monitor.shared.shuttingDown = false ∧
      t.daemon.capture ≠ .stopped := by
  have hlive := live_run h
  obtain ⟨hflag, hcount⟩ := asleep_idle hlive hfree hasleep
  exact ⟨PacketQueue.events_eq_nil_iff.mpr hcount, hflag, running_of_asleep hlive hfree hasleep⟩

theorem mainSleeps_asleep :
    (LockedDaemon.startDefault.run .default mainSleeps).map (fun out =>
      (out.1.monitor.holder, (out.1.monitor.threads .main).isAsleep,
        out.1.daemon.processor.inHand)) = some (none, true, none) := by
  decide +kernel

theorem locked_main_wakes_mainSleeps : ∃ t obs,
    LockedDaemon.startDefault.run .default mainSleeps = some (t, obs) ∧
      (t.monitor.threads .main).isAsleep ∧ t.monitor.shared.events = [] ∧
      t.monitor.shared.shuttingDown = false ∧ t.daemon.capture ≠ .stopped := by
  obtain ⟨⟨t, obs⟩, hrun, hseen⟩ := Option.map_eq_some_iff.mp mainSleeps_asleep
  simp only [Prod.mk.injEq] at hseen
  exact ⟨t, obs, hrun, hseen.2.1, locked_main_wakes hrun hseen.1 hseen.2.1⟩

/-- The thread can go on without being woken from the queue. -/
def LockedDaemon.CanGoOn (cfg : Config) (t : LockedDaemon) (party : Party) : Prop :=
  (∃ action, action.party.map Prod.fst = some party ∧ (t.step cfg (.outside action)).isSome) ∨
    (∃ now, (t.step cfg (.call party now)).isSome) ∨ (t.step cfg (.acquire party)).isSome ∨
      ∃ woken, (t.step cfg (.exec party woken)).isSome

theorem isSome_advance (t : LockedDaemon) (action : Monitor.Action Party QueueProc) :
    (t.advance cfg action).isSome = (Monitor.step queueCode t.monitor action).isSome :=
  Option.isSome_map

/-- A thread that makes a call, or waits for a lock that is free, can go on. -/
theorem canGoOn_of_free (hfree : t.monitor.holder = none) {party : Party}
    (hasleep : (t.monitor.threads party).isAsleep = false)
    (hinside : (t.monitor.threads party).isInside = false)
    (houtside : t.monitor.threads party = .outside → (∀ now, t.daemon.queueCall now party = none) →
      ∃ action, action.party.map Prod.fst = some party ∧ (t.step cfg (.outside action)).isSome) :
    t.CanGoOn cfg party := by
  cases hthread : t.monitor.threads party with
  | outside =>
    by_cases hcall : ∃ now c, t.daemon.queueCall now party = some c
    · obtain ⟨now, c, hc⟩ := hcall
      refine .inr (.inl ⟨now, ?_⟩)
      rw [LockedDaemon.step, hc, Option.bind_some, isSome_advance]
      simp [Monitor.step, hthread]
    · refine .inl (houtside hthread fun now => ?_)
      cases hc : t.daemon.queueCall now party with
      | none => rfl
      | some c => exact absurd ⟨now, c, hc⟩ hcall
  | entering c =>
    refine .inr (.inr (.inl ?_))
    rw [LockedDaemon.step, isSome_advance]
    simp [Monitor.step, hfree, hthread]
  | waking c pc =>
    refine .inr (.inr (.inl ?_))
    rw [LockedDaemon.step, isSome_advance]
    simp [Monitor.step, hfree, hthread]
  | inside c start pc =>
    rw [hthread] at hinside
    cases hinside
  | asleep c w timedOut =>
    rw [hthread] at hasleep
    cases hasleep

/-- A capture thread that is outside the queue and has not stopped makes its next step. -/
theorem capture_outside (hstopped : t.daemon.capture ≠ .stopped)
    (hcall : ∀ now, t.daemon.queueCall now .capture = none) :
    ∃ action, action.party.map Prod.fst = some .capture ∧
      (t.step cfg (.outside action)).isSome := by
  refine ⟨.capture .again 0, rfl, ?_⟩
  have hout : t.daemon.isOutside (.capture .again 0) := by
    simp [Daemon.isOutside, Action.party, hcall]
  have hnone := hcall 0
  simp only [Daemon.queueCall] at hnone
  simp only [LockedDaemon.step, if_pos hout, Option.isSome_map, Daemon.step, captureStep]
  cases hpc : t.daemon.capture with
  | check => rfl
  | receive => rfl
  | push event arrival => simp [hpc] at hnone
  | leaving => simp [hpc] at hnone
  | stopped => exact absurd hpc hstopped

/-- A main thread that is outside the queue, and not done, makes its next step; in
`pthread_join` the other thread must have stopped. -/
theorem main_outside (hdone : t.daemon.processor ≠ .done)
    (hjoin : t.daemon.processor = .join → t.daemon.capture = .stopped)
    (hcall : ∀ now, t.daemon.queueCall now .main = none) :
    ∃ action, action.party.map Prod.fst = some .main ∧
      (t.step cfg (.outside action)).isSome := by
  refine ⟨.processor ⟨0, 0, false, none⟩, rfl, ?_⟩
  have hout : t.daemon.isOutside (.processor ⟨0, 0, false, none⟩) := by
    simp [Daemon.isOutside, Action.party, hcall]
  have hnone := hcall 0
  simp only [Daemon.queueCall] at hnone
  simp only [LockedDaemon.step, if_pos hout, Option.isSome_map, Daemon.step, processorStep]
  cases hpc : t.daemon.processor with
  | wait => simp [hpc] at hnone
  | drain => simp [hpc] at hnone
  | cleanup => simp [hpc] at hnone
  | done => exact absurd hpc hdone
  | join => simp [hjoin hpc]
  | handle event => simp only; split <;> rfl
  | sweep => simp only; split <;> rfl
  | _ => rfl

/-- **No deadlock.** Until it is done, the main thread can go on, and not because it is
woken from the queue or its time there is up; or it waits for the capture thread, which can
go on: because that thread has the lock, because there is nothing queued and it sleeps, or
to join it. -/
theorem locked_progress {ifindex : UInt32} {st : FirewallState} {actions : List LockedAction}
    (h : (LockedDaemon.start cfg ifindex st now).run cfg actions = some (t, obs))
    (hdone : t.daemon.processor ≠ .done) :
    t.CanGoOn cfg .main ∨ t.CanGoOn cfg .capture ∧
      (t.monitor.holder = some .capture ∨ (t.monitor.threads .main).isAsleep ∨
        t.daemon.processor = .join) := by
  have hlive := live_run h
  have hexec : ∀ party, t.monitor.holder = some party → t.CanGoOn cfg party := by
    intro party hholder
    obtain ⟨c, start, pc, hthread, -⟩ := hlive.sections.held party hholder
    obtain ⟨woken, hexec⟩ :
        ∃ woken, (Monitor.step queueCode t.monitor (.exec party woken)).isSome :=
      Monitor.exists_exec hthread
    refine .inr (.inr (.inr ⟨woken, ?_⟩))
    rwa [LockedDaemon.step, isSome_advance]
  cases hholder : t.monitor.holder with
  | some party =>
    cases party with
    | capture => exact .inr ⟨hexec _ hholder, .inl rfl⟩
    | main => exact .inl (hexec _ hholder)
  | none =>
    have hinside : ∀ party, (t.monitor.threads party).isInside = false := by
      intro party
      cases hthread : t.monitor.threads party with
      | inside c start pc =>
        cases hholder.symm.trans (hlive.sections.alone party c start pc hthread)
      | _ => rfl
    have hcapture : t.daemon.capture ≠ .stopped → t.CanGoOn cfg .capture := fun hrunning =>
      canGoOn_of_free hholder (capture_awake hlive).1 (hinside .capture)
        fun _ => capture_outside hrunning
    by_cases hasleep : (t.monitor.threads .main).isAsleep
    · exact .inr ⟨hcapture (running_of_asleep hlive hholder hasleep), .inr (.inl hasleep)⟩
    · by_cases hjoin : t.daemon.processor = .join → t.daemon.capture = .stopped
      · exact .inl (canGoOn_of_free hholder (by simpa using hasleep) (hinside .main)
          fun _ => main_outside hdone hjoin)
      · obtain ⟨hpc, hrunning⟩ : t.daemon.processor = .join ∧ t.daemon.capture ≠ .stopped := by
          simpa using hjoin
        exact .inr ⟨hcapture hrunning, .inr (.inr hpc)⟩

theorem mainSleeps_notDone :
    (LockedDaemon.startDefault.run .default mainSleeps).map (fun out =>
      match out.1.daemon.processor with
      | .done => true
      | _ => false) = some false := by
  decide +kernel

theorem locked_progress_mainSleeps : ∃ t obs,
    LockedDaemon.startDefault.run .default mainSleeps = some (t, obs) ∧
      (t.CanGoOn .default .main ∨ t.CanGoOn .default .capture ∧
        (t.monitor.holder = some .capture ∨ (t.monitor.threads .main).isAsleep ∨
          t.daemon.processor = .join)) := by
  obtain ⟨⟨t, obs⟩, hrun, hseen⟩ := Option.map_eq_some_iff.mp mainSleeps_notDone
  refine ⟨t, obs, hrun, locked_progress hrun fun hdone => ?_⟩
  simp only [hdone] at hseen
  cases hseen

end Progress

end Knockd
