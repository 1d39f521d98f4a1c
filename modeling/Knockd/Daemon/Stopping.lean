import Knockd.Daemon.Flow

/-!
# Stopping the capture thread

The flag `g_running` is tested by the outer loop of the capture thread, and
`sniffer_next_knock` has a loop of its own that only a knock, a timeout or an error of
the socket ends. A thread that is not inside `recvfrom` when the flag falls makes no
further call. One that is inside goes on for as long as the frames it gets are no
knocks, so how late it leaves is decided by the traffic and by nothing else.

Once the capture thread is gone, nothing holds up the main thread: it empties the queue,
ticks, joins and reaches `firewall_shutdown`, whatever the clock and the firewall do.

## Main definitions

* `Uninteresting` — a result of `recvfrom` after which it is called again
* `StopsWithin` — what stopping in time means for a bound and a stream of results
* `CapturePc.stepsLeft`, `CapturePc.recvLeft` — what the thread has still to do

## Main results

* `shutdown_inevitable` — after the capture thread has stopped, the firewall is shut down
* `stopsWithin_iff` — the thread stops in time exactly if the traffic lets it
* `not_stopsWithin_outgoing` — the host's own traffic can keep it from ever stopping
-/

namespace Knockd

open Machine (Inevitable)

/-! ### What is asked of the capture thread -/

/-- A result of `recvfrom` after which `sniffer_next_knock` calls it again. -/
def Uninteresting (cfg : Config) (ifindex : UInt32) : Recv → Prop
  | .frame f => knockOf cfg ifindex f = none
  | _ => False

/-- The results of the calls of `recvfrom`, in order. -/
def recvResults : List Obs → List Recv :=
  List.filterMap fun
    | .received r _ => some r
    | _ => none

/-- The results are those a stream provides. -/
def Follows (s : ℕ → Recv) (results : List Recv) : Prop :=
  ∀ i r, results[i]? = some r → r = s i

/-- How many of the actions are steps of the capture thread. -/
def captureSteps (actions : List Action) : ℕ :=
  actions.countP fun
    | .capture _ _ => true
    | _ => false

/-- The main thread is in `firewall_shutdown` or past it. -/
def ReachedShutdown (d : Daemon) : Prop :=
  (∃ p, d.processor = .shutdown p) ∨ d.processor = .done

/-- Stopping in time: however the threads are scheduled, while `recvfrom` returns what
the stream provides, it is called at most `bound` more times; with three more steps the
capture thread is done; and then the main thread gets to `firewall_shutdown`. -/
def StopsWithin (cfg : Config) (bound : ℕ) (s : ℕ → Recv) (d : Daemon) : Prop :=
  ∀ actions d' seen, d.run cfg actions = some (d', seen) → Follows s (recvResults seen) →
    (recvResults seen).length ≤ bound ∧
      (bound + 3 ≤ captureSteps actions → d'.capture = .stopped) ∧
      (d'.capture = .stopped →
        Inevitable (fun d input => processorStep cfg input d) ReachedShutdown d')

section Results

variable {s : ℕ → Recv} {r : Recv} {results : List Recv}

theorem follows_cons : Follows s (r :: results) ↔ r = s 0 ∧ Follows (fun i => s (i + 1)) results := by
  constructor
  · intro h
    exact ⟨h 0 r rfl, fun i r' hr' => h (i + 1) r' hr'⟩
  · rintro ⟨hfirst, hrest⟩ i r' hr'
    cases i with
    | zero =>
      cases hr'
      exact hfirst
    | succ i => exact hrest i r' hr'

theorem recvResults_append (l l' : List Obs) :
    recvResults (l ++ l') = recvResults l ++ recvResults l' := List.filterMap_append

end Results

/-! ### The main thread gets to the end -/

/-- The flag has fallen and the capture thread is gone. -/
structure Halted (d : Daemon) : Prop where
  running : d.running = false
  capture : d.capture = .stopped
  shuttingDown : d.queue.shuttingDown = true

/-- The main thread gets to `firewall_shutdown` by itself. -/
abbrev ShutsDown (cfg : Config) (d : Daemon) : Prop :=
  Inevitable (fun d input => processorStep cfg input d) ReachedShutdown d

section MainThread

variable {cfg : Config} {d : Daemon}

/-- A firewall call is finite: where its end leads to the shutdown, so does the call. -/
theorem shutsDown_advance {α : Type} (pending : FirewallProg α → ProcessorPc)
    {finish : Daemon → α → Daemon × List Obs} {q : PacketQueue}
    (hpc : ∀ p d input, d.processor = pending p →
      processorStep cfg input d = some (d.advance input.fault p pending (finish d)))
    (hfinish : ∀ d a, Halted d → d.queue = q → ShutsDown cfg (finish d a).1)
    (p : FirewallProg α) (hd : Halted d) (hq : d.queue = q) (hproc : d.processor = pending p) :
    ShutsDown cfg d := by
  induction p generalizing d with
  | ret a => exact .of_step fun input => ⟨_, _, hpc _ _ input hproc, hfinish d a hd hq⟩
  | call c k ih =>
    refine .of_step fun input => ⟨_, _, hpc _ _ input hproc, ?_⟩
    exact ih _ ⟨hd.running, hd.capture, hd.shuttingDown⟩ hq rfl
  | tell lines p ih =>
    refine .of_step fun input => ⟨_, _, hpc _ _ input hproc, ?_⟩
    exact ih ⟨hd.running, hd.capture, hd.shuttingDown⟩ hq rfl

theorem shutsDown_join (hd : Halted d) (hpc : d.processor = .join) : ShutsDown cfg d := by
  refine .of_step fun input => ?_
  simp only [processorStep, hpc, hd.capture, if_true]
  exact ⟨_, _, rfl, .here (Or.inl ⟨_, rfl⟩)⟩

theorem shutsDown_check (hd : Halted d) (hpc : d.processor = .check) : ShutsDown cfg d := by
  have hcleanup : ∀ input, processorStep cfg input d =
      some ({ d with processor := .cleanup }, []) := by
    simp [processorStep, hpc, hd.running]
  refine .of_step fun input => ⟨_, _, hcleanup input, .of_step fun input => ⟨_, _, rfl, ?_⟩⟩
  exact shutsDown_join ⟨rfl, hd.capture, rfl⟩ rfl

theorem shutsDown_sweep (hd : Halted d) (hpc : d.processor = .sweep) : ShutsDown cfg d := by
  refine .of_step fun input => ?_
  simp only [processorStep, hpc]
  split
  · exact ⟨_, _, rfl, shutsDown_check ⟨hd.running, hd.capture, hd.shuttingDown⟩ rfl⟩
  · exact ⟨_, _, rfl, shutsDown_check ⟨hd.running, hd.capture, hd.shuttingDown⟩ rfl⟩

theorem shutsDown_ticking {p : FirewallProg Firewall} (hd : Halted d)
    (hpc : d.processor = .ticking p) : ShutsDown cfg d := by
  refine shutsDown_advance .ticking (fun p d input hproc => by simp only [processorStep, hproc]; rfl)
    (fun d fw hd _ => ?_) p hd rfl hpc
  exact shutsDown_sweep ⟨hd.running, hd.capture, hd.shuttingDown⟩ rfl

theorem shutsDown_tick (hd : Halted d) (hpc : d.processor = .tick) : ShutsDown cfg d := by
  refine .of_step fun input => ?_
  simp only [processorStep, hpc]
  exact ⟨_, _, rfl, shutsDown_ticking ⟨hd.running, hd.capture, hd.shuttingDown⟩ rfl⟩

theorem shutsDown_opening {ip : UInt32} {p : FirewallProg (Firewall × ℤ)} (hd : Halted d)
    (hpc : d.processor = .opening ip p)
    (hdrain : ∀ d', Halted d' → d'.queue = d.queue → d'.processor = .drain → ShutsDown cfg d') :
    ShutsDown cfg d := by
  refine shutsDown_advance (.opening ip)
    (fun p d input hproc => by simp only [processorStep, hproc]; rfl) (fun d' out hd' hq => ?_) p
    hd rfl hpc
  exact hdrain _ ⟨hd'.running, hd'.capture, hd'.shuttingDown⟩ hq rfl

theorem shutsDown_grant {ip : UInt32} (hd : Halted d) (hpc : d.processor = .grant ip)
    (hdrain : ∀ d', Halted d' → d'.queue = d.queue → d'.processor = .drain → ShutsDown cfg d') :
    ShutsDown cfg d := by
  refine .of_step fun input => ?_
  simp only [processorStep, hpc]
  exact ⟨_, _, rfl, shutsDown_opening ⟨hd.running, hd.capture, hd.shuttingDown⟩ rfl hdrain⟩

/-- A knock in hand is handled, and the firewall opened if need be, before the main thread
looks into the queue again. -/
theorem shutsDown_handle {event : KnockEvent} (hd : Halted d) (hpc : d.processor = .handle event)
    (hdrain : ∀ d', Halted d' → d'.queue = d.queue → d'.processor = .drain → ShutsDown cfg d') :
    ShutsDown cfg d := by
  refine .of_step fun input => ?_
  simp only [processorStep, hpc]
  split
  · exact ⟨_, _, rfl, shutsDown_grant ⟨hd.running, hd.capture, hd.shuttingDown⟩ rfl hdrain⟩
  · exact ⟨_, _, rfl, hdrain _ ⟨hd.running, hd.capture, hd.shuttingDown⟩ rfl rfl⟩

/-- What a reader gets, and that there is less to read afterwards. -/
theorem dequeue_cases (q : PacketQueue) :
    dequeue q = (none, q) ∨ ∃ event q', dequeue q = (some event, q') ∧
      q'.count + 1 = q.count ∧ q'.shuttingDown = q.shuttingDown := by
  unfold dequeue
  split
  · exact Or.inr ⟨_, _, rfl, Nat.sub_add_cancel ‹_›, rfl⟩
  · exact Or.inl rfl

theorem shutsDown_drain (hd : Halted d) (hpc : d.processor = .drain) : ShutsDown cfg d := by
  -- every round takes one knock off a queue that nobody fills any more
  induction hcount : d.queue.count using Nat.strong_induction_on generalizing d with
  | _ n ih =>
    refine .of_step fun input => ?_
    simp only [processorStep, hpc, pktqueuePop]
    rcases dequeue_cases d.queue with hnone | ⟨event, q', hsome, hless, hshut⟩
    · rw [hnone]
      exact ⟨_, _, rfl, shutsDown_tick ⟨hd.running, hd.capture, hd.shuttingDown⟩ rfl⟩
    · rw [hsome]
      refine ⟨_, _, rfl, ?_⟩
      refine shutsDown_handle ⟨hd.running, hd.capture, hshut.trans hd.shuttingDown⟩ rfl ?_
      intro d' hd' hq hproc
      have hq' : d'.queue = q' := hq
      exact ih d'.queue.count (by rw [hq']; omega) hd' hproc rfl

/-- **The shutdown is reached.** Once the flag has fallen and the capture thread is gone,
the main thread gets to `firewall_shutdown`, wherever it was and whatever the clock and
the firewall do. -/
theorem shutdown_inevitable (hd : Halted d) : ShutsDown cfg d := by
  cases hpc : d.processor with
  | check => exact shutsDown_check hd hpc
  | wait =>
    refine .of_step fun input => ?_
    -- a queue that is shutting down keeps nobody waiting
    simp only [processorStep, hpc, pktqueueWait, hd.shuttingDown, Bool.true_eq_false, false_and,
      and_false, if_false]
    rcases dequeue_cases d.queue with hnone | ⟨event, q', hsome, -, hshut⟩
    · rw [hnone]
      exact ⟨_, _, rfl, shutsDown_tick ⟨hd.running, hd.capture, hd.shuttingDown⟩ rfl⟩
    · rw [hsome]
      refine ⟨_, _, rfl, ?_⟩
      exact shutsDown_handle ⟨hd.running, hd.capture, hshut.trans hd.shuttingDown⟩ rfl
        fun d' hd' _ hproc => shutsDown_drain hd' hproc
  | handle event => exact shutsDown_handle hd hpc fun d' hd' _ hproc => shutsDown_drain hd' hproc
  | grant ip => exact shutsDown_grant hd hpc fun d' hd' _ hproc => shutsDown_drain hd' hproc
  | opening ip p => exact shutsDown_opening hd hpc fun d' hd' _ hproc => shutsDown_drain hd' hproc
  | drain => exact shutsDown_drain hd hpc
  | tick => exact shutsDown_tick hd hpc
  | ticking p => exact shutsDown_ticking hd hpc
  | sweep => exact shutsDown_sweep hd hpc
  | cleanup =>
    refine .of_step fun input => ?_
    simp only [processorStep, hpc]
    exact ⟨_, _, rfl, shutsDown_join ⟨rfl, hd.capture, rfl⟩ rfl⟩
  | join => exact shutsDown_join hd hpc
  | shutdown p => exact .here (Or.inl ⟨p, hpc⟩)
  | done => exact .here (Or.inr hpc)

end MainThread

/-! ### The capture thread after the flag has fallen -/

/-- What a step leaves alone of what concerns the capture thread: where it is, what it
received, and a flag once fallen. -/
structure CaptureFrame (d d' : Daemon) (obs : List Obs) : Prop where
  capture : d'.capture = d.capture
  ifindex : d'.ifindex = d.ifindex
  running : d.running = false → d'.running = false
  shuttingDown : d.queue.shuttingDown = true → d'.queue.shuttingDown = true
  results : recvResults obs = []

/-- How many steps the thread needs at most when `bound` calls of `recvfrom` are enough to
get out of `sniffer_next_knock`. -/
def CapturePc.stepsLeft (bound : ℕ) : CapturePc → ℕ
  | .check => 2
  | .receive => bound + 3
  | .push _ _ => 3
  | .leaving => 1
  | .stopped => 0

/-- How many of these are calls of `recvfrom`. -/
def CapturePc.recvLeft (bound : ℕ) : CapturePc → ℕ
  | .receive => bound
  | _ => 0

/-- If the thread is inside `recvfrom`, then one of the next `bound` results gets it
out. -/
def Timely (cfg : Config) (bound : ℕ) (s : ℕ → Recv) (d : Daemon) : Prop :=
  d.capture = .receive → ∃ i < bound, ¬ Uninteresting cfg d.ifindex (s i)

section CaptureThread

variable {cfg : Config} {d d' : Daemon} {obs : List Obs} {s : ℕ → Recv} {bound : ℕ}

theorem processorMove_captureFrame {input : ProcessorInput}
    (h : ProcessorMove cfg input d d' obs) : CaptureFrame d d' obs := by
  have hdequeue : ∀ {taken queue}, dequeue d.queue = (taken, queue) →
      d.queue.shuttingDown = true → queue.shuttingDown = true := by
    intro taken queue hout hshut
    rcases dequeue_cases d.queue with hnone | ⟨event, q', hsome, -, hsame⟩
    · cases hnone.symm.trans hout
      exact hshut
    · cases hsome.symm.trans hout
      exact hsame.trans hshut
  cases h with
  | take event queue _ hqueue => exact ⟨rfl, rfl, id, hdequeue hqueue, rfl⟩
  | empty queue _ hqueue => exact ⟨rfl, rfl, id, hdequeue hqueue, rfl⟩
  | cleanup => exact ⟨rfl, rfl, fun _ => rfl, fun _ => rfl, rfl⟩
  | opening => exact ⟨rfl, rfl, id, id, by simp [recvResults]⟩
  | ticking => exact ⟨rfl, rfl, id, id, by simp [recvResults]⟩
  | shutdown => exact ⟨rfl, rfl, id, id, by simp [recvResults]⟩
  | _ => exact ⟨rfl, rfl, id, id, rfl⟩

/-- What a move of the capture thread does to what is left for it, once the flag has
fallen. A move that receives uses up one result of the stream. -/
theorem captureMove_timely {recv : Recv} {now : ℤ} {later : List Recv}
    (hrunning : d.running = false) (htimely : Timely cfg bound s d)
    (h : CaptureMove cfg recv now d d' obs)
    (hfollows : Follows s (recvResults obs ++ later)) :
    d'.running = false ∧ ∃ s' bound', Timely cfg bound' s' d' ∧ Follows s' later ∧
      (recvResults obs).length + d'.capture.recvLeft bound' ≤ d.capture.recvLeft bound ∧
      d'.capture.stepsLeft bound' + 1 ≤ d.capture.stepsLeft bound := by
  -- a result that gets the thread out is one call, and at most three steps are left
  have hends : ∀ r, d.capture = .receive → recvResults obs = [r] → d'.capture ≠ .receive →
      d'.capture.stepsLeft 0 ≤ 3 → ∃ s' bound', Timely cfg bound' s' d' ∧ Follows s' later ∧
        (recvResults obs).length + d'.capture.recvLeft bound' ≤ d.capture.recvLeft bound ∧
        d'.capture.stepsLeft bound' + 1 ≤ d.capture.stepsLeft bound := by
    intro r hpc hresults hpc' hsteps
    obtain ⟨i, hi, -⟩ := htimely hpc
    have hrecv : d'.capture.recvLeft 0 = 0 := by cases d'.capture <;> rfl
    rw [hresults] at hfollows ⊢
    refine ⟨fun i => s (i + 1), 0, fun hrecv => absurd hrecv hpc', (follows_cons.mp hfollows).2,
      ?_, ?_⟩
    · rw [hrecv, hpc]
      exact Nat.one_le_of_lt hi
    · rw [hpc]
      change _ ≤ bound + 3
      omega
  cases h with
  | check hpc =>
    rw [hpc, hrunning]
    exact ⟨rfl, s, bound, fun hrecv => (by cases hrecv), hfollows, le_rfl, le_rfl⟩
  | push event arrival hpc =>
    rw [hpc]
    exact ⟨hrunning, s, bound, fun hrecv => (by cases hrecv), hfollows, le_rfl, le_rfl⟩
  | leave hpc =>
    rw [hpc]
    exact ⟨hrunning, s, bound, fun hrecv => (by cases hrecv), hfollows, le_rfl, le_rfl⟩
  | again hpc => exact ⟨hrunning, hends _ hpc rfl (by simp) (by simp [CapturePc.stepsLeft])⟩
  | failed reason hpc => exact ⟨rfl, hends _ hpc rfl (by simp) (by simp [CapturePc.stepsLeft])⟩
  | knock f event name hpc => exact ⟨hrunning, hends _ hpc rfl (by simp) le_rfl⟩
  | skip f hpc hrecv hknock =>
    obtain ⟨i, hi, hout⟩ := htimely hpc
    obtain ⟨hfirst, hrest⟩ := follows_cons.mp hfollows
    -- the result that gets the thread out is a later one
    cases i with
    | zero =>
      refine absurd ?_ hout
      rw [← hfirst]
      exact hknock
    | succ j =>
      refine ⟨hrunning, fun i => s (i + 1), bound - 1, fun _ => ⟨j, by omega, hout⟩, hrest, ?_, ?_⟩
      · rw [hpc]
        change 1 + (bound - 1) ≤ bound
        omega
      · rw [hpc]
        change bound - 1 + 3 + 1 ≤ bound + 3
        omega

/-- A whole run after the flag has fallen. -/
theorem run_timely {actions : List Action} {seen : List Obs} (hrunning : d.running = false)
    (htimely : Timely cfg bound s d) (h : d.run cfg actions = some (d', seen))
    (hfollows : Follows s (recvResults seen)) :
    (recvResults seen).length ≤ d.capture.recvLeft bound ∧
      (d.capture.stepsLeft bound ≤ captureSteps actions → d'.capture = .stopped) := by
  induction actions generalizing d s bound seen with
  | nil =>
    cases h
    refine ⟨Nat.zero_le _, fun hsteps => ?_⟩
    cases hpc : d'.capture with
    | stopped => rfl
    | _ => simp [hpc, CapturePc.stepsLeft, captureSteps] at hsteps
  | cons action actions ih =>
    obtain ⟨d₁, obs, rest, hstep, hrun, rfl⟩ := Machine.run_cons.mp h
    rw [recvResults_append] at hfollows ⊢
    -- a step of anything but the capture thread leaves it where it is
    have hother : CaptureFrame d d₁ obs → captureSteps (action :: actions) = captureSteps actions →
        (recvResults obs ++ recvResults rest).length ≤ d.capture.recvLeft bound ∧
          (d.capture.stepsLeft bound ≤ captureSteps (action :: actions) →
            d'.capture = .stopped) := by
      intro hframe hsteps
      rw [hframe.results, List.nil_append] at hfollows ⊢
      rw [hsteps, ← hframe.capture]
      refine ih (hframe.running hrunning) (fun hrecv => ?_) hrun hfollows
      rw [hframe.ifindex]
      exact htimely (hframe.capture ▸ hrecv)
    cases action with
    | signal =>
      cases hstep
      exact hother ⟨rfl, rfl, fun _ => rfl, id, rfl⟩ rfl
    | processor input => exact hother (processorMove_captureFrame (processorStep_move hstep)) rfl
    | capture recv now =>
      obtain ⟨hrunning', s', bound', htimely', hfollows', hrecv, hsteps⟩ :=
        captureMove_timely hrunning htimely (captureStep_move hstep) hfollows
      obtain ⟨hcalls, hstopped⟩ := ih hrunning' htimely' hrun hfollows'
      have hone : captureSteps (.capture recv now :: actions) = captureSteps actions + 1 := by
        simp [captureSteps]
      refine ⟨?_, fun hall => hstopped ?_⟩
      · rw [List.length_append]
        omega
      · omega

/-- The thread announces that it stops. -/
theorem shuttingDown_step (hinv : d.capture = .stopped → d.queue.shuttingDown = true)
    {action : Action} (h : d.step cfg action = some (d', obs)) :
    d'.capture = .stopped → d'.queue.shuttingDown = true := by
  cases action with
  | signal =>
    cases h
    exact hinv
  | processor input =>
    have hframe := processorMove_captureFrame (processorStep_move h)
    intro hstopped
    exact hframe.shuttingDown (hinv (hframe.capture ▸ hstopped))
  | capture recv now =>
    intro hstopped
    cases captureStep_move h with
    | check => cases hrun : d.running <;> simp [hrun] at hstopped
    | skip f hpc => cases hpc.symm.trans hstopped
    | leave => rfl
    | _ => cases hstopped

theorem running_step (hrunning : d.running = false) {action : Action}
    (h : d.step cfg action = some (d', obs)) : d'.running = false := by
  cases action with
  | signal =>
    cases h
    rfl
  | processor input => exact (processorMove_captureFrame (processorStep_move h)).running hrunning
  | capture recv now =>
    cases captureStep_move h with
    | failed => rfl
    | _ => exact hrunning

end CaptureThread

theorem DaemonRun.shuttingDown (r : DaemonRun) :
    r.final.capture = .stopped → r.final.queue.shuttingDown = true := by
  refine Machine.state_invariant_of_run
    (P := fun d => d.capture = .stopped → d.queue.shuttingDown = true)
    (fun _ _ _ _ hinv h => shuttingDown_step hinv h) ?_ r.runs
  intro hstopped
  cases hstopped

/-! ### Uninteresting traffic -/

section Traffic

variable {cfg : Config} {d : Daemon} {s : ℕ → Recv}

/-- Results of which none gets the thread out leave it where it is. -/
theorem run_uninteresting (hpc : d.capture = .receive) (n : ℕ)
    (hall : ∀ i < n, Uninteresting cfg d.ifindex (s i)) :
    ∃ seen, d.run cfg ((List.range n).map fun i => .capture (s i) 0) = some (d, seen) ∧
      recvResults seen = (List.range n).map s := by
  induction n with
  | zero => exact ⟨[], rfl, rfl⟩
  | succ n ih =>
    obtain ⟨seen, hrun, hresults⟩ := ih fun i hi => hall i (Nat.lt_succ_of_lt hi)
    have hskip : d.step cfg (.capture (s n) 0) =
        some (d, [.received (s n) 0, .logged (snifferTurn cfg d.ifindex (s n)).2]) := by
      have hlast := hall n (Nat.lt_succ_self n)
      cases hrecv : s n with
      | frame f =>
        rw [hrecv] at hlast
        have hknock : knockOf cfg d.ifindex f = none := hlast
        simp [Daemon.step, captureStep, hpc, snifferTurn, hknock]
      | again => rw [hrecv] at hlast; cases hlast
      | failed reason => rw [hrecv] at hlast; cases hlast
    refine ⟨seen ++ [.received (s n) 0, .logged (snifferTurn cfg d.ifindex (s n)).2], ?_, ?_⟩
    · rw [List.range_succ, List.map_append]
      exact Machine.run_append hrun (Machine.run_cons.mpr ⟨_, _, _, hskip, Machine.run_nil, rfl⟩)
    · rw [recvResults_append, hresults, List.range_succ, List.map_append]
      rfl

theorem follows_range (s : ℕ → Recv) (n : ℕ) : Follows s ((List.range n).map s) := by
  intro i r hr
  have hi : i < n := by
    obtain ⟨hi, -⟩ := List.getElem?_eq_some_iff.mp hr
    simpa using hi
  rw [List.getElem?_map, List.getElem?_range hi] at hr
  exact (Option.some.inj hr).symm

/-- A thread inside `recvfrom` receives once more, whatever that leads to. -/
theorem captureStep_receive (hpc : d.capture = .receive) (recv : Recv) (now : ℤ) :
    ∃ d' obs, d.step cfg (.capture recv now) = some (d', obs) ∧ recvResults obs = [recv] := by
  simp only [Daemon.step, captureStep, hpc]
  split
  all_goals exact ⟨_, _, rfl, rfl⟩

/-- Where none of the next `bound` results gets the thread out, it is late. -/
theorem not_stopsWithin {bound : ℕ} (hpc : d.capture = .receive)
    (hall : ∀ i < bound, Uninteresting cfg d.ifindex (s i)) : ¬ StopsWithin cfg bound s d := by
  intro hstops
  obtain ⟨seen, hrun, hresults⟩ := run_uninteresting hpc bound hall
  obtain ⟨d', obs, hstep, hlast⟩ := captureStep_receive hpc (s bound) 0
  have hmore := Machine.run_append hrun
    (Machine.run_cons.mpr ⟨d', obs, [], hstep, Machine.run_nil, (List.append_nil _).symm⟩)
  have hcalls : recvResults (seen ++ obs) = (List.range (bound + 1)).map s := by
    rw [recvResults_append, hresults, hlast, List.range_succ, List.map_append]
    rfl
  obtain ⟨hle, -⟩ := hstops _ _ _ hmore (hcalls ▸ follows_range s (bound + 1))
  rw [hcalls, List.length_map, List.length_range] at hle
  omega

end Traffic

/-- **When the capture thread stops in time.** After the flag has fallen, the thread
leaves within `bound` calls of `recvfrom`, and the shutdown is reached, if and only if it
is not inside `sniffer_next_knock` or one of the next `bound` results is a knock, a
timeout or an error. -/
theorem stopsWithin_iff (r : DaemonRun) (hstopping : r.final.running = false) (bound : ℕ)
    (s : ℕ → Recv) :
    StopsWithin r.cfg bound s r.final ↔
      (r.final.capture = .receive →
        ∃ i < bound, ¬ Uninteresting r.cfg r.final.ifindex (s i)) := by
  constructor
  · intro hstops hpc
    by_contra hnone
    push Not at hnone
    exact not_stopsWithin hpc hnone hstops
  · intro htimely actions d seen hrun hfollows
    obtain ⟨hcalls, hstopped⟩ := run_timely hstopping htimely hrun hfollows
    refine ⟨hcalls.trans ?_, fun hsteps => hstopped (le_trans ?_ hsteps), fun hpc => ?_⟩
    · cases r.final.capture <;> simp [CapturePc.recvLeft]
    · cases r.final.capture <;> simp [CapturePc.stepsLeft]
    · refine shutdown_inevitable ⟨?_, hpc, ?_⟩
      · exact Machine.state_invariant_of_run (P := fun d => d.running = false)
          (fun _ _ _ _ hinv h => running_step hinv h) hstopping hrun
      · exact Machine.state_invariant_of_run
          (P := fun d => d.capture = .stopped → d.queue.shuttingDown = true)
          (fun _ _ _ _ hinv h => shuttingDown_step hinv h) r.shuttingDown hrun hpc

/-- The daemon on the default configuration, stopped by a signal while the capture thread
is inside `recvfrom`. -/
def stoppedInRecvfrom : DaemonRun :=
  .ofDefault [.capture .again 0, .signal]
    { Daemon.startDefault with running := false, capture := .receive } [] rfl

/-- A frame the host itself is sending. -/
def outgoingFrame : Frame := { udpFrame 10 7000 with pkttype := packetOutgoing }

/-- Steady outgoing traffic keeps the capture thread from ever seeing that it should
stop. -/
theorem not_stopsWithin_outgoing :
    ¬ ∃ bound, ∀ (r : DaemonRun) (s : ℕ → Recv), r.final.running = false →
      StopsWithin r.cfg bound s r.final := by
  rintro ⟨bound, hbound⟩
  refine not_stopsWithin rfl (fun i _ => ?_)
    (hbound stoppedInRecvfrom (fun _ => .frame outgoingFrame) rfl)
  change knockOf .default 0 outgoingFrame = none
  decide

/-- With a timeout after two of these frames the thread is gone in time. -/
theorem stopsWithin_iff_timeout :
    StopsWithin .default 3 (fun i => if i < 2 then .frame outgoingFrame else .again)
      stoppedInRecvfrom.final :=
  (stopsWithin_iff stoppedInRecvfrom rfl 3 _).mpr fun _ => ⟨2, by decide, fun h => h⟩

end Knockd
