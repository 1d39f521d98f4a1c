import Knockd.Daemon.Response
import Knockd.Sniffer.Parse

/-!
# Knocks handled between two ticks

The main thread handles knocks until the queue is empty and only then calls
`firewall_tick`. While it does, the capture thread goes on filling the queue. So there is
no bound on the number of knocks handled between two ticks: whatever the configuration and
the start, a client that knocks as fast as it is handled puts off the next tick for as long
as it likes. One knock for every two steps of the main thread is enough for that.

What it takes is a flood that lasts. A knock costs the main thread `knockSteps` steps at
most, so if knocks keep to a slower pace than that in every stretch of the run, up to a
burst, then the queue runs dry in time. What was queued at the last tick and what was
captured since bounds the knocks handled since, the steps taken since bound what was
captured, and the knocks handled since bound the steps taken.

## Main definitions

* `handledSinceTick` — how many knocks were handled since the last tick
* `DaemonRun.Paced` — knocks come in at a pace
* `SinceTick` — what is known of the daemon since the last tick

## Main results

* `sinceTick_step` — every step keeps the account or starts a new one at a tick
* `handledSinceTick_paced` — how many knocks are handled between two ticks at a slow pace, and
  that a faster one leaves no bound
* `handledSinceTick_unbounded` — there is no bound in general
-/

namespace Knockd

/-- How many knocks `process_event` was called for since the last `firewall_tick`. -/
def handledSinceTick : List FlowObs → ℕ :=
  List.foldl (fun n o => match o with
    | .handled _ => n + 1
    | .ticked => 0
    | _ => n) 0

/-- The state in which a run begins. -/
def DaemonRun.initial (r : DaemonRun) : Daemon :=
  .start r.cfg r.ifindex (firewallStart r.cfg r.calloc r.faults r.rules).1 r.now

/-- Knocks come in at a pace: in any stretch of the run at most one is captured for every
`gap` steps that the main thread takes in it, and `burst` more. -/
def DaemonRun.Paced (gap burst : ℕ) (r : DaemonRun) : Prop :=
  ∀ mid obs, Machine.Stretch (Daemon.step r.cfg) r.initial r.actions mid obs →
    gap * (captures (flowTrace r.cfg r.ifindex obs)).length ≤ mainSteps mid + gap * burst

/-- How many knocks are handled between two ticks at most if knocks come in slower than they
are handled. -/
def floodBound (burst : ℕ) : ℕ := (knockSteps + 1) * (queueCapacity + 1 + burst) + roundSteps

/-! ### The account since the last tick -/

section Account

variable {cfg : Config} {ifindex : UInt32} {burst : ℕ} {f f' : Flow} {d d' : Daemon}
  {seen obs o : List Obs} {tr new : List FlowObs} {mid : List Action}

theorem flowTrace_nil : flowTrace cfg ifindex [] = [] := rfl

/-- The knocks that were captured and are not handled yet. -/
def Flow.backlog (f : Flow) : ℕ :=
  f.inHand.toList.length + f.queued.length + f.pending.toList.length

/-- A knock is in the backlog from its capture until it is handled or dropped. -/
theorem backlog_step (h : FlowStep cfg f f' new) :
    (handledRecords new).length + f'.backlog ≤ f.backlog + (captures new).length := by
  cases h with
  | _ => simp [handledRecords, captures, Flow.backlog] <;> omega

theorem handledSinceTick_append (hticks : FlowObs.ticked ∉ new) :
    handledSinceTick (tr ++ new) = handledSinceTick tr + (handledRecords new).length := by
  induction new using List.reverseRecOn with
  | nil => simp [handledRecords]
  | append_singleton new x ih =>
    have hrest := ih fun h => hticks (List.mem_append_left _ h)
    rw [← List.append_assoc, handledRecords_append]
    cases x with
    | ticked => simp at hticks
    | handled record => simp_all [handledSinceTick, handledRecords, Nat.add_assoc]
    | _ => simp_all [handledSinceTick, handledRecords]

/-- The main thread is past its loop, in the cleanup of `main`. -/
def ProcessorPc.isCleaningUp : ProcessorPc → Bool
  | .cleanup | .join | .shutdown _ | .done => true
  | _ => false

/-- What is known of the daemon at the end of the trace `all`, if the actions `mid` and the
trace `tr` have come since the last tick. It is about to tick again, or it has left its loop, or
its account is open: what was queued at the tick and captured since has been handled or is in
the backlog, and the steps taken since have gone into the round that the tick began and into
the knocks. -/
structure SinceTick (ifindex : UInt32) (burst : ℕ) (d : Daemon) (all : List FlowObs)
    (mid : List Action) (tr : List FlowObs) : Prop where
  queue : d.queue.Inv
  ifindex_eq : d.ifindex = ifindex
  handled_eq : handledSinceTick all = (handledRecords tr).length
  handled_le : (handledRecords tr).length ≤ floodBound burst
  account : d.processor = .tick ∨ d.processor.isCleaningUp = true ∨
    ((handledRecords tr).length + d.flow.backlog ≤ queueCapacity + 1 + (captures tr).length ∧
      ∃ k, d.processor.BackWithin k ∧ mainSteps mid + k ≤ roundSteps +
        knockSteps * ((handledRecords tr).length + d.processor.inHand.toList.length))

/-- At a slow pace an open account is bounded: the knocks are as many as were captured, those
are few for the steps, and the steps are few for the knocks. -/
theorem SinceTick.of_account {all : List FlowObs} (hqueue : d.queue.Inv)
    (hif : d.ifindex = ifindex) (hhandled : handledSinceTick all = (handledRecords tr).length)
    (hbalance : (handledRecords tr).length + d.flow.backlog ≤
      queueCapacity + 1 + (captures tr).length)
    (hpace : (knockSteps + 1) * (captures tr).length ≤ mainSteps mid + (knockSteps + 1) * burst)
    (hspent : ∃ k, d.processor.BackWithin k ∧ mainSteps mid + k ≤ roundSteps +
      knockSteps * ((handledRecords tr).length + d.processor.inHand.toList.length)) :
    SinceTick ifindex burst d all mid tr := by
  refine ⟨hqueue, hif, hhandled, ?_, Or.inr (Or.inr ⟨hbalance, hspent⟩)⟩
  obtain ⟨k, -, hspent⟩ := hspent
  have hhand : d.processor.inHand.toList.length ≤ d.flow.backlog := by
    rw [Flow.backlog, Nat.add_assoc]
    exact Nat.le_add_right ..
  have hcost : knockSteps = 8 := rfl
  rw [hcost] at hpace hspent
  simp only [floodBound, hcost]
  omega

/-- The cleanup handles no knock, and nothing leads back from it. -/
theorem processorStep_isCleaningUp {input : ProcessorInput}
    (h : processorStep cfg input d = some (d', o)) (hout : d.processor.isCleaningUp = true) :
    d'.processor.isCleaningUp = true ∧ handledRecords (flowTrace cfg d.ifindex o) = [] := by
  cases hpc : d.processor with
  | cleanup =>
    simp only [processorStep, hpc] at h
    cases h
    exact ⟨rfl, rfl⟩
  | join =>
    simp only [processorStep, hpc] at h
    split at h
    · cases h
      exact ⟨rfl, rfl⟩
    · cases h
  | shutdown p =>
    simp only [processorStep, hpc, Option.some.injEq] at h
    rcases advance_cases h with ⟨fw, hstep, hfinish⟩ | ⟨next, hstep, rfl, rfl⟩
    · cases hfinish
      exact ⟨rfl, rfl⟩
    · refine ⟨rfl, ?_⟩
      rw [flowTrace_call]
      rfl
  | done =>
    simp only [processorStep, hpc] at h
    cases h
  | _ =>
    rw [hpc] at hout
    cases hout

/-- Only a main thread that is about to tick ticks. -/
theorem processorMove_ticks {input : ProcessorInput} (h : ProcessorMove cfg input d d' o)
    (hpc : d.processor ≠ .tick) : FlowObs.ticked ∉ flowTrace cfg d.ifindex o := by
  cases h with
  | tick htick => exact absurd htick hpc
  | opening ip p next => rw [flowTrace_call]; simp
  | ticking p next => rw [flowTrace_call]; simp
  | shutdown p next => rw [flowTrace_call]; simp
  | _ => simp [flowTrace, Obs.toFlow]

theorem captureMove_ticks {recv : Recv} {now : ℤ} (h : CaptureMove cfg recv now d d' o) :
    FlowObs.ticked ∉ flowTrace cfg d.ifindex o := by
  cases h with
  | knock f event name hpc hrecv hknock => simp [flowTrace, Obs.toFlow, hknock]
  | skip f hpc hrecv hknock => simp [flowTrace, Obs.toFlow, hknock]
  | _ => simp [flowTrace, Obs.toFlow]

/-- The steps of the other thread leave the account as it is: what it captures is in the
backlog. -/
theorem sinceTick_captureStep {all : List FlowObs} (h : SinceTick ifindex burst d all mid tr)
    {recv : Recv} {now : ℤ} (hstep : captureStep cfg recv now d = some (d', o)) :
    SinceTick ifindex burst d' (all ++ flowTrace cfg ifindex o) (mid ++ [.capture recv now])
      (tr ++ flowTrace cfg ifindex o) := by
  have hdaemon : d.step cfg (.capture recv now) = some (d', o) := hstep
  obtain ⟨hqueue, hif, hflow⟩ := step_flow h.queue hdaemon
  have hmove := captureStep_move hstep
  obtain ⟨-, hpc, -⟩ := captureMove_frame hmove
  have hnone := captureMove_handledRecords hmove
  have hticks := captureMove_ticks hmove
  have hbacklog := backlog_step hflow
  rw [h.ifindex_eq] at hif hnone hticks hbacklog
  have hsame : handledRecords (tr ++ flowTrace cfg ifindex o) = handledRecords tr := by
    rw [handledRecords_append, hnone, List.append_nil]
  have hsteps : mainSteps (mid ++ [.capture recv now]) = mainSteps mid := by
    simp [mainSteps, Action.isMain]
  refine ⟨hqueue, hif, ?_, ?_, ?_⟩
  · rw [handledSinceTick_append hticks, hsame, hnone, h.handled_eq, List.length_nil, Nat.add_zero]
  · rw [hsame]
    exact h.handled_le
  · rw [hsame, hsteps, hpc, captures_append, List.length_append]
    refine h.account.imp_right fun haccount => haccount.imp_right fun ⟨hbalance, hspent⟩ => ?_
    refine ⟨?_, hspent⟩
    rw [hnone, List.length_nil] at hbacklog
    omega

/-- Nor do the steps of the main thread but for the tick: a knock that is taken pays for the
steps until it is handled. -/
theorem sinceTick_processorStep {all : List FlowObs} (h : SinceTick ifindex burst d all mid tr)
    {input : ProcessorInput} (hstep : processorStep cfg input d = some (d', o))
    (hpc : d.processor ≠ .tick)
    (hpace : (knockSteps + 1) * (captures (tr ++ flowTrace cfg ifindex o)).length ≤
      mainSteps (mid ++ [.processor input]) + (knockSteps + 1) * burst) :
    SinceTick ifindex burst d' (all ++ flowTrace cfg ifindex o) (mid ++ [.processor input])
      (tr ++ flowTrace cfg ifindex o) := by
  have hdaemon : d.step cfg (.processor input) = some (d', o) := hstep
  obtain ⟨hqueue, hif, hflow⟩ := step_flow h.queue hdaemon
  have hmove := processorStep_move hstep
  have hticks := processorMove_ticks hmove hpc
  have hbacklog := backlog_step hflow
  rw [h.ifindex_eq] at hif hticks hbacklog
  have hsteps : mainSteps (mid ++ [.processor input]) = mainSteps mid + 1 := by
    simp [mainSteps, Action.isMain]
  have hhandled : handledSinceTick (all ++ flowTrace cfg ifindex o) =
      (handledRecords (tr ++ flowTrace cfg ifindex o)).length := by
    rw [handledSinceTick_append hticks, h.handled_eq, handledRecords_append, List.length_append]
  rcases h.account with htick | hout | ⟨hbalance, k, hback, hspent⟩
  · exact absurd htick hpc
  · -- the loop is over, and nothing is handled any more
    obtain ⟨hout', hnone⟩ := processorStep_isCleaningUp hstep hout
    rw [h.ifindex_eq] at hnone
    refine ⟨hqueue, hif, hhandled, ?_, Or.inr (Or.inl hout')⟩
    rw [handledRecords_append, hnone, List.append_nil]
    exact h.handled_le
  · have hbalance' : (handledRecords (tr ++ flowTrace cfg ifindex o)).length + d'.flow.backlog ≤
        queueCapacity + 1 + (captures (tr ++ flowTrace cfg ifindex o)).length := by
      rw [handledRecords_append, captures_append, List.length_append, List.length_append]
      omega
    cases processorMove_loop hmove hback with
    | take event hpc hpc' hobs =>
      -- eight steps, of which this is the first
      have hhand : d.processor.inHand = none := by
        rcases hpc with hpc | hpc <;> rw [hpc] <;> rfl
      have hhand' : d'.processor.inHand = some event := by
        rw [hpc']
        rfl
      refine .of_account hqueue hif hhandled hbalance' hpace
        ⟨openSteps + 3, hpc' ▸ le_refl (openSteps + 3), ?_⟩
      have hcost : knockSteps = openSteps + 3 + 1 := rfl
      rw [hobs, flowTrace_nil, List.append_nil, hsteps, hhand', Option.toList_some,
        List.length_singleton, Nat.mul_add]
      rw [hhand, Option.toList_none, List.length_nil, Nat.add_zero] at hspent
      omega
    | nearer m hm hback' hhand hcount =>
      -- one step less to go, and one more taken
      rw [h.ifindex_eq] at hcount
      refine .of_account hqueue hif hhandled hbalance' hpace ⟨m, hback', ?_⟩
      rw [handledRecords_append, List.length_append, hcount, hhand, hsteps]
      exact le_trans (by omega) hspent
    | empty hpc hnone hpc' hobs =>
      refine ⟨hqueue, hif, hhandled, ?_, Or.inl hpc'⟩
      rw [hobs, flowTrace_nil, List.append_nil]
      exact h.handled_le
    | leave hpc hpc' hdown hobs =>
      refine ⟨hqueue, hif, hhandled, ?_, Or.inr (Or.inl (by rw [hpc']; rfl))⟩
      rw [hobs, flowTrace_nil, List.append_nil]
      exact h.handled_le

/-- A tick opens a new account, with what is queued. -/
theorem sinceTick_tick {all : List FlowObs} (h : SinceTick ifindex burst d all mid tr)
    {input : ProcessorInput} (hpc : d.processor = .tick)
    (hstep : processorStep cfg input d = some (d', o)) :
    SinceTick ifindex burst d' (all ++ flowTrace cfg ifindex o) [] [] := by
  simp only [processorStep, hpc] at hstep
  cases hstep
  refine ⟨h.queue, h.ifindex_eq, ?_, Nat.zero_le _, Or.inr (Or.inr ⟨?_, ?_⟩)⟩
  · simp [handledSinceTick, flowTrace, Obs.toFlow, handledRecords]
  · -- there is room for one knock outside the queue, between its capture and its push
    have hpending : d.capture.pending.toList.length ≤ 1 := by cases d.capture.pending <;> simp
    have hqueued : d.queue.events.length ≤ queueCapacity := by
      rw [PacketQueue.length_events]
      exact h.queue.count_le
    simp only [Flow.backlog, Daemon.flow, ProcessorPc.inHand, handledRecords, captures,
      List.filterMap_nil, Option.toList_none, List.length_nil]
    omega
  · exact ⟨tickSteps + 3, ⟨tickSteps, firewallTick_within .., le_rfl⟩,
      (by decide : 0 + (tickSteps + 3) ≤ roundSteps + knockSteps * (0 + 0))⟩

/-- Every step keeps the account, or opens a new one. -/
theorem sinceTick_step {all : List FlowObs} (h : SinceTick ifindex burst d all mid tr)
    {action : Action} (hstep : d.step cfg action = some (d', o))
    (hpace : (knockSteps + 1) * (captures (tr ++ flowTrace cfg ifindex o)).length ≤
      mainSteps (mid ++ [action]) + (knockSteps + 1) * burst) :
    SinceTick ifindex burst d' (all ++ flowTrace cfg ifindex o) (mid ++ [action])
        (tr ++ flowTrace cfg ifindex o) ∨
      SinceTick ifindex burst d' (all ++ flowTrace cfg ifindex o) [] [] := by
  cases action with
  | signal =>
    cases hstep
    left
    rw [flowTrace_nil, List.append_nil, List.append_nil]
    have hsteps : mainSteps (mid ++ [.signal]) = mainSteps mid := by
      simp [mainSteps, Action.isMain]
    exact ⟨h.queue, h.ifindex_eq, h.handled_eq, h.handled_le, hsteps ▸ h.account⟩
  | capture recv now => exact .inl (sinceTick_captureStep h hstep)
  | processor input =>
    by_cases hpc : d.processor = .tick
    · exact .inr (sinceTick_tick h hpc hstep)
    · exact .inl (sinceTick_processorStep h hstep hpc hpace)

end Account

theorem DaemonRun.handledSinceTick_le {burst : ℕ} (r : DaemonRun)
    (hpace : r.Paced (knockSteps + 1) burst) : handledSinceTick r.trace ≤ floodBound burst := by
  have hbegin : SinceTick r.ifindex burst r.initial [] [] [] := by
    refine ⟨pktqueueInit_inv, rfl, rfl, Nat.zero_le _, Or.inr (Or.inr ⟨?_, 1, le_refl 1, ?_⟩)⟩
    · simp [Flow.backlog, Daemon.flow, DaemonRun.initial, Daemon.start, handledRecords, captures,
        CapturePc.pending, ProcessorPc.inHand, events_pktqueueInit]
    · exact (by decide : 0 + 1 ≤ roundSteps).trans (Nat.le_add_right ..)
  obtain ⟨mid, obs, h⟩ := Machine.window_of_run
    (P := fun d seen mid obs => SinceTick r.ifindex burst d (flowTrace r.cfg r.ifindex seen) mid
      (flowTrace r.cfg r.ifindex obs))
    (fun d seen mid obs action d' o hstretch h hstep => by
      have hslow := hpace _ _ hstretch
      rw [flowTrace_append] at hslow
      rw [flowTrace_append, flowTrace_append]
      exact sinceTick_step h hstep hslow) hbegin r.runs
  change handledSinceTick (flowTrace r.cfg r.ifindex r.seen) ≤ _
  rw [h.handled_eq]
  exact h.handled_le

/-! ### A flood that lasts -/

section Flooding

variable {cfg : Config} {ifindex : UInt32} {frame : Frame} {event : KnockEvent} {name : String}
  {d d' : Daemon} {seen : List Obs} {actions : List Action} {n : ℕ}

/-- The queue is empty, the main thread is about to look into it, and nobody is tracked. -/
structure Flooded (cfg : Config) (ifindex : UInt32) (d : Daemon) : Prop where
  running : d.running = true
  ifindex_eq : d.ifindex = ifindex
  capture : d.capture = .check
  processor : d.processor = .wait ∨ d.processor = .drain
  queue : d.queue.Inv
  empty : d.queue.events = []
  clients : d.clients = knockerInit cfg

/-- A knock arrives and is pushed at once. -/
def captureFrame (frame : Frame) : List Action :=
  [.capture .again 0, .capture (.frame frame) 0, .capture .again 0]

/-- Then it is taken off the queue and handled. -/
def floodRound (frame : Frame) : List Action := captureFrame frame ++ [processAt 0, processAt 0]

/-- The main thread enters its loop, and round follows round. -/
def floodActions (frame : Frame) (n : ℕ) : List Action :=
  processAt 0 :: (List.replicate n (floodRound frame)).flatten

/-- The main thread takes the oldest event, at the head of its loop or inside it. -/
theorem processorStep_take {input : ProcessorInput} {rest : List KnockEvent}
    (hpc : d.processor = .wait ∨ d.processor = .drain) (hq : d.queue.Inv)
    (hevents : d.queue.events = event :: rest) :
    ∃ queue, processorStep cfg input d =
        some ({ d with queue := queue, processor := .handle event }, []) ∧
      queue.Inv ∧ queue.events = rest := by
  obtain ⟨hinv, hsplit, hnone, -⟩ := dequeue_spec hq
  obtain ⟨taken, queue, hout⟩ : ∃ taken queue, dequeue d.queue = (taken, queue) := ⟨_, _, rfl⟩
  rw [hout] at hinv hsplit hnone
  cases taken with
  | none => simp [hevents] at hnone
  | some first =>
    obtain ⟨rfl, rfl⟩ := List.cons.inj (hevents.symm.trans hsplit)
    refine ⟨queue, ?_, hinv, rfl⟩
    have hcount : d.queue.count ≠ 0 := by
      rw [← PacketQueue.length_events, hevents]
      simp
    rcases hpc with hpc | hpc
    · simp [processorStep, hpc, pktqueueWait, hcount, hout]
    · simp [processorStep, hpc, pktqueuePop, hout]

/-- The capture thread takes a knock off the socket and finds room for it. -/
theorem captureFrame_run (hrunning : d.running = true) (hpc : d.capture = .check)
    (hq : d.queue.Inv) (hroom : d.queue.events.length < queueCapacity)
    (hknock : knockOf cfg d.ifindex frame = some (event, name)) :
    ∃ queue obs, d.run cfg (captureFrame frame) =
        some ({ d with queue := queue, capture := .check }, obs) ∧
      queue.Inv ∧ queue.events = d.queue.events ++ [event] ∧
      flowTrace cfg d.ifindex obs = [.captured event 0, .pushed event 0 true] := by
  rw [PacketQueue.length_events] at hroom
  obtain ⟨hinv, htaken, hevents, -⟩ := pktqueuePush_spec hq cfg 0 event
  rw [htaken, decide_eq_true hroom, if_pos rfl] at hevents
  have hcheck : d.step cfg (.capture .again 0) = some ({ d with capture := .receive }, []) := by
    simp [Daemon.step, captureStep, hpc, hrunning]
  have hreceive : Daemon.step cfg { d with capture := .receive } (.capture (.frame frame) 0) =
      some ({ d with capture := .push event 0 },
        [.received (.frame frame) 0, .logged (snifferTurn cfg d.ifindex (.frame frame)).2]) := by
    simp [Daemon.step, captureStep, snifferTurn, hknock]
  refine ⟨(pktqueuePush cfg 0 event d.queue).1, _,
    Machine.run_cons.mpr ⟨_, _, _, hcheck, Machine.run_cons.mpr ⟨_, _, _, hreceive,
      Machine.run_cons.mpr ⟨_, _, _, rfl, Machine.run_nil, rfl⟩, rfl⟩, rfl⟩, hinv, hevents, ?_⟩
  simp [flowTrace, List.filterMap_cons, Obs.toFlow, hknock, htaken, hroom]

/-- A knock from an address nobody knows is turned away unless it is on the first port. -/
theorem knockerProcess_stranger {t : ClientTable} (hnone : clientEntry t event.srcIp = none)
    (hport : cfg.knockSequence[0]? ≠ some event.dstPort) (now later : ℤ) :
    (knockerProcess cfg now later t event.srcIp event.dstPort).result = .reset ∧
      (knockerProcess cfg now later t event.srcIp event.dstPort).clients = t := by
  have hfind : findClient t event.srcIp = none := SlotTable.lookup_eq_none_iff.mpr hnone
  simp [knockerProcess, processLocked, hfind, hport]

/-- One round leads to where it started, with one more knock handled. -/
theorem floodRound_run (h : Flooded cfg ifindex d)
    (hknock : knockOf cfg ifindex frame = some (event, name))
    (hport : cfg.knockSequence[0]? ≠ some event.dstPort) :
    ∃ d' obs, d.run cfg (floodRound frame) = some (d', obs) ∧ Flooded cfg ifindex d' ∧
      ∀ tr, handledSinceTick (tr ++ flowTrace cfg ifindex obs) = handledSinceTick tr + 1 := by
  obtain ⟨pushed, obs, hcapture, hinv, hevents, htrace⟩ := captureFrame_run h.running h.capture
    h.queue (by rw [h.empty]; decide) (h.ifindex_eq.symm ▸ hknock)
  rw [h.empty, List.nil_append] at hevents
  obtain ⟨queue, htake, hinv', hempty⟩ : ∃ queue, processorStep cfg ⟨0, 0, false, none⟩
      { d with queue := pushed, capture := .check } = _ ∧ _ :=
    processorStep_take h.processor hinv hevents
  obtain ⟨hresult, hclients⟩ := knockerProcess_stranger (t := d.clients)
    (h.clients ▸ clientEntry_knockerInit cfg) hport 0 0
  have hhandle : processorStep cfg ⟨0, 0, false, none⟩
        { d with queue := queue, capture := .check, processor := .handle event } =
      some ({ d with queue := queue, capture := .check, processor := .drain },
        [.handled ((knockerProcess cfg 0 0 d.clients event.srcIp event.dstPort).record 0
            event.srcIp event.dstPort),
          .logged (knockerProcess cfg 0 0 d.clients event.srcIp event.dstPort).log]) := by
    simp [processorStep, hresult, hclients]
  refine ⟨_, _, Machine.run_append hcapture
    (Machine.run_cons.mpr ⟨_, _, _, htake, Machine.run_cons.mpr ⟨_, _, _, hhandle,
      Machine.run_nil, rfl⟩, rfl⟩), ?_, fun tr => ?_⟩
  · exact ⟨h.running, h.ifindex_eq, rfl, Or.inr rfl, hinv', hempty, h.clients⟩
  · rw [flowTrace_append, ← h.ifindex_eq, htrace]
    simp [handledSinceTick, flowTrace, List.filterMap_cons, Obs.toFlow]

theorem floodRounds_run (h : Flooded cfg ifindex d)
    (hknock : knockOf cfg ifindex frame = some (event, name))
    (hport : cfg.knockSequence[0]? ≠ some event.dstPort) (n : ℕ) :
    ∃ d' obs, d.run cfg (List.replicate n (floodRound frame)).flatten = some (d', obs) ∧
      Flooded cfg ifindex d' ∧
      ∀ tr, handledSinceTick (tr ++ flowTrace cfg ifindex obs) = handledSinceTick tr + n := by
  induction n generalizing d with
  | zero => exact ⟨d, [], rfl, h, fun tr => by simp [flowTrace]⟩
  | succ n ih =>
    obtain ⟨d₁, obs₁, hround, hd₁, hcount⟩ := floodRound_run h hknock hport
    obtain ⟨d₂, obs₂, hrest, hd₂, hcounts⟩ := ih hd₁
    refine ⟨d₂, obs₁ ++ obs₂, ?_, hd₂, fun tr => ?_⟩
    · rw [List.replicate_succ, List.flatten_cons]
      exact Machine.run_append hround hrest
    · rw [flowTrace_append, ← List.append_assoc, hcounts, hcount]
      omega

/-! How fast the flood is: one frame for every two steps of the main thread, in any stretch. -/

/-- Does this step of the capture thread take a frame off the socket, if it gets that far? -/
def Action.isFrame : Action → Bool
  | .capture (.frame _) _ => true
  | _ => false

theorem captures_step_le {action : Action} (h : d.step cfg action = some (d', seen)) :
    (captures (flowTrace cfg ifindex seen)).length ≤ action.isFrame.toNat := by
  cases action with
  | signal =>
    cases h
    exact Nat.zero_le _
  | capture recv now =>
    cases captureStep_move h with
    | skip f hpc hrecv =>
      subst hrecv
      cases hknock : knockOf cfg ifindex f <;>
        simp [flowTrace, List.filterMap_cons, Obs.toFlow, captures, hknock, Action.isFrame]
    | knock f event name hpc hrecv =>
      subst hrecv
      cases hknock : knockOf cfg ifindex f <;>
        simp [flowTrace, List.filterMap_cons, Obs.toFlow, captures, hknock, Action.isFrame]
    | _ => exact Nat.zero_le _
  | processor input =>
    cases processorStep_move h with
    | opening ip p next => rw [flowTrace_call]; exact Nat.zero_le _
    | ticking p next => rw [flowTrace_call]; exact Nat.zero_le _
    | shutdown p next => rw [flowTrace_call]; exact Nat.zero_le _
    | _ => exact Nat.zero_le _

theorem captures_run_le (h : d.run cfg actions = some (d', seen)) :
    (captures (flowTrace cfg ifindex seen)).length ≤ actions.countP Action.isFrame := by
  induction actions generalizing d seen with
  | nil =>
    cases h
    exact Nat.zero_le _
  | cons action actions ih =>
    obtain ⟨d₁, o, rest, hfirst, hrest, rfl⟩ := Machine.run_cons.mp h
    rw [flowTrace_append, captures_append, List.length_append, List.countP_cons, Nat.add_comm]
    refine Nat.add_le_add (ih hrest) ((captures_step_le hfirst).trans ?_)
    cases action.isFrame <;> simp

/-- What a list of actions has of frames and of steps of the main thread, from any beginning of
the flood to any later point. -/
theorem pace_of_beginnings {before mid : List Action}
    (h : ∀ p, p <+: before ++ mid → mainSteps p ≤ 2 * p.countP Action.isFrame + 1 ∧
      2 * p.countP Action.isFrame ≤ mainSteps p + 2) :
    2 * mid.countP Action.isFrame ≤ mainSteps mid + 2 * 2 := by
  have hbefore := (h before (List.prefix_append ..)).1
  have hall := (h (before ++ mid) List.prefix_rfl).2
  rw [List.countP_append, mainSteps, List.countP_append] at hall
  rw [mainSteps] at hbefore ⊢
  omega

theorem floodRounds_pace (frame : Frame) (n : ℕ) {p : List Action}
    (h : p <+: (List.replicate n (floodRound frame)).flatten) :
    mainSteps p ≤ 2 * p.countP Action.isFrame ∧ 2 * p.countP Action.isFrame ≤ mainSteps p + 2 := by
  induction n generalizing p with
  | zero =>
    obtain rfl : p = [] := by simpa using h
    simp [mainSteps]
  | succ n ih =>
    rw [List.replicate_succ, List.flatten_cons] at h
    rcases List.prefix_or_prefix_of_prefix h (List.prefix_append ..) with hshort | ⟨q, rfl⟩
    · -- cut off inside the first round
      obtain ⟨k, rfl⟩ : ∃ k, p = (floodRound frame).take k := ⟨_, List.prefix_iff_eq_take.mp hshort⟩
      match k with
      | 0 | 1 | 2 | 3 | 4 | k + 5 =>
        simp [mainSteps, List.countP_cons, floodRound, captureFrame, processAt, Action.isFrame,
          Action.isMain]
    · have hrest := ih ((List.prefix_append_right_inj _).mp h)
      have hframe : (floodRound frame).countP Action.isFrame = 1 := by rfl
      have hmain : mainSteps (floodRound frame) = 2 := by rfl
      rw [mainSteps] at hmain hrest ⊢
      rw [List.countP_append, List.countP_append, hframe, hmain]
      omega

theorem floodActions_pace (frame : Frame) (n : ℕ) {p : List Action}
    (h : p <+: floodActions frame n) :
    mainSteps p ≤ 2 * p.countP Action.isFrame + 1 ∧
      2 * p.countP Action.isFrame ≤ mainSteps p + 2 := by
  rcases List.prefix_cons_iff.mp h with rfl | ⟨q, rfl, hq⟩
  · simp [mainSteps]
  · have hrest := floodRounds_pace frame n hq
    simp only [mainSteps, List.countP_cons, processAt, Action.isMain, Action.isFrame] at hrest ⊢
    simp
    omega

end Flooding

/-- From the start of any run the flood can go on for as long as it likes. -/
theorem DaemonRun.exists_flood (r : DaemonRun) (n : ℕ) :
    ∃ r' : DaemonRun, r'.cfg = r.cfg ∧ r'.initial = r.initial ∧ r'.Paced 2 2 ∧
      handledSinceTick r'.trace = n := by
  -- a knock on the second port is turned away, and leaves no client behind
  obtain ⟨port, hport⟩ : ∃ port, r.cfg.knockSequence[1]? = some port :=
    ⟨_, Vector.getElem?_eq_getElem (by decide)⟩
  have hne : r.cfg.knockSequence[0]? ≠ some port := fun hfirst =>
    absurd (r.valid.port_inj r.valid.first_lt r.valid.second_lt hfirst hport) (by decide)
  have hmem : port ∈ r.cfg.sequence := by
    rw [← Config.sequence_getElem? r.valid.second_lt] at hport
    exact List.mem_of_getElem? hport
  obtain ⟨frame, name, hknock⟩ := exists_knockOf r.ifindex ⟨10, port⟩ hmem
  have hready : Flooded r.cfg r.ifindex { r.initial with processor := .wait } :=
    ⟨rfl, rfl, rfl, Or.inl rfl, pktqueueInit_inv, events_pktqueueInit, rfl⟩
  obtain ⟨d, obs, hrun, -, hcount⟩ := floodRounds_run hready hknock hne n
  have hall : r.initial.run r.cfg (floodActions frame n) = some (d, obs) :=
    Machine.run_cons.mpr ⟨_, _, _, rfl, hrun, rfl⟩
  refine ⟨{ r with actions := floodActions frame n, final := d, seen := obs, runs := hall }, rfl,
    rfl, ?_, ?_⟩
  · rintro mid o ⟨before, after, s₁, seen, s₂, hactions, -, hmid⟩
    have hpre : before ++ mid <+: floodActions frame n := ⟨after, hactions.symm⟩
    exact (Nat.mul_le_mul_left 2 (captures_run_le hmid)).trans
      (pace_of_beginnings fun p hp => floodActions_pace frame n (hp.trans hpre))
  · exact (hcount []).trans (Nat.zero_add n)

/-- **How slow a flood has to be.** With the configuration and the start of any run there is no
bound on the knocks handled between two ticks, not even if in no stretch of a run more than one
knock comes in for every two steps of the main thread, and two more. But if no stretch of the run
brings more than one for every `knockSteps + 1` steps, and a burst, there is one: at no point of it
have more than `floodBound burst` knocks been handled since the last tick. -/
theorem handledSinceTick_paced (r : DaemonRun) (burst : ℕ) :
    (∀ bound, ∃ r' : DaemonRun, r'.cfg = r.cfg ∧ r'.initial = r.initial ∧ r'.Paced 2 2 ∧
        bound < handledSinceTick r'.trace) ∧
      (r.Paced (knockSteps + 1) burst → ∀ before after d seen, r.actions = before ++ after →
        r.initial.run r.cfg before = some (d, seen) →
        handledSinceTick (flowTrace r.cfg r.ifindex seen) ≤ floodBound burst) := by
  refine ⟨fun bound => ?_, fun hpace before after d seen hactions hrun => ?_⟩
  · obtain ⟨r', hcfg, hinitial, hpace, hcount⟩ := r.exists_flood (bound + 1)
    exact ⟨r', hcfg, hinitial, hpace, hcount ▸ Nat.lt_succ_self bound⟩
  · -- up to that point the run keeps the same pace
    exact DaemonRun.handledSinceTick_le
      { r with actions := before, final := d, seen := seen, runs := hrun } fun mid obs hmid =>
        hpace mid obs (hactions ▸ hmid.append_right after)

/-- A run keeps any pace with all its knocks as the burst. -/
theorem DaemonRun.paced_captures (r : DaemonRun) (gap : ℕ) :
    r.Paced gap (captures r.trace).length := by
  intro mid obs hmid
  refine (Nat.mul_le_mul_left gap (List.Sublist.length_le ?_)).trans (Nat.le_add_left ..)
  exact ((hmid.isInfix r.runs).sublist.filterMap _).filterMap _

theorem threeKnocks_flow :
    (Daemon.startDefault.run .default threeKnocks).map (fun out =>
      ((captures (flowTrace .default 0 out.2)).length,
        handledSinceTick (flowTrace .default 0 out.2))) = some (3, 3) := by
  decide +kernel

theorem handledSinceTick_paced_threeKnocks : ∃ r : DaemonRun, r.Paced (knockSteps + 1) 3 ∧
    handledSinceTick r.trace = 3 ∧ handledSinceTick r.trace ≤ floodBound 3 := by
  obtain ⟨⟨d, seen⟩, hrun, hout⟩ := Option.map_eq_some_iff.mp threeKnocks_flow
  obtain ⟨hcaptures, hhandled⟩ := Prod.mk.inj hout
  let r : DaemonRun := .ofDefault threeKnocks d seen hrun
  have hpace : r.Paced (knockSteps + 1) 3 := hcaptures ▸ r.paced_captures (knockSteps + 1)
  exact ⟨r, hpace, hhandled, (handledSinceTick_paced r 3).2 hpace threeKnocks [] d seen
    (List.append_nil _).symm hrun⟩

/-- The number of knocks handled between two ticks has no bound at all. -/
theorem handledSinceTick_unbounded :
    ¬ ∃ bound, ∀ r : DaemonRun, handledSinceTick r.trace ≤ bound := by
  rintro ⟨bound, hbound⟩
  obtain ⟨r, -, -, -, hcount⟩ :=
    (DaemonRun.ofDefault [] Daemon.startDefault [] rfl).exists_flood (bound + 1)
  have hle := hbound r
  omega

end Knockd
