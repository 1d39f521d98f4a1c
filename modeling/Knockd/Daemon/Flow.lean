import Knockd.Daemon.Moves
import Knockd.Queue.Fifo
import Knockd.Knocker.Completions

/-!
# The flow of knocks through the daemon

For everything that happens to a knock between the socket and the firewall, most of the
daemon's state is beside the point. This file cuts it down to the path a knock takes: it
is captured, pushed or dropped, taken off the queue, handled, and may lead to one call
of `firewall_open`. The daemon refines this small machine: every step of either thread
is one of nine moves, seven of which move a knock along or mark a tick.

What was captured, pushed and handled in a run is then tied together by conservation
laws, and the client table turns out to be that of a run of the state machine alone, so
that what was proved about those applies to the daemon.

## Main definitions

* `Flow`, `FlowStep` — the small machine
* `flowTrace` — what a run of the daemon looks like to it
* `FlowInv` — the conservation laws
* `DaemonRun` — a run from a successful start, as one object

## Main results

* `step_flow` — every step of the daemon is a move of the small machine
* `flowInv_run` — the conservation laws hold in every run
-/

namespace Knockd

/-! ### The small machine -/

/-- The knocks on their way: captured and not yet pushed, queued, taken and not yet
handled, and an address about to be let in; and the client table. -/
structure Flow where
  pending : Option (KnockEvent × ℤ)
  queued : List KnockEvent
  inHand : Option KnockEvent
  granting : Option UInt32
  clients : ClientTable

/-- What can happen to a knock, and the ticks. -/
inductive FlowObs
  | captured (event : KnockEvent) (arrival : ℤ)
  | pushed (event : KnockEvent) (arrival : ℤ) (taken : Bool)
  | handled (record : KnockRecord)
  | opened (ip : UInt32)
  | ticked

/-- The moves. -/
inductive FlowStep (cfg : Config) : Flow → Flow → List FlowObs → Prop
  | idle (f : Flow) : FlowStep cfg f f []
  | captured (e : KnockEvent) (t : ℤ) (queued : List KnockEvent) (inHand : Option KnockEvent)
      (granting : Option UInt32) (clients : ClientTable) :
      FlowStep cfg ⟨none, queued, inHand, granting, clients⟩
        ⟨some (e, t), queued, inHand, granting, clients⟩ [.captured e t]
  | pushed (e : KnockEvent) (t : ℤ) (queued : List KnockEvent) (inHand : Option KnockEvent)
      (granting : Option UInt32) (clients : ClientTable) (hroom : queued.length < queueCapacity) :
      FlowStep cfg ⟨some (e, t), queued, inHand, granting, clients⟩
        ⟨none, queued ++ [e], inHand, granting, clients⟩ [.pushed e t true]
  | dropped (e : KnockEvent) (t : ℤ) (queued : List KnockEvent) (inHand : Option KnockEvent)
      (granting : Option UInt32) (clients : ClientTable) (hfull : queued.length = queueCapacity) :
      FlowStep cfg ⟨some (e, t), queued, inHand, granting, clients⟩
        ⟨none, queued, inHand, granting, clients⟩ [.pushed e t false]
  | take (e : KnockEvent) (pending : Option (KnockEvent × ℤ)) (queued : List KnockEvent)
      (clients : ClientTable) :
      FlowStep cfg ⟨pending, e :: queued, none, none, clients⟩
        ⟨pending, queued, some e, none, clients⟩ []
  | handle (e : KnockEvent) (now later : ℤ) (pending : Option (KnockEvent × ℤ))
      (queued : List KnockEvent) (clients : ClientTable) :
      FlowStep cfg ⟨pending, queued, some e, none, clients⟩
        ⟨pending, queued, none,
          if (knockerProcess cfg now later clients e.srcIp e.dstPort).result = .complete
            then some e.srcIp else none,
          (knockerProcess cfg now later clients e.srcIp e.dstPort).clients⟩
        [.handled ((knockerProcess cfg now later clients e.srcIp e.dstPort).record
          now e.srcIp e.dstPort)]
  | opened (ip : UInt32) (pending : Option (KnockEvent × ℤ)) (queued : List KnockEvent)
      (clients : ClientTable) :
      FlowStep cfg ⟨pending, queued, none, some ip, clients⟩
        ⟨pending, queued, none, none, clients⟩ [.opened ip]
  | ticked (pending : Option (KnockEvent × ℤ)) (queued : List KnockEvent)
      (clients : ClientTable) :
      FlowStep cfg ⟨pending, queued, none, none, clients⟩
        ⟨pending, queued, none, none, clients⟩ [.ticked]
  | swept (now : ℤ) (pending : Option (KnockEvent × ℤ)) (queued : List KnockEvent)
      (clients : ClientTable) :
      FlowStep cfg ⟨pending, queued, none, none, clients⟩
        ⟨pending, queued, none, none, (knockerCleanupStale cfg now clients).1⟩ []

/-! ### The daemon as the small machine -/

/-- The knock the capture thread is about to push, with its arrival time. -/
def CapturePc.pending : CapturePc → Option (KnockEvent × ℤ)
  | .push event arrival => some (event, arrival)
  | _ => none

/-- The knock the main thread is about to handle. -/
def ProcessorPc.inHand : ProcessorPc → Option KnockEvent
  | .handle event => some event
  | _ => none

/-- The address the main thread is about to let in. -/
def ProcessorPc.granting : ProcessorPc → Option UInt32
  | .grant ip => some ip
  | _ => none

/-- The knocks on their way through the daemon. -/
def Daemon.flow (d : Daemon) : Flow where
  pending := d.capture.pending
  queued := d.queue.events
  inHand := d.processor.inHand
  granting := d.processor.granting
  clients := d.clients

/-- What an observation says about the flow. A frame that is no knock says nothing. -/
def Obs.toFlow (cfg : Config) (ifindex : UInt32) : Obs → Option FlowObs
  | .received (.frame f) arrival =>
    (knockOf cfg ifindex f).map fun knock => .captured knock.1 arrival
  | .received _ _ => none
  | .pushed event arrival taken => some (.pushed event arrival taken)
  | .handled record => some (.handled record)
  | .opened ip => some (.opened ip)
  | .ticked => some .ticked
  | .command _ _ => none
  | .logged _ => none

/-- A run of the daemon as the small machine sees it. -/
def flowTrace (cfg : Config) (ifindex : UInt32) (seen : List Obs) : List FlowObs :=
  seen.filterMap (Obs.toFlow cfg ifindex)

section Refinement

variable {cfg : Config} {d d' : Daemon} {obs : List Obs}

theorem flowTrace_append (cfg : Config) (ifindex : UInt32) (l r : List Obs) :
    flowTrace cfg ifindex (l ++ r) = flowTrace cfg ifindex l ++ flowTrace cfg ifindex r :=
  List.filterMap_append

/-- A step that leaves every knock where it is. -/
theorem flowStep_of_same (hq : d.queue.Inv) (hqueue : d'.queue = d.queue)
    (hif : d'.ifindex = d.ifindex) (hflow : d'.flow = d.flow)
    (hobs : flowTrace cfg d.ifindex obs = []) :
    d'.queue.Inv ∧ d'.ifindex = d.ifindex ∧
      FlowStep cfg d.flow d'.flow (flowTrace cfg d.ifindex obs) := by
  rw [hqueue, hflow, hobs]
  exact ⟨hq, hif, .idle _⟩

theorem captureMove_flow (hq : d.queue.Inv) {recv : Recv} {now : ℤ}
    (h : CaptureMove cfg recv now d d' obs) :
    d'.queue.Inv ∧ d'.ifindex = d.ifindex ∧
      FlowStep cfg d.flow d'.flow (flowTrace cfg d.ifindex obs) := by
  cases h with
  | check hpc =>
    refine flowStep_of_same hq rfl rfl ?_ rfl
    cases hrun : d.running <;> simp [Daemon.flow, hpc, CapturePc.pending]
  | skip f hpc hrecv hknock =>
    apply flowStep_of_same hq rfl rfl rfl
    simp only [flowTrace, List.filterMap_cons, List.filterMap_nil, Obs.toFlow, hknock,
      Option.map_none]
  | knock f event name hpc hrecv hknock =>
    refine ⟨hq, rfl, ?_⟩
    simp only [flowTrace, List.filterMap_cons, List.filterMap_nil, Obs.toFlow, hknock,
      Option.map_some, Daemon.flow, hpc]
    exact .captured ..
  | again hpc =>
    exact flowStep_of_same hq rfl rfl (by simp only [Daemon.flow, hpc]; rfl) rfl
  | failed reason hpc =>
    exact flowStep_of_same hq rfl rfl (by simp only [Daemon.flow, hpc]; rfl) rfl
  | push event arrival hpc =>
    obtain ⟨hinv, htaken, hevents, -⟩ := pktqueuePush_spec hq cfg now event
    refine ⟨hinv, rfl, ?_⟩
    have hcount := hq.count_le
    simp only [Daemon.flow, hpc, hevents]
    -- the queue took the knock, or there was no room for it
    cases hok : (pktqueuePush cfg now event d.queue).2.1 with
    | true =>
      rw [hok] at htaken
      apply FlowStep.pushed
      simpa using htaken.symm
    | false =>
      rw [hok] at htaken
      simp only [Bool.false_eq_true, if_false, List.append_nil]
      apply FlowStep.dropped
      have : ¬ d.queue.count < queueCapacity := by simpa using htaken.symm
      rw [PacketQueue.length_events]
      omega
  | leave hpc =>
    obtain ⟨hinv, hevents⟩ := pktqueueShutdown_spec hq
    refine ⟨hinv, rfl, ?_⟩
    simp only [Daemon.flow, hpc, hevents]
    exact .idle _

/-- The commands and the log of a firewall call say nothing about the flow. -/
theorem flowTrace_call {α : Type} (cfg : Config) (ifindex : UInt32)
    (next : Effect.Prog.Stepped Command Response LogLine Ruleset α) :
    flowTrace cfg ifindex
      (next.calls.map (fun call => Obs.command call.1 call.2) ++ [.logged next.output]) = [] := by
  simp [flowTrace, Obs.toFlow]

/-- Taking an event off the queue, or finding it empty. -/
theorem dequeue_flow (cfg : Config) (hq : d.queue.Inv)
    (hpc : d.processor = .wait ∨ d.processor = .drain) {taken : Option KnockEvent}
    {queue : PacketQueue} (h : dequeue d.queue = (taken, queue)) :
    queue.Inv ∧ ∀ pc : ProcessorPc, pc.inHand = taken → pc.granting = none →
      FlowStep cfg d.flow (Daemon.flow { d with queue := queue, processor := pc }) [] := by
  have hempty : d.processor.inHand = none ∧ d.processor.granting = none := by
    rcases hpc with hpc | hpc <;> rw [hpc] <;> exact ⟨rfl, rfl⟩
  obtain ⟨hinv, hevents, -⟩ := dequeue_spec hq
  rw [h] at hinv hevents
  refine ⟨hinv, fun pc hhand hgrant => ?_⟩
  simp only [Daemon.flow, hempty, hhand, hgrant, hevents]
  cases taken with
  | none => exact .idle _
  | some event => exact .take ..

theorem processorMove_flow (hq : d.queue.Inv) {input : ProcessorInput}
    (h : ProcessorMove cfg input d d' obs) :
    d'.queue.Inv ∧ d'.ifindex = d.ifindex ∧
      FlowStep cfg d.flow d'.flow (flowTrace cfg d.ifindex obs) := by
  cases h with
  | check hpc =>
    refine flowStep_of_same hq rfl rfl ?_ rfl
    cases hrun : d.running <;> simp [Daemon.flow, hpc, ProcessorPc.inHand, ProcessorPc.granting]
  | take event queue hpc hqueue =>
    obtain ⟨hinv, hmove⟩ := dequeue_flow cfg hq hpc hqueue
    exact ⟨hinv, rfl, hmove _ rfl rfl⟩
  | empty queue hpc hqueue =>
    obtain ⟨hinv, hmove⟩ := dequeue_flow cfg hq hpc hqueue
    exact ⟨hinv, rfl, hmove _ rfl rfl⟩
  | handled event hpc hresult =>
    refine ⟨hq, rfl, ?_⟩
    have hmove : FlowStep cfg _ _ _ :=
      .handle event input.now input.later d.capture.pending d.queue.events d.clients
    rw [if_neg hresult] at hmove
    simp only [Daemon.flow, hpc]
    exact hmove
  | completed event hpc hresult =>
    refine ⟨hq, rfl, ?_⟩
    have hmove : FlowStep cfg _ _ _ :=
      .handle event input.now input.later d.capture.pending d.queue.events d.clients
    rw [if_pos hresult] at hmove
    simp only [Daemon.flow, hpc]
    exact hmove
  | grant ip hpc =>
    refine ⟨hq, rfl, ?_⟩
    simp only [Daemon.flow, hpc]
    exact .opened ..
  | tick hpc =>
    refine ⟨hq, rfl, ?_⟩
    simp only [Daemon.flow, hpc]
    exact .ticked ..
  | sweep hpc =>
    refine ⟨hq, rfl, ?_⟩
    simp only [Daemon.flow, hpc]
    exact .swept input.later ..
  | cleanup hpc =>
    obtain ⟨hinv, hevents⟩ := pktqueueShutdown_spec hq
    refine ⟨hinv, rfl, ?_⟩
    simp only [Daemon.flow, hpc, hevents]
    exact .idle _
  -- inside a firewall call no knock moves
  | opening ip p next hpc =>
    exact flowStep_of_same hq rfl rfl (by simp only [Daemon.flow, hpc]; rfl) (flowTrace_call ..)
  | ticking p next hpc =>
    exact flowStep_of_same hq rfl rfl (by simp only [Daemon.flow, hpc]; rfl) (flowTrace_call ..)
  | shutdown p next hpc =>
    exact flowStep_of_same hq rfl rfl (by simp only [Daemon.flow, hpc]; rfl) (flowTrace_call ..)
  | opened ip p fw rc hpc =>
    exact flowStep_of_same hq rfl rfl (by simp only [Daemon.flow, hpc]; rfl) rfl
  | ticked p fw hpc =>
    exact flowStep_of_same hq rfl rfl (by simp only [Daemon.flow, hpc]; rfl) rfl
  | skipSweep hpc =>
    exact flowStep_of_same hq rfl rfl (by simp only [Daemon.flow, hpc]; rfl) rfl
  | join hpc =>
    exact flowStep_of_same hq rfl rfl (by simp only [Daemon.flow, hpc]; rfl) rfl
  | done p fw hpc =>
    exact flowStep_of_same hq rfl rfl (by simp only [Daemon.flow, hpc]; rfl) rfl

/-- Every step of the daemon is a move of the small machine. -/
theorem step_flow (hq : d.queue.Inv) {action : Action} (h : d.step cfg action = some (d', obs)) :
    d'.queue.Inv ∧ d'.ifindex = d.ifindex ∧
      FlowStep cfg d.flow d'.flow (flowTrace cfg d.ifindex obs) := by
  cases action with
  | signal =>
    cases h
    exact ⟨hq, rfl, .idle _⟩
  | capture recv now => exact captureMove_flow hq (captureStep_move h)
  | processor input => exact processorMove_flow hq (processorStep_move h)

end Refinement

/-! ### Conservation -/

section Traces

/-- The event a record is about. -/
def KnockRecord.event (r : KnockRecord) : KnockEvent := ⟨r.ip, r.port⟩

/-- The knocks captured, with their arrival times. -/
def captures : List FlowObs → List (KnockEvent × ℤ) :=
  List.filterMap fun
    | .captured event arrival => some (event, arrival)
    | _ => none

/-- The knocks pushed, with their arrival times and whether the queue took them. -/
def pushes : List FlowObs → List ((KnockEvent × ℤ) × Bool) :=
  List.filterMap fun
    | .pushed event arrival taken => some ((event, arrival), taken)
    | _ => none

/-- The knocks the queue took, with their arrival times. -/
def enqueued (tr : List FlowObs) : List (KnockEvent × ℤ) :=
  ((pushes tr).filter Prod.snd).map Prod.fst

/-- The records of the knocks handled. -/
def handledRecords : List FlowObs → List KnockRecord :=
  List.filterMap fun
    | .handled record => some record
    | _ => none

/-- The addresses `firewall_open` was called for. -/
def openedIps : List FlowObs → List UInt32 :=
  List.filterMap fun
    | .opened ip => some ip
    | _ => none

variable (l r : List FlowObs)

theorem captures_append : captures (l ++ r) = captures l ++ captures r := List.filterMap_append

theorem pushes_append : pushes (l ++ r) = pushes l ++ pushes r := List.filterMap_append

theorem enqueued_append : enqueued (l ++ r) = enqueued l ++ enqueued r := by
  simp [enqueued, pushes_append]

theorem handledRecords_append : handledRecords (l ++ r) = handledRecords l ++ handledRecords r :=
  List.filterMap_append

theorem openedIps_append : openedIps (l ++ r) = openedIps l ++ openedIps r :=
  List.filterMap_append

end Traces

/-- The conservation laws. A captured knock is pushed once, or about to be. A knock the
queue took has been handled, is in hand, or is queued, in this order. `firewall_open`
has been called once for each completion, or is about to be. And the client table with
the records is that of a run of the state machine. -/
structure FlowInv (cfg : Config) (f : Flow) (tr : List FlowObs) : Prop where
  captures_eq : captures tr = (pushes tr).map Prod.fst ++ f.pending.toList
  enqueued_eq : (enqueued tr).map Prod.fst =
    (handledRecords tr).map KnockRecord.event ++ f.inHand.toList ++ f.queued
  queued_le : f.queued.length ≤ queueCapacity
  opened_eq : ∀ ip, (openedIps tr ++ f.granting.toList).count ip =
    completions ip (handledRecords tr)
  knocker : ∃ calls, knockerRun cfg calls = (f.clients, handledRecords tr)

section Invariant

variable {cfg : Config} {f f' : Flow} {tr obs : List FlowObs}

theorem captures_step (h : FlowStep cfg f f' obs)
    (hinv : captures tr = (pushes tr).map Prod.fst ++ f.pending.toList) :
    captures (tr ++ obs) = (pushes (tr ++ obs)).map Prod.fst ++ f'.pending.toList := by
  rw [captures_append, pushes_append, hinv]
  cases h <;> simp [captures, pushes]

theorem enqueued_step (h : FlowStep cfg f f' obs)
    (hinv : (enqueued tr).map Prod.fst =
      (handledRecords tr).map KnockRecord.event ++ f.inHand.toList ++ f.queued) :
    (enqueued (tr ++ obs)).map Prod.fst =
      (handledRecords (tr ++ obs)).map KnockRecord.event ++ f'.inHand.toList ++ f'.queued := by
  rw [enqueued_append, handledRecords_append, List.map_append, hinv]
  cases h <;> simp [enqueued, pushes, handledRecords, Processed.record, KnockRecord.event]

theorem queued_le_step (h : FlowStep cfg f f' obs) (hinv : f.queued.length ≤ queueCapacity) :
    f'.queued.length ≤ queueCapacity := by
  cases h with
  | pushed _ _ _ _ _ _ hroom => simpa using Nat.succ_le_of_lt hroom
  | take => exact (Nat.le_succ _).trans hinv
  | _ => exact hinv

theorem opened_step (h : FlowStep cfg f f' obs) {ip : UInt32}
    (hinv : (openedIps tr ++ f.granting.toList).count ip = completions ip (handledRecords tr)) :
    (openedIps (tr ++ obs) ++ f'.granting.toList).count ip =
      completions ip (handledRecords (tr ++ obs)) := by
  rw [openedIps_append, handledRecords_append]
  cases h with
  | handle e now later pending queued clients =>
    -- the address is up for `firewall_open` exactly if this knock completed
    simp only [Option.toList_none, List.append_nil] at hinv
    simp only [openedIps, handledRecords, List.filterMap_cons, List.filterMap_nil,
      List.append_nil, completions_concat, Processed.record] at hinv ⊢
    rw [List.count_append, hinv]
    congr 1
    split
    · rename_i hres
      simp [hres, List.count_singleton]
    · rename_i hres
      simp [hres]
  | _ => simpa [openedIps, handledRecords] using hinv

theorem knocker_step (h : FlowStep cfg f f' obs)
    (hinv : ∃ calls, knockerRun cfg calls = (f.clients, handledRecords tr)) :
    ∃ calls, knockerRun cfg calls = (f'.clients, handledRecords (tr ++ obs)) := by
  obtain ⟨calls, hrun⟩ := hinv
  rw [handledRecords_append]
  cases h with
  | handle e now later =>
    refine ⟨calls ++ [.process now later e.srcIp e.dstPort], ?_⟩
    rw [knockerRun_concat, hrun]
    rfl
  | swept now =>
    refine ⟨calls ++ [.cleanup now], ?_⟩
    rw [knockerRun_concat, hrun]
    rfl
  | _ => exact ⟨calls, by simpa [handledRecords] using hrun⟩

/-- One move keeps the conservation laws. -/
theorem FlowInv.step (hinv : FlowInv cfg f tr) (h : FlowStep cfg f f' obs) :
    FlowInv cfg f' (tr ++ obs) where
  captures_eq := captures_step h hinv.captures_eq
  enqueued_eq := enqueued_step h hinv.enqueued_eq
  queued_le := queued_le_step h hinv.queued_le
  opened_eq _ := opened_step h (hinv.opened_eq _)
  knocker := knocker_step h hinv.knocker

end Invariant

theorem flowInv_start (cfg : Config) (ifindex : UInt32) (st : FirewallState) (now : ℤ) :
    FlowInv cfg (Daemon.start cfg ifindex st now).flow [] where
  captures_eq := rfl
  enqueued_eq := rfl
  queued_le := by simp [Daemon.flow, Daemon.start, events_pktqueueInit]
  opened_eq _ := rfl
  knocker := ⟨[], rfl⟩

/-- An invariant of the small machine holds of the daemon in every run. -/
theorem flow_invariant {cfg : Config} {P : Flow → List FlowObs → Prop}
    (hstep : ∀ f tr f' obs, P f tr → FlowStep cfg f f' obs → P f' (tr ++ obs))
    {ifindex : UInt32} {st : FirewallState} {now : ℤ}
    (hstart : P (Daemon.start cfg ifindex st now).flow []) {actions : List Action} {d : Daemon}
    {seen : List Obs} (h : (Daemon.start cfg ifindex st now).run cfg actions = some (d, seen)) :
    P d.flow (flowTrace cfg ifindex seen) := by
  have hbegin : (Daemon.start cfg ifindex st now).queue.Inv ∧
      (Daemon.start cfg ifindex st now).ifindex = ifindex ∧
      P (Daemon.start cfg ifindex st now).flow (flowTrace cfg ifindex []) :=
    ⟨pktqueueInit_inv, rfl, hstart⟩
  have hrun := Machine.invariant_of_run
    (P := fun d seen => d.queue.Inv ∧ d.ifindex = ifindex ∧ P d.flow (flowTrace cfg ifindex seen))
    ?_ hbegin h
  · exact hrun.2.2
  · -- the queue invariant goes along: it is what makes the ring a list
    rintro d seen action d' obs ⟨hq, rfl, hP⟩ hd
    obtain ⟨hq', hif, hmove⟩ := step_flow hq hd
    refine ⟨hq', hif, ?_⟩
    rw [flowTrace_append]
    exact hstep _ _ _ _ hP hmove

/-- The conservation laws hold in every run. -/
theorem flowInv_run {cfg : Config} {ifindex : UInt32} {st : FirewallState} {now : ℤ}
    {actions : List Action} {d : Daemon} {seen : List Obs}
    (h : (Daemon.start cfg ifindex st now).run cfg actions = some (d, seen)) :
    FlowInv cfg d.flow (flowTrace cfg ifindex seen) :=
  flow_invariant (fun _ _ _ _ hinv hmove => hinv.step hmove) (flowInv_start cfg ifindex st now) h

/-! ### Runs as objects -/

/-- A run of the daemon: a configuration that passed validation, an initialisation of the
firewall that succeeded on whatever ruleset it found, and what was scheduled after it. -/
structure DaemonRun where
  cfg : Config
  valid : cfg.Valid
  calloc : Bool
  faults : ℕ → Option Fault
  rules : Ruleset
  initialised : (firewallStart cfg calloc faults rules).2 = 0
  ifindex : UInt32
  now : ℤ
  actions : List Action
  final : Daemon
  seen : List Obs
  runs : (Daemon.start cfg ifindex (firewallStart cfg calloc faults rules).1 now).run cfg
    actions = some (final, seen)

/-- What the run looks like to the small machine. -/
def DaemonRun.trace (r : DaemonRun) : List FlowObs := flowTrace r.cfg r.ifindex r.seen

/-- An invariant of the small machine holds at the end of a run. -/
theorem DaemonRun.invariant (r : DaemonRun) {P : Flow → List FlowObs → Prop}
    (hstep : ∀ f tr f' obs, P f tr → FlowStep r.cfg f f' obs → P f' (tr ++ obs))
    (hstart : P ⟨none, [], none, none, knockerInit r.cfg⟩ []) : P r.final.flow r.trace :=
  flow_invariant hstep hstart r.runs

/-- The daemon on the default configuration and an empty ruleset, with nothing failing while
it starts. -/
def Daemon.startDefault : Daemon :=
  .start .default 0 (firewallStart .default true (fun _ => none) .empty).1 0

/-- A run of it. -/
def DaemonRun.ofDefault (actions : List Action) (d : Daemon) (seen : List Obs)
    (h : Daemon.startDefault.run .default actions = some (d, seen)) : DaemonRun where
  cfg := .default
  valid := Config.default_valid
  calloc := true
  faults := fun _ => none
  rules := .empty
  initialised := by decide
  ifindex := 0
  now := 0
  actions := actions
  final := d
  seen := seen
  runs := h

end Knockd
