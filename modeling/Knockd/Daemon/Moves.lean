import Knockd.Model.Daemon

/-!
# What a step of either thread can do

The steps of the model are functions of the place a thread is at. Here they are inverted,
once and for all invariants: a step that was possible was one of the moves listed, with
the guards under which the code makes it.

## Main definitions

* `CaptureMove`, `ProcessorMove` — the moves of the capture thread and of the main thread

## Main results

* `captureStep_move`, `processorStep_move` — the model makes only these moves
-/

namespace Knockd

/-- The moves of the capture thread. -/
inductive CaptureMove (cfg : Config) (recv : Recv) (now : ℤ) (d : Daemon) :
    Daemon → List Obs → Prop
  | check (hpc : d.capture = .check) :
      CaptureMove cfg recv now d { d with capture := if d.running then .receive else .leaving } []
  | skip (f : Frame) (hpc : d.capture = .receive) (hrecv : recv = .frame f)
      (hknock : knockOf cfg d.ifindex f = none) :
      CaptureMove cfg recv now d d [.received (.frame f) now, .logged []]
  | knock (f : Frame) (event : KnockEvent) (name : String) (hpc : d.capture = .receive)
      (hrecv : recv = .frame f) (hknock : knockOf cfg d.ifindex f = some (event, name)) :
      CaptureMove cfg recv now d { d with capture := .push event now }
        [.received (.frame f) now, .logged (snifferTurn cfg d.ifindex (.frame f)).2]
  | again (hpc : d.capture = .receive) (hrecv : recv = .again) :
      CaptureMove cfg recv now d { d with capture := .check } [.received .again now, .logged []]
  | failed (reason : String) (hpc : d.capture = .receive) (hrecv : recv = .failed reason) :
      CaptureMove cfg recv now d { d with running := false, capture := .leaving }
        [.received (.failed reason) now,
          .logged (logMsg cfg .error ("recvfrom() failed: " ++ reason)),
          .logged (logMsg cfg .error "Packet capture failed — stopping the daemon")]
  | push (event : KnockEvent) (arrival : ℤ) (hpc : d.capture = .push event arrival) :
      CaptureMove cfg recv now d
        { d with queue := (pktqueuePush cfg now event d.queue).1, capture := .check }
        [.pushed event arrival (pktqueuePush cfg now event d.queue).2.1,
          .logged (pktqueuePush cfg now event d.queue).2.2]
  | leave (hpc : d.capture = .leaving) :
      CaptureMove cfg recv now d
        { d with queue := pktqueueShutdown d.queue, capture := .stopped } []

theorem captureStep_move {cfg : Config} {recv : Recv} {now : ℤ} {d d' : Daemon} {obs : List Obs}
    (h : captureStep cfg recv now d = some (d', obs)) : CaptureMove cfg recv now d d' obs := by
  cases hpc : d.capture with
  | check =>
    simp only [captureStep, hpc] at h
    cases h
    exact .check hpc
  | receive =>
    cases recv with
    | again =>
      simp only [captureStep, hpc, snifferTurn] at h
      cases h
      exact .again hpc rfl
    | failed reason =>
      simp only [captureStep, hpc, snifferTurn] at h
      cases h
      exact .failed reason hpc rfl
    | frame f =>
      cases hknock : knockOf cfg d.ifindex f with
      | none =>
        simp only [captureStep, hpc, snifferTurn, hknock] at h
        cases h
        exact .skip f hpc rfl hknock
      | some knock =>
        -- the log line is kept folded, only the outcome of the turn matters
        have hturn : (snifferTurn cfg d.ifindex (.frame f)).1 = .ok knock.1 := by
          simp only [snifferTurn, hknock]
        simp only [captureStep, hpc, hturn] at h
        cases h
        exact .knock f knock.1 knock.2 hpc rfl hknock
  | push event arrival =>
    simp only [captureStep, hpc] at h
    cases h
    exact .push event arrival hpc
  | leaving =>
    simp only [captureStep, hpc] at h
    cases h
    exact .leave hpc
  | stopped =>
    simp only [captureStep, hpc] at h
    cases h

/-- The call of the state machine for an event. -/
abbrev Daemon.process (cfg : Config) (input : ProcessorInput) (d : Daemon) (event : KnockEvent) :
    Processed :=
  knockerProcess cfg input.now input.later d.clients event.srcIp event.dstPort

/-- The moves of the main thread. A firewall call in progress takes a step of its own, or
has come to its end. -/
inductive ProcessorMove (cfg : Config) (input : ProcessorInput) (d : Daemon) :
    Daemon → List Obs → Prop
  | check (hpc : d.processor = .check) :
      ProcessorMove cfg input d { d with processor := if d.running then .wait else .cleanup } []
  | take (event : KnockEvent) (queue : PacketQueue)
      (hpc : d.processor = .wait ∨ d.processor = .drain)
      (hqueue : dequeue d.queue = (some event, queue)) :
      ProcessorMove cfg input d { d with queue := queue, processor := .handle event } []
  | empty (queue : PacketQueue) (hpc : d.processor = .wait ∨ d.processor = .drain)
      (hqueue : dequeue d.queue = (none, queue))
      (hwoken : d.processor = .wait → d.queue.shuttingDown = true ∨ input.timedOut = true) :
      ProcessorMove cfg input d { d with queue := queue, processor := .tick } []
  | handled (event : KnockEvent) (hpc : d.processor = .handle event)
      (hresult : (d.process cfg input event).result ≠ .complete) :
      ProcessorMove cfg input d
        { d with clients := (d.process cfg input event).clients, processor := .drain }
        [.handled ((d.process cfg input event).record input.now event.srcIp event.dstPort),
          .logged (d.process cfg input event).log]
  | completed (event : KnockEvent) (hpc : d.processor = .handle event)
      (hresult : (d.process cfg input event).result = .complete) :
      ProcessorMove cfg input d
        { d with clients := (d.process cfg input event).clients, processor := .grant event.srcIp }
        [.handled ((d.process cfg input event).record input.now event.srcIp event.dstPort),
          .logged (d.process cfg input event).log,
          .logged (logMsg cfg .info (inetNtop event.srcIp ++ " completed the knock sequence"))]
  | grant (ip : UInt32) (hpc : d.processor = .grant ip) :
      ProcessorMove cfg input d
        { d with processor := .opening ip (firewallOpen cfg input.now ip d.firewall) } [.opened ip]
  | opening (ip : UInt32) (p : FirewallProg (Firewall × ℤ))
      (next : Effect.Prog.Stepped Command Response LogLine Ruleset (Firewall × ℤ))
      (hpc : d.processor = .opening ip p) (hstep : p.step handle input.fault d.rules = .inr next) :
      ProcessorMove cfg input d { d with rules := next.state, processor := .opening ip next.rest }
        (next.calls.map (fun call => .command call.1 call.2) ++ [.logged next.output])
  | opened (ip : UInt32) (p : FirewallProg (Firewall × ℤ)) (fw : Firewall) (rc : ℤ)
      (hpc : d.processor = .opening ip p)
      (hstep : p.step handle input.fault d.rules = .inl (fw, rc)) :
      ProcessorMove cfg input d { d with firewall := fw, processor := .drain }
        [.logged (if rc < 0 then
          logMsg cfg .error
            (inetNtop ip ++ " completed the sequence but the firewall could not be opened")
          else [])]
  | tick (hpc : d.processor = .tick) :
      ProcessorMove cfg input d
        { d with processor := .ticking (firewallTick cfg input.now d.firewall) } [.ticked]
  | ticking (p : FirewallProg Firewall)
      (next : Effect.Prog.Stepped Command Response LogLine Ruleset Firewall)
      (hpc : d.processor = .ticking p) (hstep : p.step handle input.fault d.rules = .inr next) :
      ProcessorMove cfg input d { d with rules := next.state, processor := .ticking next.rest }
        (next.calls.map (fun call => .command call.1 call.2) ++ [.logged next.output])
  | ticked (p : FirewallProg Firewall) (fw : Firewall) (hpc : d.processor = .ticking p)
      (hstep : p.step handle input.fault d.rules = .inl fw) :
      ProcessorMove cfg input d { d with firewall := fw, processor := .sweep } []
  | sweep (hpc : d.processor = .sweep) (hdue : input.now - d.lastCleanup ≥ staleScanInterval) :
      ProcessorMove cfg input d
        { d with
          clients := (knockerCleanupStale cfg input.later d.clients).1
          lastCleanup := input.now
          processor := .check }
        [.logged (knockerCleanupStale cfg input.later d.clients).2]
  | skipSweep (hpc : d.processor = .sweep)
      (hdue : ¬ input.now - d.lastCleanup ≥ staleScanInterval) :
      ProcessorMove cfg input d { d with processor := .check } []
  | cleanup (hpc : d.processor = .cleanup) :
      ProcessorMove cfg input d
        { d with running := false, queue := pktqueueShutdown d.queue, processor := .join }
        [.logged (logMsg cfg .info "Shutting down")]
  | join (hpc : d.processor = .join) (hstopped : d.capture = .stopped) :
      ProcessorMove cfg input d
        { d with processor := .shutdown (firewallShutdown cfg d.firewall) }
        [.logged (logMsg cfg .debug "Raw socket closed")]
  | shutdown (p : FirewallProg Firewall)
      (next : Effect.Prog.Stepped Command Response LogLine Ruleset Firewall)
      (hpc : d.processor = .shutdown p) (hstep : p.step handle input.fault d.rules = .inr next) :
      ProcessorMove cfg input d { d with rules := next.state, processor := .shutdown next.rest }
        (next.calls.map (fun call => .command call.1 call.2) ++ [.logged next.output])
  | done (p : FirewallProg Firewall) (fw : Firewall) (hpc : d.processor = .shutdown p)
      (hstep : p.step handle input.fault d.rules = .inl fw) :
      ProcessorMove cfg input d { d with firewall := fw, processor := .done }
        [.logged (logMsg cfg .debug "Packet queue destroyed"),
          .logged (logMsg cfg .info "knockd stopped")]

section Processor

variable {cfg : Config} {input : ProcessorInput} {d d' : Daemon} {obs : List Obs}

/-- A step of a firewall call: it goes on or has ended. -/
theorem advance_cases {α : Type} {fault : Option Fault} {p : FirewallProg α}
    {pending : FirewallProg α → ProcessorPc} {finish : α → Daemon × List Obs}
    (h : d.advance fault p pending finish = (d', obs)) :
    (∃ a, p.step handle fault d.rules = .inl a ∧ finish a = (d', obs)) ∨
      ∃ next, p.step handle fault d.rules = .inr next ∧
        d' = { d with rules := next.state, processor := pending next.rest } ∧
        obs = next.calls.map (fun call => .command call.1 call.2) ++ [.logged next.output] := by
  unfold Daemon.advance at h
  split at h
  · rename_i a hstep
    exact Or.inl ⟨a, hstep, h⟩
  · rename_i next hstep
    cases h
    exact Or.inr ⟨next, hstep, rfl, rfl⟩

/-- A wait on the queue that is over took the oldest event, or was woken with none. -/
theorem pktqueueWait_cases {timedOut : Bool} {q q' : PacketQueue} {taken : Option KnockEvent}
    (h : pktqueueWait timedOut q = some (taken, q')) :
    dequeue q = (taken, q') ∧ (taken = none → q.shuttingDown = true ∨ timedOut = true) := by
  unfold pktqueueWait at h
  split at h
  · cases h
  · rename_i hwoken
    have hout := Option.some.inj h
    refine ⟨hout, ?_⟩
    rintro rfl
    -- an empty queue alone does not end the wait
    have hcount : q.count = 0 := by
      unfold dequeue at hout
      split at hout
      · cases hout
      · omega
    by_contra hneither
    simp only [not_or, Bool.not_eq_true] at hneither
    exact hwoken ⟨hcount, hneither⟩

theorem processorStep_move (h : processorStep cfg input d = some (d', obs)) :
    ProcessorMove cfg input d d' obs := by
  cases hpc : d.processor with
  | check =>
    simp only [processorStep, hpc] at h
    cases h
    exact .check hpc
  | wait =>
    simp only [processorStep, hpc] at h
    split at h
    · cases h
    · rename_i event queue hwait
      cases h
      exact .take event queue (Or.inl hpc) (pktqueueWait_cases hwait).1
    · rename_i queue hwait
      cases h
      obtain ⟨hqueue, hwoken⟩ := pktqueueWait_cases hwait
      exact .empty queue (Or.inl hpc) hqueue fun _ => hwoken rfl
  | handle event =>
    simp only [processorStep, hpc] at h
    split at h
    · rename_i hresult
      cases h
      exact .completed event hpc hresult
    · rename_i hresult
      cases h
      exact .handled event hpc hresult
  | grant ip =>
    simp only [processorStep, hpc] at h
    cases h
    exact .grant ip hpc
  | opening ip p =>
    simp only [processorStep, hpc, Option.some.injEq] at h
    rcases advance_cases h with ⟨⟨fw, rc⟩, hstep, hfinish⟩ | ⟨next, hstep, rfl, rfl⟩
    · cases hfinish
      exact .opened ip p fw rc hpc hstep
    · exact .opening ip p next hpc hstep
  | drain =>
    simp only [processorStep, hpc, pktqueuePop] at h
    split at h
    · rename_i event queue hpop
      cases h
      exact .take event queue (Or.inr hpc) hpop
    · rename_i queue hpop
      cases h
      exact .empty queue (Or.inr hpc) hpop fun hwait => by rw [hpc] at hwait; cases hwait
  | tick =>
    simp only [processorStep, hpc] at h
    cases h
    exact .tick hpc
  | ticking p =>
    simp only [processorStep, hpc, Option.some.injEq] at h
    rcases advance_cases h with ⟨fw, hstep, hfinish⟩ | ⟨next, hstep, rfl, rfl⟩
    · cases hfinish
      exact .ticked p fw hpc hstep
    · exact .ticking p next hpc hstep
  | sweep =>
    simp only [processorStep, hpc] at h
    split at h
    · rename_i hdue
      cases h
      exact .sweep hpc hdue
    · rename_i hdue
      cases h
      exact .skipSweep hpc hdue
  | cleanup =>
    simp only [processorStep, hpc] at h
    cases h
    exact .cleanup hpc
  | join =>
    simp only [processorStep, hpc] at h
    split at h
    · rename_i hstopped
      cases h
      exact .join hpc hstopped
    · cases h
  | shutdown p =>
    simp only [processorStep, hpc, Option.some.injEq] at h
    rcases advance_cases h with ⟨fw, hstep, hfinish⟩ | ⟨next, hstep, rfl, rfl⟩
    · cases hfinish
      exact .done p fw hpc hstep
    · exact .shutdown p next hpc hstep
  | done =>
    simp only [processorStep, hpc] at h
    cases h

end Processor

end Knockd
