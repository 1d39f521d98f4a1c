import Knockd.Daemon.Access
import Knockd.Daemon.Stopping
import Knockd.Firewall.Sync

/-!
# How long a knock waits

Nothing in the main loop waits for anybody else once there is a knock in the queue. What it
does between two looks at the queue is bounded: one firewall call at most, of which
`firewall_tick` is the longest, with its sixteen deletions. And the queue is served in
order. So however the threads are scheduled and whatever else comes in, every knock the
queue has taken is handled within a fixed number of steps of the main thread, as long as
the daemon is not told to stop.

What is counted are the steps of the model: a turn of the loop, an iptables command and a
log line of a firewall call are one step each.

## Main definitions

* `mainSteps` — how many of the actions are steps of the main thread
* `ProcessorPc.BackWithin` — how far the main thread is from the queue
* `Awaited` — how far a knock is from being handled

## Main results

* `firewallOpen_within`, `firewallTick_within` — the firewall calls are short
* `DaemonRun.backWithin` — the main thread never is further from the queue than a tick
* `distance_awaited` — every step of the main thread brings a queued knock nearer
* `knocks_are_handled` — every knock the queue took is handled in time
-/

namespace Knockd

open Effect.Prog (Within)

/-- The longest `firewall_open`, in steps. -/
def openSteps : ℕ := 4

/-- The longest `firewall_tick`: five steps for each of the deletions it may make. -/
def tickSteps : ℕ := 5 * maxExpiryPerTick

/-- From the tick back to the queue: the call, and the sweep. -/
def roundSteps : ℕ := tickSteps + 4

/-- What one knock costs: it is taken, handled, and the firewall opened if need be. -/
def knockSteps : ℕ := openSteps + 4

/-- Is this a step of the main thread? -/
def Action.isMain : Action → Bool
  | .processor _ => true
  | _ => false

/-- How many of the actions are steps of the main thread. -/
def mainSteps (actions : List Action) : ℕ := actions.countP Action.isMain

/-- The main thread is in its loop, and looks at the queue again after at most so many
steps. -/
def ProcessorPc.BackWithin (n : ℕ) : ProcessorPc → Prop
  | .wait => True
  | .drain => True
  | .handle _ => openSteps + 3 ≤ n
  | .grant _ => openSteps + 2 ≤ n
  | .opening _ p => ∃ m, p.Within m ∧ m + 1 ≤ n
  | .tick => roundSteps ≤ n
  | .ticking p => ∃ m, p.Within m ∧ m + 3 ≤ n
  | .sweep => 2 ≤ n
  | .check => 1 ≤ n
  | _ => False

/-! ### The firewall calls -/

section Calls

variable {cfg : Config}

theorem runIptables_within (c : Command) (quiet : Bool) : (runIptables cfg c quiet).Within 3 := by
  refine .tell _ (.call c fun response => ?_)
  change Within 1 (if response.ok = true then _ else _)
  split
  · exact .ret 1 0
  · exact .tell _ (.ret 0 (-1))

theorem firewallOpen_within (now : ℤ) (ip : UInt32) (fw : Firewall) :
    (firewallOpen cfg now ip fw).Within openSteps := by
  cases hgrants : fw.grants with
  | none =>
    simp only [firewallOpen, hgrants]
    exact .tell _ (.ret 3 _)
  | some grants =>
    simp only [firewallOpen, hgrants]
    cases findGrant grants ip with
    | some i => exact .tell _ (.ret 3 _)
    | none =>
      cases freeGrant grants with
      | none => exact .tell _ (.ret 3 _)
      | some i =>
        -- the command, and one line about how it went
        refine Within.bind (n := 1) (runIptables_within (.insertGrant ip cfg.protectedPort) false)
          fun rc => ?_
        split
        · exact .tell _ (.ret 0 _)
        · exact .tell _ (.ret 0 _)

theorem closeExpired_within (ips : List UInt32) :
    (closeExpired cfg ips).Within (5 * ips.length) := by
  induction ips with
  | nil => exact .ret 0 ()
  | cons ip ips ih =>
    have hcount : 5 * (ip :: ips).length = 3 + (5 * ips.length + 1) + 1 := by
      rw [List.length_cons]
      omega
    rw [hcount]
    simp only [closeExpired, Effect.Prog.say_bind]
    refine .tell _ (Within.bind (runIptables_within (.deleteGrant ip cfg.protectedPort) false)
      fun rc => ?_)
    split
    · exact .tell _ ih
    · exact ih.mono (Nat.le_succ _)

theorem firewallTick_within (now : ℤ) (fw : Firewall) :
    (firewallTick cfg now fw).Within tickSteps := by
  cases hgrants : fw.grants with
  | none =>
    simp only [firewallTick, hgrants]
    exact .ret _ fw
  | some grants =>
    simp only [firewallTick, hgrants]
    refine Within.bind (n := 0) ((closeExpired_within _).mono ?_) fun _ => .ret 0 _
    rw [length_expireScan]
    exact Nat.mul_le_mul_left 5 (min_le_right _ _)

end Calls

/-! ### Back to the queue -/

section Loop

variable {cfg : Config} {d d' : Daemon} {obs : List Obs} {pc : ProcessorPc} {m n : ℕ}

theorem ProcessorPc.BackWithin.mono (h : pc.BackWithin m) (hle : m ≤ n) : pc.BackWithin n := by
  cases pc with
  | opening ip p =>
    obtain ⟨k, hp, hk⟩ := h
    exact ⟨k, hp, hk.trans hle⟩
  | ticking p =>
    obtain ⟨k, hp, hk⟩ := h
    exact ⟨k, hp, hk.trans hle⟩
  | handle event => exact le_trans h hle
  | grant ip => exact le_trans h hle
  | tick => exact le_trans h hle
  | sweep => exact le_trans h hle
  | check => exact le_trans h hle
  | wait => trivial
  | drain => trivial
  | _ => exact h.elim

/-- What a step of the main thread does while it is in its loop: it takes a knock off the
queue, or finds none, or gets nearer to the queue, and if it had a knock in hand then it has
handled it; or it finds the flag cleared and leaves. -/
inductive LoopMove (cfg : Config) (n : ℕ) (d d' : Daemon) (obs : List Obs) : Prop
  | take (event : KnockEvent) (hpc : d.processor = .wait ∨ d.processor = .drain)
      (hpc' : d'.processor = .handle event) (hobs : obs = [])
  | empty (hpc : d.processor = .wait ∨ d.processor = .drain) (hqueue : (dequeue d.queue).1 = none)
      (hpc' : d'.processor = .tick) (hobs : obs = [])
  | nearer (m : ℕ) (hm : m + 1 ≤ n) (hback : d'.processor.BackWithin m)
      (hhand : d'.processor.inHand = none)
      (hcount : (handledRecords (flowTrace cfg d.ifindex obs)).length =
        d.processor.inHand.toList.length)
  | leave (hpc : d.processor = .check) (hpc' : d'.processor = .cleanup)
      (hdown : d'.running = false) (hobs : obs = [])

theorem processorMove_loop {input : ProcessorInput} (h : ProcessorMove cfg input d d' obs)
    (hback : d.processor.BackWithin n) : LoopMove cfg n d d' obs := by
  cases h with
  | take event queue hpc hqueue => exact .take event hpc rfl rfl
  | empty queue hpc hqueue =>
    refine .empty hpc ?_ rfl rfl
    rw [hqueue]
  | check hpc =>
    rw [hpc] at hback
    cases d.running with
    | false => exact .leave hpc rfl rfl rfl
    | true => exact .nearer (n - 1) (Nat.sub_add_cancel hback).le trivial rfl (by rw [hpc]; rfl)
  | handled event hpc =>
    -- no grant is due, and the steps set aside for it are left over
    rw [hpc] at hback
    have hle : openSteps + 3 ≤ n := hback
    exact .nearer (n - 1) (by omega) trivial rfl (by rw [hpc]; rfl)
  | completed event hpc =>
    rw [hpc] at hback
    have hle : openSteps + 3 ≤ n := hback
    exact .nearer (openSteps + 2) (by omega) (le_refl (openSteps + 2)) rfl (by rw [hpc]; rfl)
  | grant ip hpc =>
    -- the call takes its steps, and one more to end
    rw [hpc] at hback
    have hle : openSteps + 2 ≤ n := hback
    exact .nearer (openSteps + 1) (by omega) ⟨openSteps, firewallOpen_within .., le_rfl⟩ rfl
      (by rw [hpc]; rfl)
  | opening ip p next hpc hstep =>
    rw [hpc] at hback
    obtain ⟨k, hp, hk⟩ := hback
    obtain ⟨k', rfl, hrest⟩ := hp.step hstep
    exact .nearer (k' + 1) (by omega) ⟨k', hrest, le_rfl⟩ rfl (by rw [hpc, flowTrace_call]; rfl)
  | opened ip p fw rc hpc =>
    rw [hpc] at hback
    obtain ⟨k, -, hk⟩ := hback
    exact .nearer (n - 1) (by omega) trivial rfl (by rw [hpc]; rfl)
  | tick hpc =>
    -- behind the call come its end, the sweep and the test of the flag
    rw [hpc] at hback
    have hle : roundSteps ≤ n := hback
    exact .nearer (tickSteps + 3) hle ⟨tickSteps, firewallTick_within .., le_rfl⟩ rfl
      (by rw [hpc]; rfl)
  | ticking p next hpc hstep =>
    rw [hpc] at hback
    obtain ⟨k, hp, hk⟩ := hback
    obtain ⟨k', rfl, hrest⟩ := hp.step hstep
    exact .nearer (k' + 3) (by omega) ⟨k', hrest, le_rfl⟩ rfl (by rw [hpc, flowTrace_call]; rfl)
  | ticked p fw hpc =>
    rw [hpc] at hback
    obtain ⟨k, -, hk⟩ := hback
    exact .nearer 2 (by omega) (le_refl 2) rfl (by rw [hpc]; rfl)
  | sweep hpc =>
    rw [hpc] at hback
    exact .nearer 1 hback (le_refl 1) rfl (by rw [hpc]; rfl)
  | skipSweep hpc =>
    rw [hpc] at hback
    exact .nearer 1 hback (le_refl 1) rfl (by rw [hpc]; rfl)
  -- the cleanup is no part of the loop
  | cleanup hpc =>
    rw [hpc] at hback
    exact hback.elim
  | join hpc =>
    rw [hpc] at hback
    exact hback.elim
  | shutdown p next hpc =>
    rw [hpc] at hback
    exact hback.elim
  | done p fw hpc =>
    rw [hpc] at hback
    exact hback.elim

/-- A step of a daemon that keeps running keeps the main thread in its loop, and never
further from the queue than a tick. -/
theorem backWithin_step {action : Action} (h : d.step cfg action = some (d', obs))
    (hback : d.running = true → d.processor.BackWithin roundSteps)
    (hrunning : d'.running = true) : d'.processor.BackWithin roundSteps := by
  -- the flag never rises again
  have hup : d.running = true := by
    by_contra hdown
    rw [running_step (Bool.eq_false_iff.mpr hdown) h] at hrunning
    cases hrunning
  cases action with
  | signal =>
    cases h
    cases hrunning
  | capture recv now =>
    rw [(captureMove_frame (captureStep_move h)).2.1]
    exact hback hup
  | processor input =>
    cases processorMove_loop (processorStep_move h) (hback hup) with
    | take event hpc hpc' =>
      rw [hpc']
      exact (by decide : openSteps + 3 ≤ roundSteps)
    | empty hpc hqueue hpc' =>
      rw [hpc']
      exact le_refl roundSteps
    | nearer m hm hback' => exact hback'.mono (by omega)
    | leave hpc hpc' hdown =>
      rw [hdown] at hrunning
      cases hrunning

/-- The main thread of a running daemon is never further from the queue than a tick. -/
theorem DaemonRun.backWithin (r : DaemonRun) (hrunning : r.final.running = true) :
    r.final.processor.BackWithin roundSteps :=
  Machine.state_invariant_of_run
    (P := fun d => d.running = true → d.processor.BackWithin roundSteps)
    (fun _ _ _ _ hback hstep => backWithin_step hstep hback)
    (fun _ => (by decide : 1 ≤ roundSteps)) r.runs hrunning

/-- The capture thread handles no knock. -/
theorem captureMove_handledRecords {recv : Recv} {now : ℤ}
    (h : CaptureMove cfg recv now d d' obs) :
    handledRecords (flowTrace cfg d.ifindex obs) = [] := by
  cases h with
  | knock f event name hpc hrecv hknock => simp [flowTrace, Obs.toFlow, handledRecords, hknock]
  | skip f hpc hrecv hknock => simp [flowTrace, Obs.toFlow, handledRecords, hknock]
  | _ => rfl

/-- A main thread in its loop can go on, unless the queue has nothing for it. -/
theorem isSome_processorStep (hback : d.processor.BackWithin n)
    (hqueue : d.processor = .wait → (dequeue d.queue).1 ≠ none) (input : ProcessorInput) :
    (processorStep cfg input d).isSome := by
  cases hpc : d.processor with
  | wait =>
    rcases dequeue_cases d.queue with hnone | ⟨event, q', hsome, hless, -⟩
    · refine absurd ?_ (hqueue hpc)
      rw [hnone]
    · have hcount : d.queue.count ≠ 0 := by omega
      simp [processorStep, hpc, pktqueueWait, hcount, hsome]
  | handle event =>
    simp only [processorStep, hpc]
    split <;> rfl
  | drain =>
    simp only [processorStep, hpc]
    split <;> rfl
  | sweep =>
    simp only [processorStep, hpc]
    split <;> rfl
  | cleanup => simp only [hpc, ProcessorPc.BackWithin] at hback
  | join => simp only [hpc, ProcessorPc.BackWithin] at hback
  | shutdown p => simp only [hpc, ProcessorPc.BackWithin] at hback
  | done => simp only [hpc, ProcessorPc.BackWithin] at hback
  | _ => simp only [processorStep, hpc, Option.isSome_some]

end Loop

/-! ### From the queue to the state machine -/

/-- How many of the first `taken` knocks are still in the queue. -/
def stillQueued (taken : ℕ) (d : Daemon) (tr : List FlowObs) : ℕ :=
  taken - ((handledRecords tr).length + d.processor.inHand.toList.length)

/-- One of the first `taken` knocks has not been handled yet, and after `n` more steps of the
main thread they all have been. -/
structure Awaited (cfg : Config) (ifindex : UInt32) (taken n : ℕ) (d : Daemon)
    (seen : List Obs) : Prop where
  running : d.running = true
  queue : d.queue.Inv
  ifindex_eq : d.ifindex = ifindex
  flow : FlowInv cfg d.flow (flowTrace cfg ifindex seen)
  taken_le : taken ≤ (enqueued (flowTrace cfg ifindex seen)).length
  unhandled : (handledRecords (flowTrace cfg ifindex seen)).length < taken
  near : ∃ k, d.processor.BackWithin k ∧
    k + knockSteps * stillQueued taken d (flowTrace cfg ifindex seen) ≤ n

/-- The daemon has been told to stop, or the first `taken` knocks have been handled. -/
def StoppedOrHandled (cfg : Config) (ifindex : UInt32) (taken : ℕ) (d : Daemon)
    (seen : List Obs) : Prop :=
  d.running = false ∨ taken ≤ (handledRecords (flowTrace cfg ifindex seen)).length

section Waiting

variable {cfg : Config} {ifindex : UInt32} {taken n m : ℕ} {d d' : Daemon} {seen obs : List Obs}

/-- Every knock the queue took is handled, in hand or in the queue. -/
theorem FlowInv.length_enqueued {f : Flow} {tr : List FlowObs} (h : FlowInv cfg f tr) :
    (enqueued tr).length = (handledRecords tr).length + f.inHand.toList.length +
      f.queued.length := by
  have hlength := congrArg List.length h.enqueued_eq
  simpa [Nat.add_assoc] using hlength

/-- A main thread at the queue finds the knock that is awaited, or the one before it. -/
theorem Awaited.queue_ne_none (h : Awaited cfg ifindex taken n d seen)
    (hpc : d.processor = .wait ∨ d.processor = .drain) : (dequeue d.queue).1 ≠ none := by
  intro hnone
  have hhand : d.flow.inHand = none := by
    rcases hpc with hpc | hpc <;> simp only [Daemon.flow, hpc, ProcessorPc.inHand]
  have hempty : d.flow.queued = [] := (dequeue_spec h.queue).2.2.1.mp hnone
  have hlength := h.flow.length_enqueued
  simp only [hhand, hempty, Option.toList_none, List.length_nil] at hlength
  have hle := h.taken_le
  have hlt := h.unhandled
  omega

/-- It takes the main thread one step more at least. -/
theorem Awaited.pos (h : Awaited cfg ifindex taken n d seen) : 0 < n := by
  obtain ⟨k, hback, hn⟩ := h.near
  cases hhand : d.processor.inHand with
  | some event =>
    cases hpc : d.processor with
    | handle event =>
      rw [hpc] at hback
      exact lt_of_lt_of_le (Nat.succ_pos _) (hback.trans ((Nat.le_add_right ..).trans hn))
    | _ => simp [hpc, ProcessorPc.inHand] at hhand
  | none =>
    -- it is still in the queue, and costs at least the steps of one knock
    have hleft : 0 < stillQueued taken d (flowTrace cfg ifindex seen) := by
      simpa [stillQueued, hhand] using Nat.sub_pos_of_lt h.unhandled
    exact lt_of_lt_of_le (Nat.mul_pos (by decide) hleft) ((Nat.le_add_left ..).trans hn)

/-- What has to be shown of a step: how near it leaves the main thread. -/
theorem Awaited.next (h : Awaited cfg ifindex taken n d seen) {action : Action}
    (hstep : d.step cfg action = some (d', obs))
    (hnear : d'.running = true → ∃ k, d'.processor.BackWithin k ∧
      k + knockSteps * stillQueued taken d' (flowTrace cfg ifindex (seen ++ obs)) ≤ m) :
    StoppedOrHandled cfg ifindex taken d' (seen ++ obs) ∨
      Awaited cfg ifindex taken m d' (seen ++ obs) := by
  cases hrunning : d'.running with
  | false => exact .inl (.inl hrunning)
  | true =>
    by_cases hhandled : taken ≤ (handledRecords (flowTrace cfg ifindex (seen ++ obs))).length
    · exact .inl (.inr hhandled)
    · obtain ⟨hqueue, hif, hmove⟩ := step_flow h.queue hstep
      rw [h.ifindex_eq] at hif hmove
      refine .inr ⟨hrunning, hqueue, hif, ?_, ?_, not_le.mp hhandled, hnear hrunning⟩
      · rw [flowTrace_append]
        exact h.flow.step hmove
      · rw [flowTrace_append, enqueued_append, List.length_append]
        exact h.taken_le.trans (Nat.le_add_right ..)

/-- A step of the main thread brings the awaited knock nearer. -/
theorem Awaited.near_processorStep (h : Awaited cfg ifindex taken n d seen)
    {input : ProcessorInput} (hstep : processorStep cfg input d = some (d', obs))
    (hrunning : d'.running = true) :
    ∃ k, d'.processor.BackWithin k ∧
      k + knockSteps * stillQueued taken d' (flowTrace cfg ifindex (seen ++ obs)) + 1 ≤ n := by
  obtain ⟨k, hback, hn⟩ := h.near
  have hcount : knockSteps = openSteps + 3 + 1 := rfl
  cases processorMove_loop (processorStep_move hstep) hback with
  | leave hpc hpc' hdown =>
    rw [hdown] at hrunning
    cases hrunning
  | take event hpc hpc' hobs =>
    -- one knock less in the queue, and eight steps less for that
    have hhand : d.processor.inHand = none := by
      rcases hpc with hpc | hpc <;> rw [hpc] <;> rfl
    have hhand' : d'.processor.inHand = some event := by
      rw [hpc']
      rfl
    have hleft : stillQueued taken d (flowTrace cfg ifindex seen) =
        stillQueued taken d' (flowTrace cfg ifindex (seen ++ obs)) + 1 := by
      have hlt := h.unhandled
      simp only [stillQueued, hobs, List.append_nil, hhand, hhand', Option.toList_none,
        Option.toList_some, List.length_nil, List.length_singleton]
      omega
    refine ⟨openSteps + 3, hpc' ▸ le_refl (openSteps + 3), ?_⟩
    rw [hleft, Nat.mul_add] at hn
    omega
  | empty hpc hqueue => exact absurd hqueue (h.queue_ne_none hpc)
  | nearer m hm hback' hhand hcount =>
    have hleft : stillQueued taken d' (flowTrace cfg ifindex (seen ++ obs)) =
        stillQueued taken d (flowTrace cfg ifindex seen) := by
      rw [h.ifindex_eq] at hcount
      simp only [stillQueued, flowTrace_append, handledRecords_append, List.length_append, hhand,
        hcount, Option.toList_none, List.length_nil, Nat.add_zero]
    refine ⟨m, hback', ?_⟩
    rw [hleft]
    omega

/-- The other thread may fill the queue, but it does not put off what is in it. -/
theorem Awaited.near_captureStep (h : Awaited cfg ifindex taken n d seen) {recv : Recv} {now : ℤ}
    (hstep : captureStep cfg recv now d = some (d', obs)) :
    ∃ k, d'.processor.BackWithin k ∧
      k + knockSteps * stillQueued taken d' (flowTrace cfg ifindex (seen ++ obs)) ≤ n := by
  have hmove := captureStep_move hstep
  obtain ⟨-, hpc, -⟩ := captureMove_frame hmove
  have hnone := captureMove_handledRecords hmove
  rw [h.ifindex_eq] at hnone
  have hleft : stillQueued taken d' (flowTrace cfg ifindex (seen ++ obs)) =
      stillQueued taken d (flowTrace cfg ifindex seen) := by
    simp only [stillQueued, flowTrace_append, handledRecords_append, hnone, List.append_nil, hpc]
  rw [hleft, hpc]
  exact h.near

/-- Until they are handled or the daemon is told to stop, every step of the main thread brings
the knocks nearer to it, and no other step puts them off. -/
theorem distance_awaited (cfg : Config) (ifindex : UInt32) (taken : ℕ) :
    Machine.Distance (Daemon.step cfg) Action.isMain (StoppedOrHandled cfg ifindex taken)
      (Awaited cfg ifindex taken) where
  stays := by
    rintro d seen action d' obs (hdown | hhandled) hstep
    · exact .inl (running_step hdown hstep)
    · refine .inr (hhandled.trans ?_)
      rw [flowTrace_append, handledRecords_append, List.length_append]
      exact Nat.le_add_right ..
  nears := by
    intro n d seen action d' obs h hstep
    cases action with
    | signal =>
      cases hstep
      exact .inl (.inl rfl)
    | capture recv now =>
      refine (h.next hstep fun _ => h.near_captureStep hstep).imp_right fun haway => ?_
      exact ⟨n, le_rfl, haway⟩
    | processor input =>
      have hpos := h.pos
      refine (h.next (m := n - 1) hstep fun hrunning => ?_).imp_right fun haway => ?_
      · obtain ⟨k, hback, hk⟩ := h.near_processorStep hstep hrunning
        exact ⟨k, hback, Nat.le_sub_one_of_lt hk⟩
      · exact ⟨n - 1, (Nat.sub_add_cancel hpos).le, haway⟩

end Waiting

theorem DaemonRun.queue_inv (r : DaemonRun) :
    r.final.queue.Inv ∧ r.final.ifindex = r.ifindex := by
  refine Machine.state_invariant_of_run (P := fun d => d.queue.Inv ∧ d.ifindex = r.ifindex)
    (fun d action d' obs hinv hstep => ?_) ⟨pktqueueInit_inv, rfl⟩ r.runs
  obtain ⟨hqueue, hif, -⟩ := step_flow hinv.1 hstep
  exact ⟨hqueue, hif.trans hinv.2⟩

/-- **Every knock is handled in time.** Take any point of any run, and any later point at which
the daemon still runs. By then every knock the queue had taken at the first point is handled,
in the order in which the queue took them; or the main thread has taken fewer steps since
than one tick and the knocks in the queue cost, and it can take the next one at once, whatever
the clock, the timeouts and the packet filter do. -/
theorem knocks_are_handled (r : DaemonRun) {more : List Action} {d : Daemon} {seen : List Obs}
    (h : r.final.run r.cfg more = some (d, seen)) (hrunning : d.running = true) :
    (enqueued r.trace).map Prod.fst <+:
        (handledRecords (flowTrace r.cfg r.ifindex (r.seen ++ seen))).map KnockRecord.event ∨
      mainSteps more < roundSteps + knockSteps * r.final.queue.count ∧
        ∀ input, (processorStep r.cfg input d).isSome := by
  have hflow : FlowInv r.cfg r.final.flow r.trace := flowInv_run r.runs
  have hlength := hflow.length_enqueued
  have hup : r.final.running = true := by
    by_contra hdown
    have hstopped := Machine.state_invariant_of_run (P := fun d => d.running = false)
      (fun _ _ _ _ hdown hstep => running_step hdown hstep) (Bool.eq_false_iff.mpr hdown) h
    rw [hstopped] at hrunning
    cases hrunning
  have hbegin : StoppedOrHandled r.cfg r.ifindex (enqueued r.trace).length r.final r.seen ∨
      Awaited r.cfg r.ifindex (enqueued r.trace).length
        (roundSteps + knockSteps * r.final.queue.count) r.final r.seen := by
    by_cases hhandled : (enqueued r.trace).length ≤ (handledRecords r.trace).length
    · exact .inl (.inr hhandled)
    · obtain ⟨hqueue, hif⟩ := r.queue_inv
      refine .inr ⟨hup, hqueue, hif, hflow, le_rfl, not_le.mp hhandled, roundSteps,
        r.backWithin hup, ?_⟩
      have hleft : stillQueued (enqueued r.trace).length r.final r.trace = r.final.queue.count := by
        rw [stillQueued, hlength, ← PacketQueue.length_events]
        exact Nat.add_sub_cancel_left ..
      exact Nat.add_le_add_left (Nat.mul_le_mul_left _ hleft.le) _
  -- the ranking rule takes what holds at the first point to the later one
  have hend := hbegin.elim
    (fun hdone => .inl (Machine.invariant_of_run
      (fun _ _ _ _ _ hdone hstep => (distance_awaited ..).stays hdone hstep) hdone h))
    (fun haway => (distance_awaited ..).run haway h)
  rcases hend with (hdown | hhandled) | ⟨m, hm, haway⟩
  · rw [hdown] at hrunning
    cases hrunning
  · left
    have hall := (flowInv_run (Machine.run_append r.runs h)).enqueued_eq
    rw [List.append_assoc] at hall
    have htrace : (enqueued r.trace).map Prod.fst <+:
        (enqueued (flowTrace r.cfg r.ifindex (r.seen ++ seen))).map Prod.fst := by
      rw [flowTrace_append, enqueued_append, List.map_append]
      exact List.prefix_append ..
    refine List.prefix_of_prefix_length_le htrace (hall ▸ List.prefix_append ..) ?_
    rw [List.length_map, List.length_map]
    exact hhandled
  · right
    have hpos := haway.pos
    obtain ⟨k, hback, -⟩ := haway.near
    refine ⟨?_, isSome_processorStep hback fun hwait => haway.queue_ne_none (.inl hwait)⟩
    change m + mainSteps more ≤ _ at hm
    omega

/-- The main thread goes on for as long as it may take to handle one knock, and no further
knock comes. -/
def mainGoesOn : List Action :=
  List.replicate (roundSteps + knockSteps) (.processor ⟨5, 5, true, none⟩)

theorem mainGoesOn_runs :
    (Daemon.startDefault.run .default (captureKnock 10 7000 5)).map (fun out =>
      (enqueued (flowTrace .default 0 out.2), out.1.queue.count,
        (out.1.run .default mainGoesOn).map fun out => out.1.running)) =
      some ([(⟨10, 7000⟩, 5)], 1, some true) := by
  decide +kernel

theorem knocks_are_handled_mainGoesOn : ∃ r : DaemonRun, ∃ d seen,
    r.final.run r.cfg mainGoesOn = some (d, seen) ∧ (enqueued r.trace).length = 1 ∧
      1 ≤ (handledRecords (flowTrace r.cfg r.ifindex (r.seen ++ seen))).length := by
  obtain ⟨⟨d, seen⟩, hrun, hout⟩ := Option.map_eq_some_iff.mp mainGoesOn_runs
  simp only [Prod.mk.injEq] at hout
  obtain ⟨henqueued, hcount, hmore⟩ := hout
  obtain ⟨⟨d', seen'⟩, hrun', hrunning⟩ := Option.map_eq_some_iff.mp hmore
  let r : DaemonRun := .ofDefault (captureKnock 10 7000 5) d seen hrun
  have hone : (enqueued r.trace).length = 1 := congrArg List.length henqueued
  refine ⟨r, d', seen', hrun', hone, ?_⟩
  rcases knocks_are_handled r hrun' hrunning with hhandled | ⟨hsteps, -⟩
  · have hle := hhandled.length_le
    rwa [List.length_map, List.length_map, hone] at hle
  · have hcount' : r.final.queue.count = 1 := hcount
    rw [hcount'] at hsteps
    exact absurd hsteps (by decide)

end Knockd
