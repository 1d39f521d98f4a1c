import Knockd.Daemon.Lifetime
import Knockd.Daemon.Window
import Knockd.Knocker.Progress
import Knockd.Firewall.Sync

/-!
# Access with the sequence

Nobody gets in without the sequence; this file is about the other direction. An address
that knocks the sequence in order and in time is let in, whatever everybody else sends in
the meantime, provided the daemon's three bounded tables are not the obstacle: the queue
took every knock, and no more addresses knocked than there are client slots. The third
table, that of the grants, is as large as the second, and then never full either.

The argument goes along the path of the knocks. The state machine sees the calls of a run
of its own, at clock readings of the run, and completes the sequence; the completion calls
`firewall_open`; and to the packet filter the run is a lifetime, in which that call finds a
free slot and issues the insertion.

## Main results

* `serve_insertGrant` — a lifetime that opens an address issues the insertion
* `lastResult_of_sequence` — a newcomer that knocks the sequence in time completes it
* `exists_knockerCalls` — the state machine reads the clock of the run
* `access_with_sequence` — the three together
-/

namespace Knockd

open Effect.Prog (feed run_bind)

/-! ### The grant table has room -/

/-- The address a call opens. -/
def FirewallCall.opens : FirewallCall → Option UInt32
  | .open _ ip => some ip
  | _ => none

/-- The grants in use afterwards are those from before and the one that was opened. -/
structure GrantsStep (call : FirewallCall) (grants grants' : List Grant) : Prop where
  nodup : (activeIps grants').Nodup
  subset : activeIps grants' ⊆ activeIps grants ++ call.opens.toList
  length : grants'.length = grants.length

section Grants

variable {cfg : Config} {grants grants' : List Grant} {chain chain' : List Rule}
  {faults : ℕ → Option Fault} {call : FirewallCall} {rc : ℤ} {ip : UInt32} {added : Bool}
  {rules : Ruleset}

theorem FirewallMove.grantsStep
    (h : FirewallMove cfg grants chain faults call grants' chain' rc)
    (hnodup : (activeIps grants).Nodup) : GrantsStep call grants grants' := by
  cases h with
  | @extend now ip i g hslot hentry =>
    have hsame : activeIps (grants.set i { g with expiresAt := now + cfg.accessTimeout }) =
        activeIps grants := SlotTable.liveKeys_set_of_eq hslot rfl fun _ => rfl
    exact ⟨hsame ▸ hnodup, hsame ▸ List.subset_append_left _ _, List.length_set⟩
  | refuse => exact ⟨hnodup, List.subset_append_left _ _, rfl⟩
  | @insertFailed now ip i g hslot hfree hentry hfault =>
    have hsame : activeIps (grants.set i ⟨ip, now + cfg.accessTimeout, false⟩) =
        activeIps grants :=
      SlotTable.liveKeys_set_of_eq hslot hfree.symm fun hlive => by simp [hfree] at hlive
    exact ⟨hsame ▸ hnodup, hsame ▸ List.subset_append_left _ _, List.length_set⟩
  | @insert now ip i g hslot hfree hentry hfault =>
    have hmore : (activeIps (grants.set i ⟨ip, now + cfg.accessTimeout, true⟩)).Perm
        (ip :: activeIps grants) := SlotTable.liveKeys_set_claim hslot hfree rfl
    have hnew : ip ∉ activeIps grants := SlotTable.entry_eq_none_iff_notMem.mp hentry
    refine ⟨hmore.nodup_iff.mpr (hnodup.cons hnew), fun other hother => ?_, List.length_set⟩
    rcases List.mem_cons.mp (hmore.subset hother) with rfl | hother
    · exact List.mem_append_right _ (List.mem_singleton.mpr rfl)
    · exact List.mem_append_left _ hother
  | noGrant => exact ⟨hnodup, List.subset_append_left _ _, rfl⟩
  | @close ip i g rc hslot hentry =>
    obtain ⟨hlive, rfl⟩ := SlotTable.entry_live hentry
    have hless : (activeIps grants).Perm
        (g.ip :: activeIps (grants.set i { g with active := false })) :=
      SlotTable.liveKeys_set_release hslot hlive rfl
    refine ⟨(List.nodup_cons.mp (hless.nodup_iff.mp hnodup)).2, fun other hother => ?_,
      List.length_set⟩
    exact List.mem_append_left _ (hless.symm.subset (List.mem_cons_of_mem _ hother))
  | @tick now =>
    have hscan := activeIps_expireScan now maxExpiryPerTick grants
    refine ⟨(List.nodup_append.mp (hscan.nodup_iff.mp hnodup)).2.1, fun other hother => ?_, ?_⟩
    · exact List.mem_append_left _ (hscan.symm.subset (List.mem_append_right _ hother))
    · obtain ⟨seen, rest, rfl, hscan, -⟩ := expireScan_eq now maxExpiryPerTick grants
      rw [hscan]
      simp

/-- An address without a grant is let in, or at least `iptables` is asked to, if a slot is
free. -/
theorem firewallOpen_insertGrant (hentry : grantEntry grants ip = none)
    (hfree : ∃ g ∈ grants, g.active = false) (now : ℤ) :
    ∃ response, (Command.insertGrant ip cfg.protectedPort, response) ∈
      ((firewallOpen cfg now ip ⟨some grants, added⟩).run handle faults rules).calls := by
  have hfind : findGrant grants ip = none := SlotTable.lookup_eq_none_iff.mpr hentry
  unfold firewallOpen
  simp only [hfind]
  cases hslot : freeGrant grants with
  | none =>
    obtain ⟨g, hg, hinactive⟩ := hfree
    rw [active_of_freeGrant_none hslot g hg] at hinactive
    cases hinactive
  | some i =>
    simp only [runGrantRule, run_bind, runIptables_calls]
    exact ⟨_, List.mem_append_left _ (List.mem_singleton.mpr rfl)⟩

/-- **A lifetime that opens an address issues the insertion**, if its calls open no more
addresses than there are slots. -/
theorem serve_insertGrant (rules : Ruleset) (known : List UInt32) (calls : List FirewallCall)
    (hnodup : (activeIps grants).Nodup) (hknown : activeIps grants ⊆ known) (hip : ip ∉ known)
    (hroom : (known ++ calls.filterMap FirewallCall.opens).toFinset.card ≤ grants.length)
    (hopens : ip ∈ calls.filterMap FirewallCall.opens) :
    ∃ response, (Command.insertGrant ip cfg.protectedPort, response) ∈
      ((serve cfg calls ⟨some grants, added⟩).run handle faults
        { rules with knockd := some chain }).calls := by
  induction calls generalizing grants chain faults known with
  | nil => cases hopens
  | cons call calls ih =>
    simp only [serve, run_bind]
    by_cases hcall : call.opens = some ip
    · -- the first call for the address
      cases call with
      | close other => cases hcall
      | tick now => cases hcall
      | «open» now other =>
        cases hcall
        have hnew : ip ∉ activeIps grants := fun hmem => hip (hknown hmem)
        have hentry : grantEntry grants ip = none := SlotTable.entry_eq_none_iff_notMem.mpr hnew
        have hfree : ∃ g ∈ grants, g.active = false :=
          SlotTable.exists_dead_of_card_le hnodup (List.subset_append_of_subset_left _ hknown)
            (List.mem_append_right _ hopens) hnew hroom
        obtain ⟨response, hmem⟩ := firewallOpen_insertGrant hentry hfree now
        exact ⟨response, List.mem_append_left _ hmem⟩
    · obtain ⟨grants₁, chain₁, rc, hmove, hstep⟩ :=
        firewallStep_move cfg added rules grants chain ⟨call, faults⟩
      simp only [firewallStep, FirewallStep.outcome, FirewallState.of, Prod.mk.injEq,
        FirewallState.mk.injEq] at hstep
      obtain ⟨⟨hvalue, hstate⟩, -⟩ := hstep
      obtain ⟨hnodup₁, hsubset, hlength⟩ := hmove.grantsStep hnodup
      have hrest : ip ∈ calls.filterMap FirewallCall.opens := by
        cases hnone : call.opens with
        | none => rwa [List.filterMap_cons_none hnone] at hopens
        | some other =>
          rw [List.filterMap_cons_some hnone, List.mem_cons] at hopens
          exact hopens.resolve_left fun heq => hcall (heq ▸ hnone)
      have hsame : known ++ (call :: calls).filterMap FirewallCall.opens =
          known ++ call.opens.toList ++ calls.filterMap FirewallCall.opens := by
        cases hnone : call.opens with
        | none => simp [List.filterMap_cons_none hnone]
        | some other => simp [List.filterMap_cons_some hnone]
      obtain ⟨response, hmem⟩ := ih (known ++ call.opens.toList) hnodup₁
        (fun x hx => by
          rcases List.mem_append.mp (hsubset hx) with hx | hx
          · exact List.mem_append_left _ (hknown hx)
          · exact List.mem_append_right _ hx)
        (fun hmem => by
          rcases List.mem_append.mp hmem with hmem | hmem
          · exact hip hmem
          · exact hcall (Option.mem_toList.mp hmem))
        (by rwa [hlength, ← hsame]) hrest
      rw [hvalue, hstate]
      exact ⟨response, List.mem_append_right _ hmem⟩

end Grants

/-! ### The client table has room -/

/-- The address a call comes from, if it is a knock. -/
def KnockerCall.source : KnockerCall → Option UInt32
  | .process _ _ src _ => some src
  | .cleanup _ => none

section Newcomer

variable {cfg : Config} {t : ClientTable} {ip : UInt32} {calls : List KnockerCall}

/-- The records of a run are about its knocks, in order. -/
theorem ips_runFrom (cfg : Config) (t : ClientTable) (calls : List KnockerCall) :
    (knockerRunFrom cfg t calls).2.map KnockRecord.ip = calls.filterMap KnockerCall.source := by
  induction calls generalizing t with
  | nil => rfl
  | cons call calls ih =>
    simp only [knockerRunFrom, List.map_append, ih]
    cases call <;> rfl

theorem ownRecords_runFrom (cfg : Config) (t : ClientTable) (ip : UInt32)
    (calls : List KnockerCall) :
    (ownRecords ip (knockerRunFrom cfg t calls).2).map (fun r => (r.time, r.port)) =
      ownKnocks ip calls := by
  induction calls generalizing t with
  | nil => rfl
  | cons call calls ih =>
    rcases call.isFrom_cases ip with ⟨now, nowAlloc, port, rfl⟩ | hfrom
    · rw [ownRecords_runFrom_cons_self, ownKnocks_cons_self, List.map_cons, ih]
      rfl
    · rw [ownRecords_runFrom_cons_of_not_isFrom hfrom, ownKnocks_cons_of_not_isFrom hfrom, ih]

/-- Who has an entry after a call had one before, or made the call. -/
theorem clientEntry_step_subset (hcfg : cfg.SequenceValid) (ht : TableInv cfg t)
    (call : KnockerCall) {other : UInt32}
    (h : clientEntry (knockerStep cfg t call).1 other ≠ none) :
    clientEntry t other ≠ none ∨ call.source = some other := by
  rcases call.isFrom_cases other with ⟨now, nowAlloc, port, rfl⟩ | hfrom
  · exact .inr rfl
  · rcases clientEntry_step_of_not_isFrom hcfg ht hfrom with hsame | ⟨c, hc, -⟩
    · exact .inl (hsame ▸ h)
    · exact .inl (by rw [hc]; exact Option.some_ne_none c)

/-- **A newcomer that knocks the sequence in time completes it**, if no more addresses knock
than there are slots. -/
theorem lastResult_of_sequence (hcfg : cfg.SequenceValid) (ht : TableInv cfg t)
    (hentry : clientEntry t ip = none) (known : List UInt32)
    (hknown : ∀ other, clientEntry t other ≠ none → other ∈ known)
    (hroom : (known ++ calls.filterMap KnockerCall.source).toFinset.card ≤ cfg.maxClients.toNat)
    (hmono : Nondecreasing calls) (hports : (ownKnocks ip calls).map Prod.snd = cfg.sequence)
    (htimes : WithinWindow cfg ((ownKnocks ip calls).map Prod.fst)) :
    lastResult ip (knockerRunFrom cfg t calls).2 = some .complete := by
  have hlen := hcfg.length_sequence
  have htwo := hcfg.two_le_len
  induction calls generalizing t known with
  | nil =>
    rw [← hports] at hlen
    simp only [ownKnocks, List.filterMap_nil, List.map_nil, List.length_nil] at hlen
    omega
  | cons call calls ih =>
    rcases call.isFrom_cases ip with ⟨now, nowAlloc, port, rfl⟩ | hfrom
    · rw [ownKnocks_cons_self, List.map_cons] at hports htimes
      have hfirst : cfg.knockSequence[0]? = some port := by
        rw [← Config.sequence_getElem? hcfg.first_lt, ← hports]
        rfl
      have hrest : (ownKnocks ip calls).map Prod.snd = cfg.sequence.drop 1 := by
        rw [← hports]
        rfl
      rcases clientEntry_of_tableMove ht (knockerProcess_move hcfg ht now nowAlloc ip port) with
        ⟨c, -, hc, -⟩ | ⟨-, -, -, -, hwrong | hfull⟩ | ⟨-, -, hadmitted, -, -⟩
      · rw [hentry] at hc
        cases hc
      · exact absurd hfirst hwrong
      · -- there is a slot for one more address
        have hnew : ip ∉ SlotTable.liveKeys KnockClient.active KnockClient.ip t :=
          SlotTable.entry_eq_none_iff_notMem.mp hentry
        have hlive : SlotTable.liveKeys KnockClient.active KnockClient.ip t ⊆
            known ++ ip :: calls.filterMap KnockerCall.source := fun other hother =>
          List.mem_append_left _ (hknown other fun hnone =>
            SlotTable.entry_eq_none_iff_notMem.mp hnone hother)
        obtain ⟨c, hc, hfree⟩ := SlotTable.exists_dead_of_card_le ht.distinct.nodup_liveKeys
          hlive (List.mem_append_right _ List.mem_cons_self) hnew
          (by rw [ht.length_eq]; exact hroom)
        rw [(hfull c hc).1] at hfree
        cases hfree
      · have hmore : ownKnocks ip calls ≠ [] := by
          intro hnil
          rw [hnil] at hrest
          have := congrArg List.length hrest
          rw [List.map_nil, List.length_nil, List.length_drop] at this
          omega
        rw [lastResult_runFrom_cons_self now nowAlloc port hmore]
        exact lastResult_of_remaining hcfg
          (tableInv_of_tableMove hcfg ht (knockerProcess_move hcfg ht now nowAlloc ip port))
          hadmitted hmono.tail hrest htimes
    · have hnone : clientEntry (knockerStep cfg t call).1 ip = none := by
        rcases clientEntry_step_of_not_isFrom hcfg ht hfrom with hsame | ⟨c, -, hnone, -⟩
        · rw [hsame, hentry]
        · exact hnone
      rw [ownKnocks_cons_of_not_isFrom hfrom] at hports htimes
      rw [lastResult, ownRecords_runFrom_cons_of_not_isFrom hfrom]
      refine ih (tableInv_knockerStep hcfg ht call) hnone (known ++ call.source.toList)
        (fun other hother => ?_) ?_ hmono.tail hports htimes
      · rcases clientEntry_step_subset hcfg ht call hother with hbefore | hsource
        · exact List.mem_append_left _ (hknown other hbefore)
        · exact List.mem_append_right _ (Option.mem_toList.mpr hsource)
      · cases hsource : call.source with
        | none => simpa [List.filterMap_cons_none hsource] using hroom
        | some other => simpa [List.filterMap_cons_some hsource] using hroom

end Newcomer

/-! ### The state machine reads the clock of the run -/

/-- These calls of the state machine lead from one table to the next, with the records that
were seen, at clock readings of the actions. -/
def CallsWithin (cfg : Config) (ifindex : UInt32) (clients clients' : ClientTable)
    (seen : List Obs) (readings : List ℤ) (calls : List KnockerCall) : Prop :=
  knockerRunFrom cfg clients calls = (clients', handledRecords (flowTrace cfg ifindex seen)) ∧
    (calls.flatMap KnockerCall.readings).Sublist readings

section Clock

variable {cfg : Config} {ifindex : UInt32} {d d' : Daemon} {seen obs : List Obs}

/-- Nothing is seen of the state machine, and its table stays as it is. -/
theorem callsWithin_nil (clients : ClientTable) (readings : List ℤ)
    (h : handledRecords (flowTrace cfg ifindex obs) = []) :
    CallsWithin cfg ifindex clients clients obs readings [] :=
  ⟨by rw [h]; rfl, List.nil_sublist _⟩

theorem handledRecords_call {α : Type}
    (next : Effect.Prog.Stepped Command Response LogLine Ruleset α) :
    handledRecords (flowTrace cfg ifindex
      (next.calls.map (fun call => Obs.command call.1 call.2) ++ [.logged next.output])) = [] := by
  rw [flowTrace_call]
  rfl

theorem handledRecords_received (recv : Recv) (arrival : ℤ) (more : List (List LogLine)) :
    handledRecords (flowTrace cfg ifindex (.received recv arrival :: more.map Obs.logged)) =
      [] := by
  cases recv with
  | frame f =>
    cases hknock : knockOf cfg ifindex f <;>
      simp [flowTrace, Obs.toFlow, hknock, handledRecords, List.filterMap_filterMap]
  | _ => simp [flowTrace, Obs.toFlow, handledRecords, List.filterMap_filterMap]

theorem exists_knockerCalls_step {action : Action} (ifindex : UInt32)
    (h : d.step cfg action = some (d', obs)) :
    ∃ calls, CallsWithin cfg ifindex d.clients d'.clients obs action.readings calls := by
  cases action with
  | signal =>
    cases h
    exact ⟨[], callsWithin_nil _ _ rfl⟩
  | capture recv now =>
    refine ⟨[], ?_⟩
    cases captureStep_move h with
    | skip => exact callsWithin_nil _ _ (handledRecords_received _ _ [_])
    | knock => exact callsWithin_nil _ _ (handledRecords_received _ _ [_])
    | again => exact callsWithin_nil _ _ (handledRecords_received _ _ [_])
    | failed => exact callsWithin_nil _ _ (handledRecords_received _ _ [_, _])
    | _ => exact callsWithin_nil _ _ rfl
  | processor input =>
    cases processorStep_move h with
    | handled event =>
      exact ⟨[.process input.now input.later event.srcIp event.dstPort], rfl, List.Sublist.refl _⟩
    | completed event =>
      exact ⟨[.process input.now input.later event.srcIp event.dstPort], rfl, List.Sublist.refl _⟩
    | sweep =>
      exact ⟨[.cleanup input.later], rfl, List.sublist_cons_self _ _⟩
    | opening | ticking | shutdown => exact ⟨[], callsWithin_nil _ _ (handledRecords_call _)⟩
    | _ => exact ⟨[], callsWithin_nil _ _ rfl⟩

/-- **The state machine reads the clock of the run.** What a run did to the client table
are calls in their order, at clock readings of its actions. -/
theorem exists_knockerCalls {actions : List Action} (ifindex : UInt32)
    (h : d.run cfg actions = some (d', seen)) :
    ∃ calls, CallsWithin cfg ifindex d.clients d'.clients seen
      (actions.flatMap Action.readings) calls := by
  induction actions generalizing d seen with
  | nil =>
    cases h
    exact ⟨[], callsWithin_nil _ _ rfl⟩
  | cons action actions ih =>
    obtain ⟨d₁, obs, rest, hstep, hrun, rfl⟩ := Machine.run_cons.mp h
    obtain ⟨first, hfirst, hreads⟩ := exists_knockerCalls_step ifindex hstep
    obtain ⟨later, hlater, hmore⟩ := ih hrun
    refine ⟨first ++ later, ?_, ?_⟩
    · rw [knockerRunFrom_append, hfirst, hlater, flowTrace_append, handledRecords_append]
    · rw [List.flatMap_append, List.flatMap_cons]
      exact hreads.append hmore

end Clock

/-! ### From the wire to the packet filter -/

/-- The addresses that knocked. -/
def knockers (cfg : Config) (ifindex : UInt32) (frames : List Frame) : List UInt32 :=
  frames.filterMap fun f => (knockOf cfg ifindex f).map fun knock => knock.1.srcIp

/-- The main thread waits for a knock, and there is none: nothing that was captured is on
its way. -/
structure Daemon.Idle (d : Daemon) : Prop where
  processor : d.processor = .wait
  queue : d.queue.events = []
  capture : d.capture.pending = none

section Wire

variable {cfg : Config} {f : Flow} {tr : List FlowObs} {ip : UInt32}

/-- If the queue took every knock and nothing is on its way, every captured knock has been
handled. -/
theorem FlowInv.handled_eq (hinv : FlowInv cfg f tr) (htaken : ∀ push ∈ pushes tr, push.2 = true)
    (hpending : f.pending = none) (hhand : f.inHand = none) (hqueued : f.queued = []) :
    (handledRecords tr).map KnockRecord.event = (captures tr).map Prod.fst := by
  have hall : enqueued tr = (pushes tr).map Prod.fst := by
    rw [enqueued, List.filter_eq_self.mpr htaken]
  have hhandled := hinv.enqueued_eq
  rw [hhand, hqueued, Option.toList_none, List.append_nil, List.append_nil, hall] at hhandled
  rw [hinv.captures_eq, hpending, Option.toList_none, List.append_nil, hhandled]

/-- The ports an address knocked on, by way of the events its frames were captured as. -/
theorem ports_of_frames (cfg : Config) (ifindex ip : UInt32) (frames : List Frame) :
    frames.filterMap (knockPort cfg ifindex ip) =
      (frames.filterMap fun f => (knockOf cfg ifindex f).map Prod.fst).filterMap
        (KnockEvent.portFor ip) := by
  rw [List.filterMap_filterMap]
  congr 1
  funext f
  cases hknock : knockOf cfg ifindex f <;> simp [knockPort, KnockEvent.portFor, hknock]

theorem completions_pos {records : List KnockRecord}
    (h : lastResult ip records = some .complete) : 0 < completions ip records := by
  obtain ⟨r, hlast, hresult⟩ := Option.map_eq_some_iff.mp h
  have hmem := List.mem_of_getLast? hlast
  obtain ⟨hr, hip⟩ := List.mem_filter.mp hmem
  exact List.countP_pos_iff.mpr ⟨r, hr, by simpa using ⟨by simpa using hip, hresult⟩⟩

end Wire

/-- The address a call opens can be seen. -/
def CallKind.opens : CallKind → Option UInt32
  | .open ip => some ip
  | _ => none

theorem opens_of_kinds {calls : List FirewallCall} {seen : List Obs}
    (h : calls.map FirewallCall.kind = callKinds seen) :
    calls.filterMap FirewallCall.opens = openedBy seen := by
  have hcalls : calls.filterMap FirewallCall.opens =
      (calls.map FirewallCall.kind).filterMap CallKind.opens := by
    rw [List.filterMap_map]
    congr 1
    funext call
    cases call <;> rfl
  rw [hcalls, h, callKinds, openedBy, List.filterMap_filterMap]
  congr 1
  funext o
  cases o <;> rfl

section Run

variable (r : DaemonRun) {ip : UInt32}

/-- What the main thread has opened was asked for, if the grant table has room for all of
it. -/
theorem DaemonRun.insertGrant_of_opened (hwait : r.final.processor = .wait)
    (hopened : ip ∈ openedBy r.seen)
    (hroom : (openedBy r.seen).toFinset.card ≤ r.cfg.maxClients.toNat) :
    ∃ response, (Command.insertGrant ip r.cfg.protectedPort, response) ∈ commandsOf r.seen := by
  obtain ⟨calls, hkinds, faults, hreaches⟩ := r.inLifetime
  obtain ⟨added, hbegin, -⟩ := firewallStart_ok r.initialised
  have hopens := opens_of_kinds hkinds
  -- the commands so far are those of the calls so far, but for those of a shutdown now
  have hrest : r.final.remaining r.cfg [] = firewallShutdown r.cfg r.final.firewall := by
    rw [Daemon.remaining, hwait]
    rfl
  have hsofar := hreaches [] fun _ => rfl
  rw [List.append_nil, hrest, DaemonRun.begin, hbegin] at hsofar
  obtain ⟨-, -, hcalls, -⟩ := hsofar.run fun _ => none
  have hnone : activeIps (List.replicate r.cfg.maxClients.toNat Grant.zeroed) = [] := by
    simp [activeIps, SlotTable.liveKeys, Grant.zeroed]
  let hooked : Ruleset :=
    { r.rules with input := if added then Rule.jump :: r.rules.input else r.rules.input }
  obtain ⟨response, hissued⟩ := serve_insertGrant hooked [] calls
    (by rw [hnone]; exact List.nodup_nil) (by rw [hnone]; exact List.Subset.refl _)
    (List.not_mem_nil) (by rw [List.nil_append, hopens, List.length_replicate]; exact hroom)
    (by rw [hopens]; exact hopened)
  refine ⟨response, ?_⟩
  have hwhole : (Command.insertGrant ip r.cfg.protectedPort, response) ∈ commandsOf r.seen ++
      ((firewallShutdown r.cfg r.final.firewall).run handle (fun _ => none)
        r.final.rules).calls := by
    rw [← hcalls, run_bind]
    exact List.mem_append_left _ hissued
  rcases List.mem_append.mp hwhole with hmem | hmem
  · exact hmem
  · rcases (firewallShutdown_commands _ _).calls _ _ _ hmem with hc | hc | hc <;> cases hc

end Run

/-- **Access with the sequence.** In a run whose clock does not go back, let an address have
knocked the sequence, its knocks handled within the window of each other, with whatever
frames and signals in between. Let the queue have taken every knock, let no more addresses
have knocked than there are client slots, and let the main thread be waiting with nothing on
its way. Then the last knock of the address completed, `firewall_open` was called for it,
and iptables was told to let it in. -/
theorem access_with_sequence (r : DaemonRun) (ip : UInt32) (hclock : MonotoneClock r.actions)
    (hsequence : (receivedFrames r.seen).filterMap (knockPort r.cfg r.ifindex ip) = r.cfg.sequence)
    (hwindow : WithinWindow r.cfg ((ownRecords ip (handledRecords r.trace)).map KnockRecord.time))
    (htaken : ∀ push ∈ pushes r.trace, push.2 = true)
    (hpeers : ((knockers r.cfg r.ifindex (receivedFrames r.seen)).toFinset.card : ℤ) ≤
      r.cfg.maxClients)
    (hidle : r.final.Idle) :
    lastResult ip (handledRecords r.trace) = some .complete ∧ 0 < openCalls ip r.seen ∧
      ∃ response, (Command.insertGrant ip r.cfg.protectedPort, response) ∈ commandsOf r.seen := by
  have hseq := r.valid.toSequenceValid
  have hinv : FlowInv r.cfg r.final.flow r.trace := flowInv_run r.runs
  have hhandled := hinv.handled_eq htaken hidle.capture
    (by simp only [Daemon.flow, hidle.processor]; rfl) hidle.queue
  rw [DaemonRun.trace, captures_flowTrace] at hhandled
  -- whoever was handled is among those who knocked
  have hips : (handledRecords r.trace).map KnockRecord.ip =
      knockers r.cfg r.ifindex (receivedFrames r.seen) := by
    have hmapped := congrArg (List.map KnockEvent.srcIp) hhandled
    simp only [List.map_map, List.map_filterMap, Option.map_map] at hmapped
    exact hmapped
  obtain ⟨calls, hrun, hreads⟩ := exists_knockerCalls r.ifindex r.runs
  have hown := ownRecords_runFrom r.cfg (knockerInit r.cfg) ip calls
  have hsources := ips_runFrom r.cfg (knockerInit r.cfg) calls
  have hrun' : knockerRunFrom r.cfg (knockerInit r.cfg) calls =
      (r.final.clients, handledRecords r.trace) := hrun
  rw [hrun'] at hown hsources
  have hports : (ownKnocks ip calls).map Prod.snd = r.cfg.sequence := by
    rw [← hown, List.map_map, ← hsequence, ports_of_frames, ← hhandled, ← portsOf_eq_filterMap]
    rfl
  have htimes : WithinWindow r.cfg ((ownKnocks ip calls).map Prod.fst) := by
    rw [← hown, List.map_map]
    exact hwindow
  have hroom : (knockers r.cfg r.ifindex (receivedFrames r.seen)).toFinset.card ≤
      r.cfg.maxClients.toNat := by omega
  have hcomplete : lastResult ip (handledRecords r.trace) = some .complete := by
    have hlast := lastResult_of_sequence hseq (tableInv_knockerInit r.cfg)
      (clientEntry_knockerInit r.cfg) [] (fun _ h => absurd (clientEntry_knockerInit _) h)
      (by rw [List.nil_append, ← hsources, hips]; exact hroom)
      (hclock.sublist hreads) hports htimes
    rwa [hrun'] at hlast
  -- `firewall_open` was called once for each completion, also of the others
  have hcount : ∀ other, openCalls other r.seen =
      completions other (handledRecords r.trace) := by
    intro other
    have hgranting : r.final.flow.granting = none := by
      simp only [Daemon.flow, hidle.processor]
      rfl
    have hopened := hinv.opened_eq other
    rwa [hgranting, Option.toList_none, List.append_nil, DaemonRun.trace, openedIps_flowTrace]
      at hopened
  have hopened : 0 < openCalls ip r.seen := by
    rw [hcount]
    exact completions_pos hcomplete
  refine ⟨hcomplete, hopened, ?_⟩
  refine r.insertGrant_of_opened hidle.processor (List.count_pos_iff.mp hopened) ?_
  refine (Finset.card_le_card fun other hother => ?_).trans hroom
  have hpos : 0 < openCalls other r.seen := List.count_pos_iff.mpr (List.mem_toFinset.mp hother)
  rw [hcount, completions, List.countP_pos_iff] at hpos
  obtain ⟨record, hrecord, hcompleted⟩ := hpos
  rw [Bool.and_eq_true, beq_iff_eq] at hcompleted
  rw [List.mem_toFinset, ← hips]
  exact List.mem_map.mpr ⟨record, hrecord, hcompleted.1⟩

/-- Address 10 knocks the sequence while two others knock, and the main thread goes round
its loop until it waits again. -/
def knocksAmidOthers : List Action :=
  captureKnock 10 7000 1 ++ captureKnock 11 8000 1 ++ captureKnock 10 8000 1 ++
    captureKnock 12 7000 1 ++ captureKnock 10 9000 1 ++ List.replicate 21 (processAt 2)

/-- What such a run has to satisfy. -/
theorem knocksAmidOthers_seen :
    (Daemon.startDefault.run .default knocksAmidOthers).map (fun out =>
      ((match out.1.processor with | .wait => true | _ => false) && out.1.queue.events.isEmpty &&
          out.1.capture.pending.isNone && (pushes (flowTrace .default 0 out.2)).all Prod.snd,
        (receivedFrames out.2).filterMap (knockPort .default 0 10),
        (ownRecords 10 (handledRecords (flowTrace .default 0 out.2))).map KnockRecord.time,
        knockers .default 0 (receivedFrames out.2))) =
      some (true, [7000, 8000, 9000], [2, 2, 2], [10, 11, 10, 12, 10]) := by
  decide +kernel

theorem access_with_sequence_amidOthers : ∃ r : DaemonRun,
    lastResult 10 (handledRecords r.trace) = some .complete ∧ 0 < openCalls 10 r.seen ∧
      ∃ response, (Command.insertGrant 10 22, response) ∈ commandsOf r.seen := by
  obtain ⟨⟨d, seen⟩, hrun, hseen⟩ := Option.map_eq_some_iff.mp knocksAmidOthers_seen
  simp only [Prod.mk.injEq, Bool.and_eq_true, List.isEmpty_iff, Option.isNone_iff_eq_none] at hseen
  obtain ⟨⟨⟨⟨hpc, hqueue⟩, hcapture⟩, htaken⟩, hports, htimes, hknockers⟩ := hseen
  have hwait : d.processor = .wait := by
    split at hpc
    · assumption
    · cases hpc
  have hclock : MonotoneClock knocksAmidOthers := by
    unfold MonotoneClock
    decide +kernel
  refine ⟨.ofDefault knocksAmidOthers d seen hrun,
    access_with_sequence (.ofDefault knocksAmidOthers d seen hrun) 10 hclock hports ?_ ?_ ?_
      ⟨hwait, hqueue, hcapture⟩⟩
  · change WithinWindow .default
      ((ownRecords 10 (handledRecords (flowTrace .default 0 seen))).map KnockRecord.time)
    rw [htimes]
    unfold WithinWindow
    decide
  · exact List.all_eq_true.mp htaken
  · change ((knockers .default 0 (receivedFrames seen)).toFinset.card : ℤ) ≤ 64
    rw [hknockers]
    decide

end Knockd
