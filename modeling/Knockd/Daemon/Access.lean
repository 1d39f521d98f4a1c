import Knockd.Daemon.Flow
import Knockd.Firewall.Moves
import Knockd.Math.Occurrence
import Mathlib.Data.List.Flatten

/-!
# No access without the sequence

Who is let in has knocked, and the knocks were on the wire. The chain holds rules only
for addresses `firewall_open` was called for; that call is made once for each completed
sequence; every completion uses up knocks of its own; and a knock that was handled came
out of the queue, went in once, and was captured as a frame. So for every call of
`firewall_open` the frames received hold the whole sequence from that address, at
positions no two calls share.

## Main definitions

* `ChainWithin` — the chain lets in none but the given addresses
* `receivedFrames`, `openCalls` — the frames received, the calls of `firewall_open`
* `knockPort` — the knock port a frame from a given address is aimed at

## Main results

* `rulesWithin_run` — the chain lets in only addresses `firewall_open` was called for
* `no_access_without_sequence` — the end-to-end result
-/

namespace Knockd

open Occurrence (Occurs exists_disjoint)

/-! ### The commands a call can issue -/

/-- A command that inserts no rule for an address outside the list. -/
def Allowed (opened : List UInt32) (c : Command) : Prop :=
  ∀ ip port, c = .insertGrant ip port → ip ∈ opened

/-- Every rule of the chain is the grant of an address in the list. -/
def ChainWithin (opened : List UInt32) (rules : Ruleset) : Prop :=
  ∀ chain, rules.knockd = some chain → ∀ r ∈ chain, ∃ ip ∈ opened, ∃ port, r = Rule.grant ip port

section Commands

variable {opened more : List UInt32} {c : Command} {rules : Ruleset} {cfg : Config} {quiet : Bool}

theorem ChainWithin.mono (h : ChainWithin opened rules) (hsub : opened ⊆ more) :
    ChainWithin more rules := by
  intro chain hchain r hr
  obtain ⟨ip, hip, hrule⟩ := h chain hchain r hr
  exact ⟨ip, hsub hip, hrule⟩

theorem ChainWithin.exec {rules' : Ruleset} (h : ChainWithin opened rules)
    (hc : Allowed opened c) (hexec : Executed rules c rules') : ChainWithin opened rules' := by
  intro chain' hchain' r hr
  cases hexec with
  -- an emptied or removed chain has no rules, a jump is none of its rules
  | newChain => cases hchain'; cases hr
  | flush => cases hchain'; cases hr
  | deleteChain => cases hchain'
  | checkJump => exact h chain' hchain' r hr
  | insertJump => exact h chain' hchain' r hr
  | deleteJump => exact h chain' hchain' r hr
  | insertGrant ip port chain hchain =>
    cases hchain'
    rcases List.mem_cons.mp hr with rfl | hr
    · exact ⟨ip, hc ip port rfl, port, rfl⟩
    · exact h chain hchain r hr
  | deleteGrant ip port chain hchain =>
    cases hchain'
    exact h chain hchain r (List.mem_of_mem_erase hr)

theorem ChainWithin.handle (h : ChainWithin opened rules) (hc : Allowed opened c)
    (fault : Option Fault) : ChainWithin opened (Knockd.handle c fault rules).2 := by
  rcases handle_cases c fault rules with hsame | hexec
  · rwa [hsame]
  · exact h.exec hc hexec

theorem runIptables_issues {Q : Command → Prop} (h : Q c) : (runIptables cfg c quiet).Issues Q := by
  simp only [runIptables, Effect.Prog.say_bind, Effect.Prog.issue_bind]
  refine ⟨h, fun r => ?_⟩
  cases hok : r.ok <;> simp [hok, Effect.Prog.Issues]

/-- `firewall_open` inserts a rule for its own address only. -/
theorem firewallOpen_issues {ip : UInt32} (h : ip ∈ opened) (now : ℤ) (fw : Firewall) :
    (firewallOpen cfg now ip fw).Issues (Allowed opened) := by
  have hallowed : Allowed opened (.insertGrant ip cfg.protectedPort) := by
    rintro _ _ ⟨⟩
    exact h
  unfold firewallOpen
  split
  · trivial
  · split
    · trivial
    · split
      · trivial
      · refine (runIptables_issues hallowed).bind fun rc => ?_
        split <;> trivial

theorem closeExpired_issues (ips : List UInt32) : (closeExpired cfg ips).Issues (Allowed opened) := by
  induction ips with
  | nil => trivial
  | cons ip rest ih =>
    refine (runIptables_issues (by rintro _ _ ⟨⟩)).bind fun rc => ?_
    split
    · exact ih
    · exact ih

theorem firewallTick_issues (now : ℤ) (fw : Firewall) :
    (firewallTick cfg now fw).Issues (Allowed opened) := by
  unfold firewallTick
  split
  · trivial
  · exact (closeExpired_issues _).bind fun _ => trivial

theorem firewallShutdown_issues (fw : Firewall) :
    (firewallShutdown cfg fw).Issues (Allowed opened) := by
  have hflush : Allowed opened .flush := by rintro _ _ ⟨⟩
  have hunhook : Allowed opened .deleteJump := by rintro _ _ ⟨⟩
  have hdelete : Allowed opened .deleteChain := by rintro _ _ ⟨⟩
  unfold firewallShutdown
  split
  · trivial
  · refine (runIptables_issues hflush).bind fun flushed => ?_
    -- a complaint about the flush changes nothing in what follows
    split
    · have hrest : ∀ unhooked : ℤ, (if unhooked ≠ 0 then do
            Effect.Prog.say
              (logMsg cfg .warn ("Could not remove the INPUT jump to " ++ knockdChain))
            Effect.Prog.say (logMsg cfg .info "Removed the firewall rules knockd added")
            pure { fw with grants := none }
          else do
            let _ ← runIptables cfg .deleteChain true
            Effect.Prog.say (logMsg cfg .info "Removed the firewall rules knockd added")
            pure { fw with grants := none } : FirewallProg Firewall).Issues (Allowed opened) := by
        intro unhooked
        split
        · trivial
        · exact (runIptables_issues hdelete).bind fun _ => trivial
      split
      · exact (runIptables_issues hunhook).bind hrest
      · exact (runIptables_issues hunhook).bind hrest
    · split <;> trivial

end Commands

/-! ### The chain along a run -/

/-- The addresses `firewall_open` was called for. -/
def openedBy : List Obs → List UInt32 :=
  List.filterMap fun
    | .opened ip => some ip
    | _ => none

/-- A firewall call in progress inserts no rule for an address outside the list. -/
def ProcessorPc.IssuesWithin (opened : List UInt32) : ProcessorPc → Prop
  | .opening _ p => p.Issues (Allowed opened)
  | .ticking p => p.Issues (Allowed opened)
  | .shutdown p => p.Issues (Allowed opened)
  | _ => True

/-- The chain and the call in progress keep to the addresses in the list. -/
structure RulesWithin (opened : List UInt32) (d : Daemon) : Prop where
  chain : ChainWithin opened d.rules
  pending : d.processor.IssuesWithin opened

section Chain

variable {cfg : Config} {d d' : Daemon} {obs : List Obs} {opened more : List UInt32}

/-- The capture thread has nothing to do with the packet filter. -/
theorem captureMove_frame {recv : Recv} {now : ℤ} (h : CaptureMove cfg recv now d d' obs) :
    d'.rules = d.rules ∧ d'.processor = d.processor ∧ openedBy obs = [] := by
  cases h <;> exact ⟨rfl, rfl, rfl⟩

/-- A step that opens nothing and leaves the packet filter alone. -/
theorem RulesWithin.silent (hinv : RulesWithin opened d) (hopen : openedBy obs = [])
    (hrules : d'.rules = d.rules) (hpc : d'.processor.IssuesWithin opened) :
    RulesWithin (opened ++ openedBy obs) d' := by
  rw [hopen, List.append_nil]
  exact ⟨hrules ▸ hinv.chain, hpc⟩

/-- A step inside a firewall call. -/
theorem RulesWithin.call {α : Type} {fault : Option Fault} {p : FirewallProg α}
    {next : Effect.Prog.Stepped Command Response LogLine Ruleset α} (hinv : RulesWithin opened d)
    (hp : p.Issues (Allowed opened)) (hstep : p.step handle fault d.rules = .inr next)
    (hrules : d'.rules = next.state)
    (hpc : next.rest.Issues (Allowed opened) → d'.processor.IssuesWithin opened) :
    RulesWithin (opened ++ openedBy
      (next.calls.map (fun call => .command call.1 call.2) ++ [.logged next.output])) d' := by
  obtain ⟨hrest, hchain⟩ := hp.step (fun c e _ hc hs => hs.handle hc e) hinv.chain hstep
  have hopen : openedBy (next.calls.map (fun call => Obs.command call.1 call.2) ++
      [.logged next.output]) = [] := by simp [openedBy]
  rw [hopen, List.append_nil]
  exact ⟨hrules ▸ hchain, hpc hrest⟩

theorem rulesWithin_processorMove {input : ProcessorInput} (hinv : RulesWithin opened d)
    (h : ProcessorMove cfg input d d' obs) : RulesWithin (opened ++ openedBy obs) d' := by
  have hpending := hinv.pending
  cases h with
  | check hpc =>
    refine hinv.silent rfl rfl ?_
    cases hrun : d.running <;> trivial
  | grant ip hpc =>
    -- the one move that adds an address to the list
    have hnew : ip ∈ opened ++ openedBy [Obs.opened ip] := by simp [openedBy]
    exact ⟨hinv.chain.mono (List.subset_append_left ..), firewallOpen_issues hnew _ _⟩
  | tick => exact hinv.silent rfl rfl (firewallTick_issues _ _)
  | join => exact hinv.silent rfl rfl (firewallShutdown_issues _)
  | opening ip p next hpc hstep =>
    rw [hpc] at hpending
    exact hinv.call hpending hstep rfl id
  | ticking p next hpc hstep =>
    rw [hpc] at hpending
    exact hinv.call hpending hstep rfl id
  | shutdown p next hpc hstep =>
    rw [hpc] at hpending
    exact hinv.call hpending hstep rfl id
  | take => exact hinv.silent rfl rfl trivial
  | empty => exact hinv.silent rfl rfl trivial
  | handled => exact hinv.silent rfl rfl trivial
  | completed => exact hinv.silent rfl rfl trivial
  | opened => exact hinv.silent rfl rfl trivial
  | ticked => exact hinv.silent rfl rfl trivial
  | sweep => exact hinv.silent rfl rfl trivial
  | skipSweep => exact hinv.silent rfl rfl trivial
  | cleanup => exact hinv.silent rfl rfl trivial
  | done => exact hinv.silent rfl rfl trivial

theorem rulesWithin_step {action : Action} (hinv : RulesWithin opened d)
    (h : d.step cfg action = some (d', obs)) : RulesWithin (opened ++ openedBy obs) d' := by
  cases action with
  | signal =>
    cases h
    exact hinv.silent rfl rfl hinv.pending
  | capture recv now =>
    obtain ⟨hrules, hpc, hopen⟩ := captureMove_frame (captureStep_move h)
    exact hinv.silent hopen hrules (hpc ▸ hinv.pending)
  | processor input => exact rulesWithin_processorMove hinv (processorStep_move h)

/-- In every run the chain lets in only addresses that `firewall_open` was called
for. -/
theorem rulesWithin_run (hstart : RulesWithin [] d) {actions : List Action}
    (h : d.run cfg actions = some (d', obs)) : RulesWithin (openedBy obs) d' := by
  have hbegin : RulesWithin (openedBy []) d := hstart
  refine Machine.invariant_of_run (P := fun d seen => RulesWithin (openedBy seen) d) ?_ hbegin h
  intro d seen action d' obs hinv hd
  have hnext := rulesWithin_step hinv hd
  rwa [openedBy, ← List.filterMap_append] at hnext

end Chain

/-! ### From the rule back to the wire -/

/-- The frames received, oldest first. -/
def receivedFrames : List Obs → List Frame :=
  List.filterMap fun
    | .received (.frame f) _ => some f
    | _ => none

/-- How often `firewall_open` was called for an address. -/
def openCalls (ip : UInt32) (seen : List Obs) : ℕ := (openedBy seen).count ip

/-- The port a frame knocks on, if it is a knock of the given address. -/
def knockPort (cfg : Config) (ifindex : UInt32) (ip : UInt32) (f : Frame) : Option UInt16 :=
  (knockOf cfg ifindex f).bind fun knock =>
    if knock.1.srcIp = ip then some knock.1.dstPort else none

/-- The port of an event of the given address. -/
def KnockEvent.portFor (ip : UInt32) (e : KnockEvent) : Option UInt16 :=
  if e.srcIp = ip then some e.dstPort else none

section Wire

variable {cfg : Config} {ifindex ip : UInt32} {seen : List Obs} {f : Flow} {tr : List FlowObs}

theorem openedIps_flowTrace : openedIps (flowTrace cfg ifindex seen) = openedBy seen := by
  simp only [openedIps, flowTrace, openedBy, List.filterMap_filterMap]
  congr 1
  funext o
  cases o with
  | received r arrival =>
    cases r with
    | frame f => cases hknock : knockOf cfg ifindex f <;> simp [Obs.toFlow, hknock]
    | _ => rfl
  | _ => rfl

/-- The knocks captured are those among the frames received. -/
theorem captures_flowTrace :
    (captures (flowTrace cfg ifindex seen)).map Prod.fst =
      (receivedFrames seen).filterMap fun f => (knockOf cfg ifindex f).map Prod.fst := by
  simp only [captures, flowTrace, receivedFrames, List.filterMap_filterMap, List.map_filterMap]
  congr 1
  funext o
  cases o with
  | received r arrival =>
    cases r with
    | frame f => cases hknock : knockOf cfg ifindex f <;> simp [Obs.toFlow, hknock]
    | _ => rfl
  | _ => rfl

theorem portsOf_eq_filterMap (records : List KnockRecord) :
    portsOf ip records = (records.map KnockRecord.event).filterMap (KnockEvent.portFor ip) := by
  induction records with
  | nil => rfl
  | cons r records ih =>
    by_cases hr : r.ip = ip
    · simp_all [portsOf, KnockRecord.event, KnockEvent.portFor]
    · simp_all [portsOf, KnockRecord.event, KnockEvent.portFor]

/-- What was handled was captured, in this order: the queue may lose knocks, but neither
makes up nor reorders any. -/
theorem FlowInv.handled_sublist (hinv : FlowInv cfg f tr) :
    ((handledRecords tr).map KnockRecord.event).Sublist ((captures tr).map Prod.fst) := by
  have hhandled : ((handledRecords tr).map KnockRecord.event).Sublist
      ((enqueued tr).map Prod.fst) := by
    rw [hinv.enqueued_eq, List.append_assoc]
    exact List.sublist_append_left ..
  have hpushed : (enqueued tr).Sublist ((pushes tr).map Prod.fst) :=
    List.filter_sublist.map Prod.fst
  have hcaptured : ((pushes tr).map Prod.fst).Sublist (captures tr) := by
    rw [hinv.captures_eq]
    exact List.sublist_append_left ..
  exact hhandled.trans ((hpushed.trans hcaptured).map Prod.fst)

/-- The ports an address had handled can be read off the frames received. -/
theorem portsOf_sublist (hinv : FlowInv cfg f (flowTrace cfg ifindex seen)) :
    (portsOf ip (handledRecords (flowTrace cfg ifindex seen))).Sublist
      ((receivedFrames seen).filterMap (knockPort cfg ifindex ip)) := by
  -- reading a port off a frame goes through the event the frame was captured as
  have hread : (receivedFrames seen).filterMap (knockPort cfg ifindex ip) =
      ((captures (flowTrace cfg ifindex seen)).map Prod.fst).filterMap
        (KnockEvent.portFor ip) := by
    rw [captures_flowTrace, List.filterMap_filterMap]
    congr 1
    funext f
    cases hknock : knockOf cfg ifindex f <;> simp [knockPort, KnockEvent.portFor, hknock]
  rw [hread, portsOf_eq_filterMap]
  exact hinv.handled_sublist.filterMap _

/-- `firewall_open` is not called more often than the sequence is completed. -/
theorem FlowInv.openCalls_le (hinv : FlowInv cfg f (flowTrace cfg ifindex seen)) (ip : UInt32) :
    openCalls ip seen ≤ completions ip (handledRecords (flowTrace cfg ifindex seen)) := by
  have hcount := hinv.opened_eq ip
  rw [List.count_append, openedIps_flowTrace] at hcount
  exact (Nat.le_add_right ..).trans hcount.le

/-- The sequence, once for each call of `firewall_open`, can be read off the frames
received. -/
theorem sequences_sublist (hcfg : cfg.SequenceValid)
    (hinv : FlowInv cfg f (flowTrace cfg ifindex seen)) (ip : UInt32) :
    (List.replicate (openCalls ip seen) cfg.sequence).flatten.Sublist
      ((receivedFrames seen).filterMap (knockPort cfg ifindex ip)) := by
  obtain ⟨calls, hrun⟩ := hinv.knocker
  have hcompleted := completions_sublist hcfg calls ip
  rw [hrun] at hcompleted
  have hfewer : (List.replicate (openCalls ip seen) cfg.sequence).flatten.Sublist
      (List.replicate (completions ip (handledRecords (flowTrace cfg ifindex seen)))
        cfg.sequence).flatten :=
    (List.replicate_sublist_replicate _ |>.mpr (hinv.openCalls_le ip)).flatten
  exact hfewer.trans (hcompleted.trans (portsOf_sublist hinv))

end Wire

/-- After a successful initialisation the chain lets in nobody, whatever a killed daemon
left in it. -/
theorem rulesWithin_start {cfg : Config} {calloc : Bool} {faults : ℕ → Option Fault}
    {rules : Ruleset} (h : (firewallStart cfg calloc faults rules).2 = 0) (ifindex : UInt32)
    (now : ℤ) :
    RulesWithin [] (Daemon.start cfg ifindex (firewallStart cfg calloc faults rules).1 now) := by
  obtain ⟨added, hinit, -⟩ := firewallStart_ok h
  refine ⟨fun chain hchain r hr => ?_, trivial⟩
  have hempty : (firewallStart cfg calloc faults rules).1.rules.knockd = some [] := by rw [hinit]; rfl
  obtain rfl : [] = chain := Option.some.inj (hempty.symm.trans hchain)
  cases hr

/-- **No access without the sequence.** For every start of the daemon and every run after
it: if the chain lets an address in, the frames received contain the knock sequence from
that address in order; and they contain it disjointly at least as many times as
`firewall_open` was called for that address. -/
theorem no_access_without_sequence (cfg : Config) (hcfg : cfg.Valid) (calloc : Bool)
    (faults : ℕ → Option Fault) (rules : Ruleset)
    (hinit : (firewallStart cfg calloc faults rules).2 = 0) (ifindex : UInt32) (now : ℤ)
    (actions : List Action) (d : Daemon) (seen : List Obs)
    (hrun : (Daemon.start cfg ifindex (firewallStart cfg calloc faults rules).1 now).run cfg
      actions = some (d, seen)) (ip : UInt32) :
    ((∃ chain port, d.rules.knockd = some chain ∧ Rule.grant ip port ∈ chain) →
      ∃ i, Occurs (knockPort cfg ifindex ip) cfg.sequence (receivedFrames seen) i) ∧
    ∃ i : ℕ → ℕ → ℕ,
      (∀ m < openCalls ip seen,
        Occurs (knockPort cfg ifindex ip) cfg.sequence (receivedFrames seen) (i m)) ∧
      ∀ m < openCalls ip seen, ∀ m' < openCalls ip seen,
        ∀ k < cfg.sequence.length, ∀ k' < cfg.sequence.length,
          i m k = i m' k' → m = m' ∧ k = k' := by
  obtain ⟨i, hoccurs, hdisjoint⟩ :=
    exists_disjoint (sequences_sublist hcfg.toSequenceValid (flowInv_run hrun) ip)
  refine ⟨?_, i, hoccurs, hdisjoint⟩
  rintro ⟨chain, port, hchain, hrule⟩
  have hwithin := (rulesWithin_run (rulesWithin_start hinit ifindex now) hrun).chain
  obtain ⟨ip', hopened, port', heq⟩ := hwithin chain hchain _ hrule
  cases heq
  -- the address was opened at least once, so the first occurrence exists
  exact ⟨i 0, hoccurs 0 (List.count_pos_iff.mpr hopened)⟩

/-- Three knocks, and the main thread up to the rule. -/
def threeKnocks : List Action :=
  captureKnock 10 7000 1 ++ captureKnock 10 8000 1 ++ captureKnock 10 9000 1 ++
    List.replicate 10 (processAt 2)

theorem no_access_without_sequence_threeKnocks :
    ∃ d seen, (Daemon.start .default 0 (firewallStart .default true (fun _ => none) .empty).1 0).run
        .default threeKnocks = some (d, seen) ∧ d.rules.knockd = some [Rule.grant 10 22] ∧
      ∃ i, Occurs (knockPort .default 0 10) Config.default.sequence (receivedFrames seen) i := by
  have hrules : ((Daemon.start .default 0 (firewallStart .default true (fun _ => none) .empty).1
      0).run .default threeKnocks).map (fun out => out.1.rules.knockd) =
        some (some [Rule.grant 10 22]) := by decide +kernel
  obtain ⟨⟨d, seen⟩, hrun, hchain⟩ := Option.map_eq_some_iff.mp hrules
  have haccess := no_access_without_sequence .default Config.default_valid true (fun _ => none)
    .empty (by decide) 0 0 threeKnocks d seen hrun 10
  exact ⟨d, seen, hrun, hchain, haccess.1 ⟨_, 22, hchain, List.mem_singleton.mpr rfl⟩⟩

end Knockd
