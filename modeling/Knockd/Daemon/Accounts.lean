import Knockd.Daemon.Calls
import Knockd.Daemon.Lifetime
import Knockd.Firewall.Sync

/-!
# Every rule in the chain is accounted for

A rule in the daemon's chain lets somebody in, so for each of them there should be somebody
who takes it away again. Between two firewall calls of the main thread there are exactly two
kinds: the rule of an active grant, which the table will close, and the rule whose deletion
has failed, which nobody will. The balance below is exact, one rule for each, in every run
and however the commands turn out.

A call in progress is halfway between two balances. The invariant keeps what it will ensure
when it is done.

## Main definitions

* `failedDeletions` — the rules whose deletion has failed
* `Balanced` — the chain is the rules of the active grants and those
* `Daemon.Accounts` — the invariant, also inside a call

## Main results

* `firewallOpen_balanced`, `firewallTick_balanced` — each call keeps the balance
* `chain_accounted_for` — the balance in every run of the daemon
-/

namespace Knockd

open Effect.Prog (Ensures)

/-- The rules whose deletion has failed. -/
def failedDeletions : List (Command × Response) → List Rule :=
  List.filterMap fun
    | (.deleteGrant ip port, r) => if r.ok then none else some (Rule.grant ip port)
    | _ => none

theorem failedDeletions_append (l l' : List (Command × Response)) :
    failedDeletions (l ++ l') = failedDeletions l ++ failedDeletions l' :=
  List.filterMap_append

/-- The chain is one rule for each active grant, and the rules left behind. -/
structure Balanced (port : ℤ) (left : List Rule) (grants : List Grant) (chain : List Rule) :
    Prop where
  nodup : (activeIps grants).Nodup
  perm : chain.Perm ((activeIps grants).map (Rule.grant · port) ++ left)

/-- The same of the firewall and the packet filter. -/
def FirewallState.Balanced (cfg : Config) (left : List Rule) (st : FirewallState) : Prop :=
  ∃ grants chain, st.fw.grants = some grants ∧ st.rules.knockd = some chain ∧
    Knockd.Balanced cfg.protectedPort left grants chain

/-! ### The calls keep the balance -/

section Calls

variable {cfg : Config} {left : List Rule} {grants : List Grant} {chain : List Rule}
  {rules : Ruleset} {port : ℤ} {i : ℕ} {g : Grant}

/-- A free slot is taken for an address that has none, and its rule goes to the front. -/
theorem Balanced.claim (h : Balanced port left grants chain) (g' : Grant)
    (hslot : grants[i]? = some g) (hfree : g.active = false) (hactive : g'.active = true)
    (hnone : grantEntry grants g'.ip = none) :
    Balanced port left (grants.set i g') (Rule.grant g'.ip port :: chain) := by
  have hnew : g'.ip ∉ activeIps grants := SlotTable.entry_eq_none_iff_notMem.mp hnone
  have hperm : (activeIps (grants.set i g')).Perm (g'.ip :: activeIps grants) :=
    SlotTable.liveKeys_set_claim hslot hfree hactive
  refine ⟨hperm.nodup_iff.mpr (List.nodup_cons.mpr ⟨hnew, h.nodup⟩), ?_⟩
  exact (h.perm.cons _).trans ((hperm.map (Rule.grant · port)).append_right left).symm

/-- A slot that stays as it is, but for its deadline. -/
theorem Balanced.set (h : Balanced port left grants chain) (g' : Grant)
    (hslot : grants[i]? = some g) (hactive : g'.active = g.active)
    (hip : g.active = true → g'.ip = g.ip) :
    Balanced port left (grants.set i g') chain := by
  have hsame : activeIps (grants.set i g') = activeIps grants :=
    SlotTable.liveKeys_set_of_eq hslot hactive fun hlive => hip (hactive ▸ hlive)
  exact ⟨hsame ▸ h.nodup, hsame ▸ h.perm⟩

/-- A command, and what comes after it. -/
theorem runIptables_ensures {β : Type} {c : Command} {quiet : Bool} {f : ℤ → FirewallProg β}
    {Q : β → Ruleset → List (Command × Response) → Prop}
    (h : ∀ fault, (f (handle c fault rules).1.code).Ensures handle (handle c fault rules).2
      fun b rules' calls => Q b rules' ((c, (handle c fault rules).1) :: calls)) :
    (runIptables cfg c quiet >>= f).Ensures handle rules Q := by
  refine Ensures.bind fun env => ?_
  simp only [runIptables_value, runIptables_state, runIptables_calls, List.singleton_append]
  exact h (env 0)

theorem firewallOpen_balanced {fw : Firewall} (h : FirewallState.Balanced cfg left ⟨fw, rules⟩)
    (now : ℤ) (ip : UInt32) :
    (firewallOpen cfg now ip fw).Ensures handle rules fun out rules' calls =>
      FirewallState.Balanced cfg (left ++ failedDeletions calls) ⟨out.1, rules'⟩ := by
  obtain ⟨grants, chain, hgrants, hchain, hbal⟩ := h
  simp only at hgrants hchain
  simp only [firewallOpen, hgrants]
  cases hfind : findGrant grants ip with
  | some i =>
    obtain ⟨g, hslot, -⟩ := exists_of_findGrant hfind
    refine .tell _ (.ret ⟨_, chain, rfl, hchain, ?_⟩)
    rw [show grants.modify i _ = _ from List.modify_eq_set_getElem? .., hslot]
    simpa [failedDeletions] using
      hbal.set { g with expiresAt := now + cfg.accessTimeout } hslot rfl fun _ => rfl
  | none =>
    cases hfree : freeGrant grants with
    | none =>
      exact .tell _ (.ret ⟨grants, chain, hgrants, hchain, by simpa [failedDeletions] using hbal⟩)
    | some i =>
      obtain ⟨g, hslot, hinactive⟩ := exists_of_freeGrant hfree
      refine runIptables_ensures fun fault => ?_
      obtain ⟨hok, hrules⟩ := handle_insertGrant hchain ip cfg.protectedPort fault
      simp only [hrules, ne_eq, Response.code_eq_zero, hok]
      cases hfault : fault.isNone with
      | true =>
        rw [if_neg (by decide), if_pos rfl]
        have hentry := grantEntry_of_findGrant_none hfind
        refine .tell _ (.ret ⟨_, _, rfl, rfl, ?_⟩)
        simpa [failedDeletions] using hbal.claim ⟨ip, _, true⟩ hslot hinactive rfl hentry
      | false =>
        -- the slot was free and is free again
        rw [if_pos (by decide), if_neg (by decide)]
        refine .tell _ (.ret ⟨_, _, rfl, rfl, ?_⟩)
        have hdead : g.active = true → ip = g.ip := fun hlive => by simp [hinactive] at hlive
        simpa [failedDeletions] using hbal.set ⟨ip, _, false⟩ hslot hinactive.symm hdead

/-- The deletions of a tick: the rule of each address goes, or is left behind. -/
theorem closeExpired_balanced (ips : List UInt32) {rest : List UInt32}
    (hchain : rules.knockd = some chain)
    (hperm : chain.Perm ((ips ++ rest).map (Rule.grant · cfg.protectedPort) ++ left)) :
    (closeExpired cfg ips).Ensures handle rules fun _ rules' calls =>
      ∃ chain', rules'.knockd = some chain' ∧
        chain'.Perm (rest.map (Rule.grant · cfg.protectedPort) ++
          (left ++ failedDeletions calls)) := by
  induction ips generalizing rules chain left with
  | nil => exact .ret ⟨chain, hchain, by simpa [failedDeletions] using hperm⟩
  | cons ip ips ih =>
    simp only [closeExpired, runGrantRule, Effect.Prog.say_bind]
    refine .tell _ (runIptables_ensures fun fault => ?_)
    simp only [ne_eq, Response.code_eq_zero]
    by_cases hok : (handle (.deleteGrant ip cfg.protectedPort) fault rules).1.ok = true
    · rw [if_neg (not_not_intro hok)]
      -- the rule was there, and is gone
      obtain ⟨rfl, -⟩ := handle_of_ok hok
      have hknockd : (handle (.deleteGrant ip cfg.protectedPort) none rules).2.knockd =
          some (chain.erase (Rule.grant ip cfg.protectedPort)) := by
        rw [handle_deleteGrant hchain]
        rfl
      have hgone : (chain.erase (Rule.grant ip cfg.protectedPort)).Perm
          ((ips ++ rest).map (Rule.grant · cfg.protectedPort) ++ left) :=
        (List.cons_perm_iff_perm_erase.mp hperm.symm).2.symm
      intro env
      simpa [failedDeletions, hok] using ih hknockd hgone env
    · rw [if_pos hok, handle_of_not_ok (Bool.eq_false_iff.mpr hok)]
      have hleft : chain.Perm ((ips ++ rest).map (Rule.grant · cfg.protectedPort) ++
          (left ++ [Rule.grant ip cfg.protectedPort])) := by
        refine hperm.trans ?_
        rw [← List.append_assoc]
        exact (List.perm_append_singleton ..).symm
      refine .tell _ fun env => ?_
      simpa [failedDeletions, hok] using ih hchain hleft env

theorem firewallTick_balanced {fw : Firewall} (h : FirewallState.Balanced cfg left ⟨fw, rules⟩)
    (now : ℤ) :
    (firewallTick cfg now fw).Ensures handle rules fun fw' rules' calls =>
      FirewallState.Balanced cfg (left ++ failedDeletions calls) ⟨fw', rules'⟩ := by
  obtain ⟨grants, chain, hgrants, hchain, hnodup, hperm⟩ := h
  simp only at hgrants hchain
  simp only [firewallTick, hgrants]
  have hscan := activeIps_expireScan now maxExpiryPerTick grants
  have hclosed := closeExpired_balanced _ hchain
    (hperm.trans ((hscan.map (Rule.grant · cfg.protectedPort)).append_right left))
  refine Ensures.bind fun env => .ret ?_
  obtain ⟨chain', hchain', hperm'⟩ := hclosed env
  exact ⟨_, chain', rfl, hchain', (List.nodup_append.mp (hscan.nodup_iff.mp hnodup)).2.1,
    by simpa using hperm'⟩

end Calls

/-! ### The balance along a run -/

/-- Between two calls the balance holds; a call in progress will have kept it when it is
done. From the shutdown on nothing is said. -/
def Daemon.Accounts (cfg : Config) (left : List Rule) (d : Daemon) : Prop :=
  match d.processor with
  | .opening _ p => p.Ensures handle d.rules fun out rules calls =>
      FirewallState.Balanced cfg (left ++ failedDeletions calls) ⟨out.1, rules⟩
  | .ticking p => p.Ensures handle d.rules fun fw rules calls =>
      FirewallState.Balanced cfg (left ++ failedDeletions calls) ⟨fw, rules⟩
  | .shutdown _ | .done => True
  | _ => FirewallState.Balanced cfg left ⟨d.firewall, d.rules⟩

section Runs

variable {cfg : Config} {left : List Rule} {d d' : Daemon} {obs : List Obs}

theorem accounts_iff_balanced (h : d.betweenCalls) :
    d.Accounts cfg left ↔ FirewallState.Balanced cfg left ⟨d.firewall, d.rules⟩ := by
  unfold Daemon.betweenCalls at h
  unfold Daemon.Accounts
  cases hpc : d.processor <;> simp_all

/-- A step that has no part in the firewall. -/
theorem Daemon.Accounts.silent (h : d.Accounts cfg left) (hobs : commandsOf obs = [])
    (hrules : d'.rules = d.rules) (hfirewall : d'.firewall = d.firewall)
    (hpc : d'.processor = d.processor) :
    d'.Accounts cfg (left ++ failedDeletions (commandsOf obs)) := by
  have hsame : failedDeletions (commandsOf obs) = [] := by rw [hobs]; rfl
  rw [hsame, List.append_nil, Daemon.Accounts, hpc, hrules, hfirewall]
  exact h

/-- A step from between two calls to between two calls. -/
theorem Daemon.Accounts.idle (h : d.Accounts cfg left) (hobs : commandsOf obs = [])
    (hrules : d'.rules = d.rules) (hfirewall : d'.firewall = d.firewall)
    (hbefore : d.betweenCalls) (hafter : d'.betweenCalls) :
    d'.Accounts cfg (left ++ failedDeletions (commandsOf obs)) := by
  rw [accounts_iff_balanced hafter, hobs, hrules, hfirewall]
  simpa [failedDeletions] using (accounts_iff_balanced hbefore).mp h

/-- What a step of a call leaves will have kept the balance, too. -/
theorem ensures_balanced_step {α : Type} {rules : Ruleset} {fault : Option Fault}
    {p : FirewallProg α} {next : Effect.Prog.Stepped Command Response LogLine Ruleset α}
    {firewall : α → Firewall}
    (h : p.Ensures handle rules fun a rules' calls =>
      FirewallState.Balanced cfg (left ++ failedDeletions calls) ⟨firewall a, rules'⟩)
    (hstep : p.step handle fault rules = .inr next) :
    next.rest.Ensures handle next.state fun a rules' calls =>
      FirewallState.Balanced cfg (left ++ failedDeletions (commandsOf
        (next.calls.map (fun call => .command call.1 call.2) ++ [.logged next.output])) ++
          failedDeletions calls) ⟨firewall a, rules'⟩ := by
  have hcommands : commandsOf (next.calls.map (fun call => Obs.command call.1 call.2) ++
      [.logged next.output]) = next.calls := by
    simp [commandsOf, List.filterMap_map]
  intro env
  rw [hcommands, List.append_assoc, ← failedDeletions_append]
  exact h.step hstep env

theorem accounts_processorMove {input : ProcessorInput} (h : d.Accounts cfg left)
    (hmove : ProcessorMove cfg input d d' obs) :
    d'.Accounts cfg (left ++ failedDeletions (commandsOf obs)) := by
  have hpending := h
  unfold Daemon.Accounts at hpending
  cases hmove with
  | grant ip hpc =>
    rw [hpc] at hpending
    simpa [Daemon.Accounts, commandsOf, failedDeletions] using
      firewallOpen_balanced hpending input.now ip
  | tick hpc =>
    rw [hpc] at hpending
    simpa [Daemon.Accounts, commandsOf, failedDeletions] using
      firewallTick_balanced hpending input.now
  | opening ip p next hpc hstep =>
    rw [hpc] at hpending
    exact ensures_balanced_step hpending hstep
  | ticking p next hpc hstep =>
    rw [hpc] at hpending
    exact ensures_balanced_step hpending hstep
  | opened ip p fw rc hpc hstep =>
    rw [hpc] at hpending
    exact hpending.done hstep
  | ticked p fw hpc hstep =>
    rw [hpc] at hpending
    exact hpending.done hstep
  | join | shutdown | done => trivial
  | check hpc =>
    refine h.idle rfl rfl rfl (by rw [Daemon.betweenCalls, hpc]) ?_
    cases hrun : d.running <;> rfl
  | take event queue hpc =>
    refine h.idle rfl rfl rfl ?_ rfl
    rcases hpc with hpc | hpc <;> rw [Daemon.betweenCalls, hpc]
  | empty queue hpc =>
    refine h.idle rfl rfl rfl ?_ rfl
    rcases hpc with hpc | hpc <;> rw [Daemon.betweenCalls, hpc]
  | handled event hpc | completed event hpc | sweep hpc | skipSweep hpc | cleanup hpc =>
    exact h.idle rfl rfl rfl (by rw [Daemon.betweenCalls, hpc]) rfl

theorem accounts_step {action : Action} (h : d.Accounts cfg left)
    (hstep : d.step cfg action = some (d', obs)) :
    d'.Accounts cfg (left ++ failedDeletions (commandsOf obs)) := by
  cases action with
  | signal =>
    cases hstep
    exact h.silent rfl rfl rfl rfl
  | capture recv now => cases captureStep_move hstep <;> exact h.silent rfl rfl rfl rfl
  | processor input => exact accounts_processorMove h (processorStep_move hstep)

/-- The rule of a failed deletion lets somebody in. -/
theorem target_of_mem_failedDeletions {calls : List (Command × Response)} {rule : Rule}
    (h : rule ∈ failedDeletions calls) : rule.target = .accept := by
  obtain ⟨⟨c, r⟩, -, hrule⟩ := List.mem_filterMap.mp h
  split at hrule
  · split at hrule
    · cases hrule
    · cases hrule
      rfl
  · cases hrule

end Runs

/-- **Every rule in the chain is accounted for.** In every run of the daemon, whenever the
main thread is between two firewall calls, the daemon's chain consists of one rule for each
active grant, each of another address, and one for each deletion of the run that has failed.
So the table and the chain are in step if and only if no deletion has failed so far. -/
theorem chain_accounted_for (r : DaemonRun) (h : r.final.betweenCalls) :
    ∃ grants chain, r.final.firewall.grants = some grants ∧ r.final.rules.knockd = some chain ∧
      (activeIps grants).Nodup ∧
      chain.Perm ((activeIps grants).map (Rule.grant · r.cfg.protectedPort) ++
        failedDeletions (commandsOf r.seen)) ∧
      (InSync r.cfg ⟨r.final.firewall, r.final.rules⟩ ↔
        failedDeletions (commandsOf r.seen) = []) := by
  have hstart : (Daemon.start r.cfg r.ifindex r.begin r.now).Accounts r.cfg
      (failedDeletions (commandsOf [])) := by
    obtain ⟨added, hbegin, -⟩ := firewallStart_ok r.initialised
    rw [DaemonRun.begin, hbegin]
    refine ⟨_, [], rfl, rfl, ?_, ?_⟩
    · simp [activeIps, SlotTable.liveKeys, Grant.zeroed]
    · simp [activeIps, SlotTable.liveKeys, Grant.zeroed, failedDeletions, commandsOf]
  have hfinal : r.final.Accounts r.cfg (failedDeletions (commandsOf r.seen)) := by
    refine Machine.invariant_of_run
      (P := fun d seen => d.Accounts r.cfg (failedDeletions (commandsOf seen))) ?_ hstart r.runs
    intro d seen action d' obs hd hstep
    rw [commandsOf_append, failedDeletions_append]
    exact accounts_step hd hstep
  obtain ⟨grants, chain, hgrants, hchain, hnodup, hperm⟩ := (accounts_iff_balanced h).mp hfinal
  refine ⟨grants, chain, hgrants, hchain, hnodup, hperm, ?_⟩
  -- the chain holds nothing but rules that let somebody in
  have haccept : acceptRules chain = chain := by
    refine List.filter_eq_self.mpr fun rule hrule => ?_
    rcases List.mem_append.mp (hperm.mem_iff.mp hrule) with hrule | hrule
    · obtain ⟨ip, -, rfl⟩ := List.mem_map.mp hrule
      rfl
    · simp [target_of_mem_failedDeletions hrule]
  constructor
  · rintro ⟨grants', chain', hgrants', hchain', hsync⟩
    cases hgrants.symm.trans hgrants'
    cases hchain.symm.trans hchain'
    have hlength := (hsync.perm.symm.trans (haccept ▸ hperm)).length_eq
    simpa using hlength
  · intro hnone
    rw [hnone, List.append_nil] at hperm
    exact ⟨grants, chain, hgrants, hchain, haccept.symm ▸ hperm, hnodup⟩

/-- The daemon grants access after three knocks; the grant expires, and every command is
killed by then. -/
def grantThenOrphan : List Action :=
  threeKnocks ++ List.replicate 10 (.processor ⟨100, 100, true, some .killed⟩)

theorem grantThenOrphan_left :
    (Daemon.startDefault.run .default grantThenOrphan).map (fun out =>
      (out.1.betweenCalls, failedDeletions (commandsOf out.2))) =
      some (true, [Rule.grant 10 22]) := by
  decide +kernel

theorem chain_accounted_for_grantThenOrphan : ∃ r : DaemonRun,
    r.final.betweenCalls ∧ ¬ InSync r.cfg ⟨r.final.firewall, r.final.rules⟩ ∧
      ∃ chain, r.final.rules.knockd = some chain ∧ Rule.grant 10 22 ∈ chain := by
  obtain ⟨⟨d, seen⟩, hrun, hleft⟩ := Option.map_eq_some_iff.mp grantThenOrphan_left
  simp only [Prod.mk.injEq] at hleft
  obtain ⟨hbetween, hfailed⟩ := hleft
  obtain ⟨grants, chain, -, hchain, -, hperm, hsync⟩ :=
    chain_accounted_for (.ofDefault grantThenOrphan d seen hrun) hbetween
  have hseen : failedDeletions (commandsOf (DaemonRun.ofDefault grantThenOrphan d seen hrun).seen) =
      [Rule.grant 10 22] := hfailed
  rw [hseen] at hperm hsync
  refine ⟨_, hbetween, ?_, chain, hchain, hperm.mem_iff.mpr (by simp)⟩
  rw [hsync]
  exact List.cons_ne_nil _ _

end Knockd
