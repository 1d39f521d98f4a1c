import Mathlib.Data.List.Nodup
import Knockd.Firewall.Moves

/-!
# The grant table and the chain

A rule in the chain is taken away again only because a slot of the grant table says
when. So the two must name the same addresses, each once. An insertion that fails is
rolled back and keeps them in step. A deletion that fails does not: `firewall_close`
and `firewall_tick` release the slot first, and the rule of a released slot is an
orphan that no later tick looks for. This file proves that deletions are the only
weak point: a run keeps table and chain in step exactly as long as none of its
deletions meets a fault.

## Main definitions

* `InSync` — the `ACCEPT` rules are those of the active grants, one for each
* `DeletesSucceed` — the deletions a call is about to issue meet no fault

## Main results

* `mirrors_move_iff` — one call keeps the two in step iff its deletions succeed
* `inSync_iff_deletesSucceed` — the same for every run after `firewall_init`
-/

namespace Knockd

/-- The `ACCEPT` rules of a chain. -/
def acceptRules (chain : List Rule) : List Rule :=
  chain.filter fun r => r.target == .accept

/-- The rules are those of the active grants, one for each address. -/
structure Mirrors (port : ℤ) (grants : List Grant) (rules : List Rule) : Prop where
  perm : rules.Perm ((activeIps grants).map (Rule.grant · port))
  nodup : (activeIps grants).Nodup

/-- Grant table and chain in step. -/
def InSync (cfg : Config) (st : FirewallState) : Prop :=
  ∃ grants chain, st.fw.grants = some grants ∧ st.rules.knockd = some chain ∧
    Mirrors cfg.protectedPort grants (acceptRules chain)

/-- The deletions the call is about to issue meet no fault. `firewall_close` issues
one if the address has a grant, `firewall_tick` one for each grant that has run out,
up to its limit. -/
def DeletesSucceed (grants : List Grant) (step : FirewallStep) : Prop :=
  match step.call with
  | .open _ _ => True
  | .close ip => (grantEntry grants ip).isSome → step.faults 0 = none
  | .tick now =>
    ∀ i < min (grants.countP (Grant.expired now)) maxExpiryPerTick, step.faults i = none

/-! ### The scan and its deletions -/

theorem activeIps_append (l r : List Grant) :
    activeIps (l ++ r) = activeIps l ++ activeIps r := by
  simp [activeIps, SlotTable.liveKeys]

/-- Releasing moves addresses from the active ones to those to be closed. -/
theorem activeIps_release (now : ℤ) (seen : List Grant) :
    (activeIps seen).Perm ((seen.filter (Grant.expired now)).map Grant.ip ++
      activeIps (seen.map (Grant.release now))) := by
  induction seen with
  | nil => simp [activeIps, SlotTable.liveKeys]
  | cons g seen ih =>
    cases hexp : g.expired now with
    | true =>
      have hactive := (Grant.expired_iff.mp hexp).1
      simpa [activeIps, SlotTable.liveKeys, hexp, hactive, Grant.release_of_expired hexp] using ih
    | false =>
      cases hactive : g.active with
      | false =>
        simpa [activeIps, SlotTable.liveKeys, hexp, hactive,
          Grant.release_of_not_expired hexp] using ih
      | true =>
        -- a grant that has time left stays where it is
        have hkept : (g.ip :: activeIps seen).Perm
            ((seen.filter (Grant.expired now)).map Grant.ip ++
              g.ip :: activeIps (seen.map (Grant.release now))) :=
          (ih.cons g.ip).trans List.perm_middle.symm
        simpa [activeIps, SlotTable.liveKeys, hexp, hactive,
          Grant.release_of_not_expired hexp] using hkept

theorem activeIps_expireScan (now : ℤ) (budget : ℕ) (grants : List Grant) :
    (activeIps grants).Perm
      ((expireScan now budget grants).1 ++ activeIps (expireScan now budget grants).2) := by
  obtain ⟨seen, rest, rfl, hscan, -⟩ := expireScan_eq now budget grants
  rw [hscan, activeIps_append, activeIps_append, ← List.append_assoc]
  exact (activeIps_release now seen).append_right _

theorem length_expireScan (now : ℤ) (budget : ℕ) (grants : List Grant) :
    (expireScan now budget grants).1.length = min (grants.countP (Grant.expired now)) budget := by
  obtain ⟨seen, rest, rfl, hscan, hle, hend⟩ := expireScan_eq now budget grants
  rw [hscan, List.length_map, ← List.countP_eq_length_filter, List.countP_append]
  rcases hend with rfl | hend
  · simp [hle]
  · omega

section Deletions

variable {port : ℤ} {faults : ℕ → Option Fault} {ips rest : List UInt32} {rules : List Rule}

/-- Deletions that succeed remove their rules and leave the others. -/
theorem deleteRules_perm (h : rules.Perm ((ips ++ rest).map (Rule.grant · port)))
    (hfaults : ∀ i < ips.length, faults i = none) :
    (deleteRules port faults ips rules).Perm (rest.map (Rule.grant · port)) := by
  induction ips generalizing faults rules with
  | nil => exact h
  | cons ip ips ih =>
    have hfirst : faults 0 = none := hfaults 0 (by simp)
    simp only [deleteRules, hfirst, Option.isNone_none, if_true]
    refine ih ?_ fun i hi => hfaults (i + 1) (by simpa using hi)
    exact (List.cons_perm_iff_perm_erase.mp h.symm).2.symm

/-- Each deletion takes away one rule at most. -/
theorem length_le_deleteRules (port : ℤ) (faults : ℕ → Option Fault) (ips : List UInt32)
    (rules : List Rule) :
    rules.length ≤ (deleteRules port faults ips rules).length + ips.length := by
  induction ips generalizing faults rules with
  | nil => simp [deleteRules]
  | cons ip ips ih =>
    simp only [deleteRules, List.length_cons]
    split
    · have hshrink := List.le_length_erase (a := Rule.grant ip port) (l := rules)
      have hrest := ih (fun n => faults (n + 1)) (rules.erase (Rule.grant ip port))
      omega
    · have hrest := ih (fun n => faults (n + 1)) rules
      omega

/-- If the right number of rules is left, no deletion met a fault. -/
theorem faults_eq_none_of_length (h : rules.Perm ((ips ++ rest).map (Rule.grant · port)))
    (hlen : (deleteRules port faults ips rules).length = rest.length) :
    ∀ i < ips.length, faults i = none := by
  induction ips generalizing faults rules with
  | nil => intro i hi; simp at hi
  | cons ip ips ih =>
    cases hfirst : faults 0 with
    | none =>
      simp only [deleteRules, hfirst, Option.isNone_none, if_true] at hlen
      have hrest := ih (List.cons_perm_iff_perm_erase.mp h.symm).2.symm hlen
      intro i hi
      cases i with
      | zero => exact hfirst
      | succ i => exact hrest i (by simpa using hi)
    | some f =>
      -- the rule stays, and the other deletions cannot make up for it
      have hlong := h.length_eq
      simp only [deleteRules, hfirst, Option.isNone_some, Bool.false_eq_true, if_false] at hlen
      simp only [List.cons_append, List.map_cons, List.length_cons, List.length_map,
        List.length_append] at hlong
      have hmost := length_le_deleteRules port (fun n => faults (n + 1)) ips rules
      omega

end Deletions

/-! ### One call -/

section Step

variable {cfg : Config} {grants grants' : List Grant} {chain chain' : List Rule}
  {faults : ℕ → Option Fault} {call : FirewallCall} {rc : ℤ}

theorem acceptRules_erase (ip : UInt32) (port : ℤ) :
    acceptRules (chain.erase (Rule.grant ip port)) =
      (acceptRules chain).erase (Rule.grant ip port) :=
  List.erase_filter.symm

theorem acceptRules_deleteRules (port : ℤ) (ips : List UInt32) :
    acceptRules (deleteRules port faults ips chain) =
      deleteRules port faults ips (acceptRules chain) := by
  induction ips generalizing faults chain with
  | nil => rfl
  | cons ip ips ih =>
    simp only [deleteRules, ih]
    split
    · rw [acceptRules_erase]
    · rfl

/-- Every rule a call inserts or deletes is an `ACCEPT` rule, so a move of the chain is
a move of its `ACCEPT` rules. -/
theorem FirewallMove.acceptRules (h : FirewallMove cfg grants chain faults call grants' chain' rc) :
    FirewallMove cfg grants (acceptRules chain) faults call grants' (acceptRules chain') rc := by
  cases h with
  | extend hslot hentry => exact .extend hslot hentry
  | refuse hentry hfull => exact .refuse hentry hfull
  | insertFailed hslot hfree hentry hfault => exact .insertFailed hslot hfree hentry hfault
  | insert hslot hfree hentry hfault => exact .insert hslot hfree hentry hfault
  | noGrant hentry => exact .noGrant hentry
  | @close ip i g rc hslot hentry =>
    have hclose : FirewallMove cfg grants (Knockd.acceptRules chain) faults (.close ip) _ _ rc :=
      .close hslot hentry
    rw [← acceptRules_erase, ← apply_ite Knockd.acceptRules] at hclose
    exact hclose
  | tick =>
    rw [acceptRules_deleteRules]
    exact .tick

/-- One call keeps the two in step exactly when its deletions succeed. -/
theorem mirrors_move_iff (hsync : Mirrors cfg.protectedPort grants chain)
    (hmove : FirewallMove cfg grants chain faults call grants' chain' rc) :
    Mirrors cfg.protectedPort grants' chain' ↔ DeletesSucceed grants ⟨call, faults⟩ := by
  cases hmove with
  | @extend now ip i g hslot hentry =>
    have hsame : activeIps (grants.set i { g with expiresAt := now + cfg.accessTimeout }) =
        activeIps grants := SlotTable.liveKeys_set_of_eq hslot rfl fun _ => rfl
    exact iff_of_true ⟨hsame ▸ hsync.perm, hsame ▸ hsync.nodup⟩ trivial
  | refuse => exact iff_of_true hsync trivial
  | @insertFailed now ip i g hslot hfree hentry hfault =>
    -- the slot was free and is free again
    have hsame : activeIps (grants.set i ⟨ip, now + cfg.accessTimeout, false⟩) =
        activeIps grants :=
      SlotTable.liveKeys_set_of_eq hslot hfree.symm fun hlive => by simp [hfree] at hlive
    exact iff_of_true ⟨hsame ▸ hsync.perm, hsame ▸ hsync.nodup⟩ trivial
  | @insert now ip i g hslot hfree hentry hfault =>
    have hmore : (activeIps (grants.set i ⟨ip, now + cfg.accessTimeout, true⟩)).Perm
        (ip :: activeIps grants) := SlotTable.liveKeys_set_claim hslot hfree rfl
    -- `find_grant` failed, so the address is not among the active ones
    have hnew : ip ∉ activeIps grants := SlotTable.entry_eq_none_iff_notMem.mp hentry
    refine iff_of_true ⟨?_, hmore.nodup_iff.mpr (hsync.nodup.cons hnew)⟩ trivial
    have hrules := hmore.map (Rule.grant · cfg.protectedPort)
    exact (hsync.perm.cons _).trans hrules.symm
  | noGrant hentry => exact iff_of_true hsync (by simp [DeletesSucceed, hentry])
  | @close ip i g rc hslot hentry =>
    obtain ⟨hlive, rfl⟩ := SlotTable.entry_live hentry
    have hless : (activeIps grants).Perm
        (g.ip :: activeIps (grants.set i { g with active := false })) :=
      SlotTable.liveKeys_set_release hslot hlive rfl
    have hchain := hsync.perm.trans (hless.map _)
    have hnodup := (List.nodup_cons.mp (hless.nodup_iff.mp hsync.nodup)).2
    cases hfault : faults 0 with
    | none =>
      refine iff_of_true ⟨?_, hnodup⟩ fun _ => hfault
      exact (List.cons_perm_iff_perm_erase.mp hchain.symm).2.symm
    | some f =>
      -- the slot is gone and the rule is not
      refine iff_of_false (fun hafter => ?_) (by simp [DeletesSucceed, hentry, hfault])
      have hbefore := hchain.length_eq
      have hlen := hafter.perm.length_eq
      simp only [Option.isNone_some, Bool.false_eq_true, if_false, List.length_map] at hlen
      simp only [List.map_cons, List.length_cons, List.length_map] at hbefore
      omega
  | @tick now =>
    have hscan := activeIps_expireScan now maxExpiryPerTick grants
    have hchain := hsync.perm.trans (hscan.map _)
    have hnodup := (List.nodup_append.mp (hscan.nodup_iff.mp hsync.nodup)).2.1
    simp only [DeletesSucceed, ← length_expireScan]
    constructor
    · intro hafter
      -- as many rules went as grants, so every deletion did its work
      apply faults_eq_none_of_length hchain
      simpa using hafter.perm.length_eq
    · intro hfaults
      exact ⟨deleteRules_perm hchain hfaults, hnodup⟩

end Step

/-! ### Runs -/

section Run

variable {cfg : Config} {rules : Ruleset} {chain : List Rule} {grants : List Grant} {added : Bool}

theorem inSync_of_iff : InSync cfg (.of added rules grants chain) ↔
    Mirrors cfg.protectedPort grants (acceptRules chain) := by
  constructor
  · rintro ⟨grants', chain', hgrants, hchain, h⟩
    cases hgrants
    cases hchain
    exact h
  · exact fun h => ⟨grants, chain, rfl, rfl, h⟩

/-- The condition of a step, on the state it is made in. -/
def FirewallState.DeletesSucceed (st : FirewallState) (step : FirewallStep) : Prop :=
  ∀ grants, st.fw.grants = some grants → Knockd.DeletesSucceed grants step

theorem inSync_step_iff (hsync : InSync cfg (.of added rules grants chain))
    (step : FirewallStep) :
    ∃ grants' chain', (firewallStep cfg (.of added rules grants chain) step).1 =
        .of added rules grants' chain' ∧
      (InSync cfg (.of added rules grants' chain') ↔ Knockd.DeletesSucceed grants step) := by
  obtain ⟨grants', chain', rc, hmove, hstep⟩ :=
    firewallStep_move cfg added rules grants chain step
  refine ⟨grants', chain', by rw [hstep], ?_⟩
  rw [inSync_of_iff]
  exact mirrors_move_iff (inSync_of_iff.mp hsync) hmove.acceptRules

/-- From a state in step: every state of a run is in step iff no deletion of the run
meets a fault. -/
theorem inSync_run_iff (hsync : InSync cfg (.of added rules grants chain))
    (steps : List FirewallStep) :
    (∀ n, InSync cfg (firewallRun cfg (.of added rules grants chain) (steps.take n)).1) ↔
      ∀ n step, steps[n]? = some step →
        (firewallRun cfg (.of added rules grants chain) (steps.take n)).1.DeletesSucceed step := by
  induction steps generalizing grants chain with
  | nil => simpa [firewallRun] using hsync
  | cons step steps ih =>
    obtain ⟨grants', chain', hnext, hiff⟩ := inSync_step_iff hsync step
    constructor
    · intro hall n s hn
      have hafter : InSync cfg (.of added rules grants' chain') := by
        have := hall 1
        simpa [firewallRun, hnext] using this
      cases n with
      | zero =>
        obtain rfl : step = s := by simpa using hn
        rintro gs ⟨⟩
        exact hiff.mp hafter
      | succ n =>
        simp only [List.take_succ_cons, firewallRun, hnext]
        refine (ih hafter).mp (fun m => ?_) n s (by simpa using hn)
        have := hall (m + 1)
        simpa only [List.take_succ_cons, firewallRun, hnext] using this
    · intro hall n
      cases n with
      | zero => exact hsync
      | succ n =>
        have hafter := hiff.mpr (hall 0 step rfl grants rfl)
        simp only [List.take_succ_cons, firewallRun, hnext]
        refine (ih hafter).mpr (fun m s hm => ?_) n
        have := hall (m + 1) s (by simpa using hm)
        simpa only [List.take_succ_cons, firewallRun, hnext] using this

/-- **When the table and the chain stay in step.** After a successful
initialisation, whatever the addresses, clock readings and faults: the grant table and
the chain agree after every call exactly when none of the deletions issued along the
run meets a fault. Insertions may fail as they like. -/
theorem inSync_iff_deletesSucceed (cfg : Config) (calloc : Bool) (faults : ℕ → Option Fault)
    (rules : Ruleset) (hstart : (firewallStart cfg calloc faults rules).2 = 0)
    (steps : List FirewallStep) :
    (∀ n, InSync cfg
        (firewallRun cfg (firewallStart cfg calloc faults rules).1 (steps.take n)).1) ↔
      ∀ n step, steps[n]? = some step →
        (firewallRun cfg (firewallStart cfg calloc faults rules).1
          (steps.take n)).1.DeletesSucceed step := by
  obtain ⟨added, hst, -⟩ := firewallStart_ok hstart
  rw [hst]
  refine inSync_run_iff (inSync_of_iff.mpr ⟨?_, ?_⟩) steps
  · simp [acceptRules, activeIps, SlotTable.liveKeys, Grant.zeroed]
  · simp [activeIps, SlotTable.liveKeys, Grant.zeroed]

end Run

/-- One deletion killed by a signal: the rule of address 10 outlives its grant, and the
next grant of that address installs a second one. -/
theorem inSync_lost_by_failedDelete :
    let start := firewallStart .default true (fun _ => none) .empty
    let opened : FirewallStep := ⟨.open 100 10, fun _ => none⟩
    let closed : FirewallStep := ⟨.close 10, fun _ => some .killed⟩
    start.2 = 0 ∧
      ¬ InSync .default (firewallRun .default start.1 [opened, closed]).1 ∧
      (firewallRun .default start.1 [opened, closed, opened]).1.rules.knockd =
        some [Rule.grant 10 22, Rule.grant 10 22] := by
  intro start opened closed
  refine ⟨by decide, ?_, by decide⟩
  rintro ⟨grants, chain, hgrants, hchain, hsync⟩
  have hrule : (firewallRun .default start.1 [opened, closed]).1.rules.knockd =
      some [Rule.grant 10 22] := by decide
  have hnone : (firewallRun .default start.1 [opened, closed]).1.fw.grants.map activeIps =
      some [] := by decide
  rw [hchain, Option.some.injEq] at hrule
  rw [hgrants, Option.map_some, Option.some.injEq] at hnone
  have hlen := hsync.perm.length_eq
  rw [hrule, hnone] at hlen
  exact absurd hlen (by decide)

/-- An insertion that fails and a deletion that succeeds. -/
theorem inSync_kept_by_failedInsert :
    let start := firewallStart .default true (fun _ => none) .empty
    let refused : FirewallStep := ⟨.open 100 10, fun _ => some .killed⟩
    let opened : FirewallStep := ⟨.open 101 11, fun _ => none⟩
    let closed : FirewallStep := ⟨.close 11, fun _ => none⟩
    start.2 = 0 ∧
      ∀ n, InSync .default
        (firewallRun .default start.1 ([refused, opened, closed].take n)).1 := by
  intro start refused opened closed
  have hstart : start.2 = 0 := by decide
  refine ⟨hstart, (inSync_iff_deletesSucceed .default true (fun _ => none) .empty hstart
    [refused, opened, closed]).mpr fun n step hn => ?_⟩
  intro grants _
  match n with
  | 0 => cases hn; trivial
  | 1 => cases hn; trivial
  | 2 => cases hn; exact fun _ => rfl
  | n + 3 => cases hn

end Knockd
