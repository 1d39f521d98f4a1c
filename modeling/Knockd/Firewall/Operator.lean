import Knockd.Firewall.Moves

/-!
# The operator's rules

Whatever the daemon does to the packet filter, it does to its own chain and to jumps
into that chain. This file follows the host's ruleset through any number of daemon
lifetimes, each of which may be cut off after any of its commands and may see any of
its commands fail. What the operator wrote stays as it was and where it was. A lifetime
that starts up and shuts down properly also gives `INPUT` back exactly as it found it:
a jump it inserted is still the first of its kind when it deletes one.

## Main definitions

* `Ruleset.operatorInput` — `INPUT` without the plain jumps to the daemon's chain
* `Lifetime` — the inputs of one lifetime: configuration, calls and faults
* `AfterLifetimes` — the rulesets that any number of lifetimes can leave

## Main results

* `handle_operatorInput` — no command touches the operator's rules
* `firewallShutdown_spec` — what a proper shutdown leaves
* `operator_rules_kept` — the result for every sequence of lifetimes
-/

namespace Knockd

open Effect.Prog (run_bind)

/-- `INPUT` with its `-j KNOCKD` rules erased. -/
def Ruleset.operatorInput (rules : Ruleset) : List Rule :=
  rules.input.filter (· ≠ Rule.jump)

/-! ### One lifetime -/

/-- The calls between start and shutdown, one after the other. -/
def serve (cfg : Config) : List FirewallCall → Firewall → FirewallProg Firewall
  | [], fw => pure fw
  | call :: calls, fw => do
    let (fw', _) ← call.prog cfg fw
    serve cfg calls fw'

/-- A lifetime as iptables sees it: `firewall_init`, the calls if that succeeded, and
`firewall_shutdown`, which `main` reaches either way. -/
def lifetime (cfg : Config) (calloc : Bool) (calls : List FirewallCall) :
    FirewallProg Firewall := do
  let (fw, rc) ← firewallInit cfg calloc .initial
  let fw' ← serve cfg (if rc = 0 then calls else []) fw
  firewallShutdown cfg fw'

/-- What one lifetime depends on, besides the ruleset it finds. -/
structure Lifetime where
  cfg : Config
  calloc : Bool
  calls : List FirewallCall
  faults : ℕ → Option Fault

namespace Lifetime

variable (life : Lifetime) (rules : Ruleset)

/-- The whole lifetime. -/
def outcome : Effect.Prog.Outcome Command Response LogLine Ruleset Firewall :=
  (lifetime life.cfg life.calloc life.calls).run handle life.faults rules

/-- Its first stage, `firewall_init`. -/
def init : Effect.Prog.Outcome Command Response LogLine Ruleset (Firewall × ℤ) :=
  (firewallInit life.cfg life.calloc .initial).run handle life.faults rules

/-- Its second stage, the calls. -/
def served : Effect.Prog.Outcome Command Response LogLine Ruleset Firewall :=
  let init := life.init rules
  (serve life.cfg (if init.value.2 = 0 then life.calls else []) init.value.1).run handle
    (fun n => life.faults (init.calls.length + n)) init.state

/-- Its last stage, `firewall_shutdown`. -/
def shut : Effect.Prog.Outcome Command Response LogLine Ruleset Firewall :=
  let init := life.init rules
  let served := life.served rules
  (firewallShutdown life.cfg served.value).run handle
    (fun n => life.faults (init.calls.length + (served.calls.length + n))) served.state

/-- A lifetime that is not cut off ends where its last stage ends. -/
theorem outcome_state : (life.outcome rules).state = (life.shut rules).state := by
  simp only [outcome, lifetime, run_bind, shut, served, init]
  rfl

end Lifetime

/-- The rulesets that any number of lifetimes can leave behind, each cut off after any
of its commands, or before the first, or not at all. -/
inductive AfterLifetimes (rules₀ : Ruleset) : Ruleset → Prop
  | start : AfterLifetimes rules₀ rules₀
  | next (life : Lifetime) {rules rules' : Ruleset} (h : AfterLifetimes rules₀ rules)
      (hcut : rules' ∈ rules :: (life.outcome rules).points) : AfterLifetimes rules₀ rules'

/-! ### No command touches the operator's rules -/

section Commands

variable {rules rules' : Ruleset}

theorem Executed.operatorInput {c : Command} (h : Executed rules c rules') :
    rules'.operatorInput = rules.operatorInput ∧ rules'.others = rules.others := by
  cases h with
  | insertJump => exact ⟨by simp [Ruleset.operatorInput], rfl⟩
  | deleteJump =>
    refine ⟨?_, rfl⟩
    -- what is erased is a jump, and the filter has none left
    rw [Ruleset.operatorInput, Ruleset.operatorInput, ← List.erase_filter]
    exact List.erase_of_not_mem (by simp)
  | _ => exact ⟨rfl, rfl⟩

/-- No command, failed or not, changes what the operator wrote. -/
theorem handle_operatorInput (c : Command) (fault : Option Fault) (rules : Ruleset) :
    (handle c fault rules).2.operatorInput = rules.operatorInput ∧
      (handle c fault rules).2.others = rules.others := by
  rcases handle_cases c fault rules with hsame | hexec
  · rw [hsame]; exact ⟨rfl, rfl⟩
  · exact hexec.operatorInput

end Commands

theorem AfterLifetimes.operatorInput {rules₀ rules : Ruleset} (h : AfterLifetimes rules₀ rules) :
    rules.operatorInput = rules₀.operatorInput ∧ rules.others = rules₀.others := by
  induction h with
  | start => exact ⟨rfl, rfl⟩
  | next life _ hcut ih =>
    have hstep : ∀ c fault x, True →
        (x.operatorInput = rules₀.operatorInput ∧ x.others = rules₀.others) →
        (handle c fault x).2.operatorInput = rules₀.operatorInput ∧
          (handle c fault x).2.others = rules₀.others := by
      intro c fault x _ hx
      obtain ⟨hinput, hothers⟩ := handle_operatorInput c fault x
      exact ⟨hinput.trans hx.1, hothers.trans hx.2⟩
    rcases List.mem_cons.mp hcut with rfl | hcut
    · exact ih
    · -- a cut is a point of the run, and every command up to it kept the rules
      exact ((Effect.Prog.issues_true _).invariant hstep life.faults ih).1 _ hcut

/-! ### A proper shutdown -/

section Shutdown

variable {cfg : Config} {grants : List Grant} {added : Bool} {rules : Ruleset}
  {faults : ℕ → Option Fault}

/-- The calls of a lifetime change the table and the chain, and nothing else. -/
theorem serve_spec (cfg : Config) (calls : List FirewallCall) (grants : List Grant) (added : Bool)
    (faults : ℕ → Option Fault) (rules : Ruleset) (chain : List Rule) :
    ∃ grants' chain',
      ((serve cfg calls ⟨some grants, added⟩).run handle faults
        { rules with knockd := some chain }).value = ⟨some grants', added⟩ ∧
      ((serve cfg calls ⟨some grants, added⟩).run handle faults
        { rules with knockd := some chain }).state = { rules with knockd := some chain' } := by
  induction calls generalizing grants faults chain with
  | nil => exact ⟨grants, chain, rfl, rfl⟩
  | cons call calls ih =>
    obtain ⟨grants₁, chain₁, rc, -, hstep⟩ :=
      firewallStep_move cfg added rules grants chain ⟨call, faults⟩
    simp only [firewallStep, FirewallStep.outcome, FirewallState.of, Prod.mk.injEq,
      FirewallState.mk.injEq] at hstep
    obtain ⟨⟨hvalue, hstate⟩, -⟩ := hstep
    simp only [serve, run_bind, hvalue, hstate]
    exact ih grants₁ _ chain₁

theorem handle_deleteJump_of_ok {fault : Option Fault}
    (h : (handle .deleteJump fault rules).1.ok = true) :
    (handle .deleteJump fault rules).2 =
      { rules with input := rules.input.erase Rule.jump } := by
  obtain ⟨-, hexec⟩ := handle_of_ok h
  generalize (handle .deleteJump fault rules).2 = rules' at hexec
  cases hexec with
  | deleteJump => rfl

/-- Removing the chain leaves it or does away with it; nothing else changes. -/
theorem handle_deleteChain (fault : Option Fault) (rules : Ruleset) :
    ∃ chain, (chain = rules.knockd ∨ chain = none) ∧
      (handle .deleteChain fault rules).2 = { rules with knockd := chain } := by
  rcases handle_cases .deleteChain fault rules with hsame | hexec
  · exact ⟨rules.knockd, Or.inl rfl, hsame⟩
  · generalize (handle .deleteChain fault rules).2 = rules' at hexec
    cases hexec with
    | deleteChain => exact ⟨none, Or.inr rfl, rfl⟩

/-- A shutdown whose commands succeed, but for the last one, deletes one jump if the
daemon had added one, and leaves the chain empty or gone. -/
theorem firewallShutdown_spec
    (hok : ∀ call ∈ ((firewallShutdown cfg ⟨some grants, added⟩).run handle faults rules).calls,
      call.1 ≠ .deleteChain → call.2.ok = true) :
    ∃ chain, (chain = some [] ∨ chain = none) ∧
      ((firewallShutdown cfg ⟨some grants, added⟩).run handle faults rules).state =
        { rules with
          input := if added then rules.input.erase Rule.jump else rules.input
          knockd := chain } := by
  simp only [firewallShutdown, run_bind, runIptables_value, runIptables_state, runIptables_calls,
    ne_eq, Response.code_eq_zero] at hok ⊢
  have hflush : (handle .flush (faults 0) rules).1.ok = true :=
    hok (.flush, _) (by simp) (by simp)
  simp only [hflush, not_true_eq_false, if_false, handle_flush_of_ok hflush,
    List.length_singleton] at hok ⊢
  -- without the flag nothing but the flush is issued
  cases added with
  | false => exact ⟨some [], Or.inl rfl, rfl⟩
  | true =>
    simp only [if_true, run_bind, runIptables_value, runIptables_state, runIptables_calls,
      Response.code_eq_zero] at hok ⊢
    have hunhook : (handle .deleteJump (faults (1 + 0)) { rules with knockd := some [] }).1.ok =
        true := hok (.deleteJump, _) (by simp) (by simp)
    obtain ⟨chain, hchain, hdelete⟩ :=
      handle_deleteChain (faults (1 + (1 + 0)))
        { rules with input := rules.input.erase Rule.jump, knockd := some [] }
    refine ⟨chain, hchain, ?_⟩
    simp only [hunhook, not_true_eq_false, if_false, handle_deleteJump_of_ok hunhook, run_bind,
      runIptables_state, List.length_singleton, hdelete]
    rfl

end Shutdown

namespace Lifetime

variable {life : Lifetime} {rules : Ruleset} {added : Bool}

/-- `INPUT` while the daemon runs: one more jump at the top if it added one. -/
def hooked (added : Bool) (rules : Ruleset) (chain : List Rule) : Ruleset :=
  { rules with
    input := if added then Rule.jump :: rules.input else rules.input
    knockd := some chain }

theorem init_spec (h : (life.init rules).value.2 = 0) :
    ∃ added, (life.init rules).value.1 =
        ⟨some (List.replicate life.cfg.maxClients.toNat .zeroed), added⟩ ∧
      (life.init rules).state = hooked added rules [] ∧
      (added = false → Rule.jump ∈ rules.input) := by
  obtain ⟨added, hstart, hjump⟩ := firewallStart_ok h
  exact ⟨added, congrArg FirewallState.fw hstart, congrArg FirewallState.rules hstart, hjump⟩

theorem served_spec
    (hvalue : (life.init rules).value.1 =
      ⟨some (List.replicate life.cfg.maxClients.toNat .zeroed), added⟩)
    (hstate : (life.init rules).state = hooked added rules []) :
    ∃ grants chain, (life.served rules).value = ⟨some grants, added⟩ ∧
      (life.served rules).state = hooked added rules chain := by
  rw [served, hvalue, hstate]
  exact serve_spec life.cfg _ _ added _
    { rules with input := if added then Rule.jump :: rules.input else rules.input } []

end Lifetime

/-- **The operator's rules are never touched.** After any number of lifetimes, whatever
their calls and faults and wherever each was cut off, `INPUT` without the daemon's
jumps and every chain that is not the daemon's are what they were. For the next
lifetime on the ruleset left behind: when its `firewall_init` returns zero, the
daemon's chain exists, is empty, and `INPUT` jumps to it; when it goes on to shut down
with all of the shutdown's commands succeeding, except possibly the removal of the
chain, it leaves `INPUT` as it found it and the daemon's chain empty or absent. -/
theorem operator_rules_kept (rules₀ rules : Ruleset) (h : AfterLifetimes rules₀ rules) :
    rules.operatorInput = rules₀.operatorInput ∧ rules.others = rules₀.others ∧
      ∀ life : Lifetime, (life.init rules).value.2 = 0 →
        ((life.init rules).state.knockd = some [] ∧
          Rule.jump ∈ (life.init rules).state.input) ∧
        ((∀ call ∈ (life.shut rules).calls, call.1 ≠ .deleteChain → call.2.ok = true) →
          (life.outcome rules).state.input = rules.input ∧
          ((life.outcome rules).state.knockd = some [] ∨
            (life.outcome rules).state.knockd = none)) := by
  obtain ⟨hinput, hothers⟩ := h.operatorInput
  refine ⟨hinput, hothers, fun life hinit => ?_⟩
  obtain ⟨added, hvalue, hstate, hjump⟩ := life.init_spec hinit
  refine ⟨?_, fun hok => ?_⟩
  · rw [hstate]
    refine ⟨rfl, ?_⟩
    cases added with
    | true => exact List.mem_cons_self
    | false => exact hjump rfl
  · obtain ⟨grants, chain, hserved, hrules⟩ := life.served_spec hvalue hstate
    rw [life.outcome_state]
    rw [Lifetime.shut, hserved, hrules] at hok ⊢
    obtain ⟨chain', hchain', hshut⟩ := firewallShutdown_spec hok
    rw [hshut]
    refine ⟨?_, hchain'⟩
    -- the jump that was added is the first one, so it is the one that goes
    cases added with
    | true => simp [Lifetime.hooked]
    | false => rfl

/-- A host whose operator drops everything and already jumps to the daemon's chain, in
which an earlier daemon has left a rule. -/
def leftoverRules : Ruleset :=
  ⟨[⟨.other "-i lo", .accept⟩, Rule.jump, ⟨.any, .other "DROP"⟩], some [Rule.grant 9 22],
    [("FORWARD", [⟨.any, .other "DROP"⟩])]⟩

/-- A lifetime whose `-C` fails although the jump is there, killed after it has added a
second jump, and the next one, which sees the same fault and ends properly. -/
theorem operator_rules_kept_spuriousCheck :
    let life : Lifetime :=
      ⟨.default, true, [.open 100 10], fun n => if n = 2 then some .killed else none⟩
    let rules := Lifetime.hooked true leftoverRules []
    rules.operatorInput = leftoverRules.operatorInput ∧
      (life.outcome rules).state.input = rules.input := by
  intro life rules
  have hkilled : rules ∈ leftoverRules :: (life.outcome leftoverRules).points := by decide
  have hkept := operator_rules_kept leftoverRules rules (.next life .start hkilled)
  exact ⟨hkept.1, ((hkept.2.2 life (by decide)).2 (by decide)).1⟩

end Knockd
