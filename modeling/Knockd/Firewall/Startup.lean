import Knockd.Firewall.Operator

/-!
# A start that fails

When `firewall_init` gives up, `main` goes straight to its cleanup, whose
`firewall_shutdown` looks at the grant table to decide whether there is anything to
undo. The error paths of `firewall_init` have cleared that pointer by then, so the
cleanup does nothing, and a chain that `-N` has just created stays behind. This file
says exactly when that happens.

## Main definitions

* `LeavesNothing` — what a failed start should leave: nothing that was not there

## Main results

* `firewallInit_failed` — what a failed initialisation leaves
* `failed_start_leaves_nothing_iff` — when the cleanup makes good for it
-/

namespace Knockd

open Effect.Prog (run_bind)

/-- The ruleset afterwards holds nothing of the daemon's that the one before did not:
`INPUT` and the operator's chains are the same, and the daemon's chain is not new. -/
structure LeavesNothing (before after : Ruleset) : Prop where
  input_eq : after.input = before.input
  others_eq : after.others = before.others
  chain_not_new : after.knockd.isSome = true → before.knockd.isSome = true

/-! ### The commands of a start, failed or not -/

section Commands

variable {rules : Ruleset}

/-- After `-N` there is a chain, unless there was none and the command met a fault. -/
theorem handle_newChain_isSome (fault : Option Fault) (rules : Ruleset) :
    (handle .newChain fault rules).2.knockd.isSome = true ↔
      rules.knockd.isSome = true ∨ fault = none := by
  cases fault with
  | some f => simp [handle]
  | none =>
    cases hchain : rules.knockd with
    | none => simp [handle, Command.exec, hchain]
    | some chain => simp [handle, Command.exec, hchain]

/-- `-F` empties the chain or leaves it; it neither makes nor removes one. -/
theorem handle_flush (fault : Option Fault) (rules : Ruleset) :
    ∃ chain, (handle .flush fault rules).2 = { rules with knockd := chain } ∧
      chain.isSome = rules.knockd.isSome := by
  rcases handle_cases .flush fault rules with hsame | hexec
  · exact ⟨rules.knockd, hsame, rfl⟩
  · generalize (handle .flush fault rules).2 = rules' at hexec
    cases hexec with
    | flush chain hchain => exact ⟨some [], rfl, by rw [hchain]; rfl⟩

end Commands

/-! ### The whole start -/

section Start

variable {cfg : Config} {calloc : Bool} {faults : ℕ → Option Fault} {rules : Ruleset}

/-- A failed initialisation has cleared the table pointer and has not added a jump.
What it can have done is to create the chain, or to empty it. -/
theorem firewallInit_failed (h : (firewallStart cfg calloc faults rules).2 ≠ 0) :
    ∃ chain, (firewallStart cfg calloc faults rules).1 =
        ⟨.initial, { rules with knockd := chain }⟩ ∧
      (chain.isSome = true ↔
        rules.knockd.isSome = true ∨ (calloc = true ∧ faults 0 = none)) := by
  cases calloc with
  | false => exact ⟨rules.knockd, rfl, by simp⟩
  | true =>
    obtain ⟨chain, hnew⟩ := handle_newChain (faults 0) rules
    have hsome := handle_newChain_isSome (faults 0) rules
    rw [hnew] at hsome
    simp only [firewallStart, firewallInit, Bool.not_true, Bool.false_eq_true, if_false,
      run_bind, runIptables_value, runIptables_state, runIptables_calls, hnew,
      List.length_singleton, ne_eq, Response.code_eq_zero, Nat.add_zero, true_and] at h ⊢
    obtain ⟨chain', hflush, hsome'⟩ := handle_flush (faults 1) { rules with knockd := chain }
    rw [← hsome, ← hsome']
    by_cases hflushed : (handle .flush (faults 1) { rules with knockd := chain }).1.ok = true
    · simp only [hflushed, not_true_eq_false, if_false, hflush, run_bind,
        runIptables_value, runIptables_state, runIptables_calls, List.length_singleton,
        Response.code_eq_zero, Nat.add_zero] at h ⊢
      rw [(handle_checkJump (faults (1 + 1)) { rules with knockd := chain' }).1] at h ⊢
      by_cases hfound :
          (handle .checkJump (faults (1 + 1)) { rules with knockd := chain' }).1.ok = true
      · -- with the jump in place the start succeeds
        simp only [hfound, not_true_eq_false, if_false] at h
        exact absurd rfl h
      · simp only [hfound, Bool.false_eq_true, not_false_eq_true, if_true, run_bind,
          runIptables_value, runIptables_state, Response.code_eq_zero, Nat.add_zero] at h ⊢
        by_cases hinsert :
            (handle .insertJump (faults (1 + (1 + 1))) { rules with knockd := chain' }).1.ok = true
        · simp only [hinsert, not_true_eq_false, if_false] at h
          exact absurd rfl h
        · have hsame := handle_of_not_ok (Bool.eq_false_iff.mpr hinsert)
          refine ⟨chain', ?_, Iff.rfl⟩
          rw [if_pos hinsert, hsame]
          rfl
    · refine ⟨chain', ?_, Iff.rfl⟩
      rw [if_pos hflushed, hflush]
      rfl

end Start

namespace Lifetime

variable {life : Lifetime} {rules : Ruleset}

/-- After a failed start the cleanup leaves the ruleset as `firewall_init` left it. -/
theorem outcome_state_of_failed (h : (life.init rules).value.2 ≠ 0)
    (hfw : (life.init rules).value.1 = .initial) :
    (life.outcome rules).state = (life.init rules).state := by
  rw [life.outcome_state, shut, served, if_neg h, hfw]
  rfl

end Lifetime

/-- **When a failed start leaves nothing behind.** If `firewall_init` returns minus one,
then after `main`'s cleanup `INPUT` and the operator's chains are as they were, and the
daemon's chain exists only if it did before, exactly in these cases: the chain was
there already, the grant table could not be allocated, or the very first command, the
`-N`, met a fault. In every other failed start the chain just created stays. -/
theorem failed_start_leaves_nothing_iff (life : Lifetime) (rules : Ruleset)
    (h : (life.init rules).value.2 = -1) :
    LeavesNothing rules (life.outcome rules).state ↔
      rules.knockd.isSome = true ∨ life.calloc = false ∨ (life.faults 0).isSome = true := by
  have hfailed : (life.init rules).value.2 ≠ 0 := by
    rw [h]
    decide
  obtain ⟨chain, hstart, hchain⟩ := firewallInit_failed hfailed
  have hfw : (life.init rules).value.1 = .initial := congrArg FirewallState.fw hstart
  have hrules : (life.init rules).state = { rules with knockd := chain } :=
    congrArg FirewallState.rules hstart
  rw [Lifetime.outcome_state_of_failed hfailed hfw, hrules]
  constructor
  · intro hleaves
    by_contra hnone
    obtain ⟨habsent, hcalloc, hfault⟩ : ¬ rules.knockd.isSome = true ∧ life.calloc = true ∧
        life.faults 0 = none := by simpa [not_or] using hnone
    exact habsent (hleaves.chain_not_new (hchain.mpr (Or.inr ⟨hcalloc, hfault⟩)))
  · intro hcase
    refine ⟨rfl, rfl, fun hsome => ?_⟩
    rcases hchain.mp hsome with hbefore | ⟨hcalloc, hfault⟩
    · exact hbefore
    · -- the other two cases contradict a chain that `-N` made
      rcases hcase with hbefore | hcalloc' | hfault'
      · exact hbefore
      · rw [hcalloc] at hcalloc'
        cases hcalloc'
      · rw [hfault] at hfault'
        cases hfault'

/-- A start on an empty filter table in which the command numbered `n` is killed. -/
def killedStart (n : ℕ) : Lifetime :=
  ⟨.default, true, [], fun m => if m = n then some .killed else none⟩

/-- With its first command killed, and the flush failing for want of a chain, a start
leaves an empty table empty. -/
theorem failed_start_leaves_nothing_of_killed_newChain :
    LeavesNothing .empty ((killedStart 0).outcome .empty).state :=
  (failed_start_leaves_nothing_iff (killedStart 0) .empty (by decide)).mpr (by decide)

/-- A start whose `-I INPUT` is killed on an empty filter table leaves a chain that was
not there. -/
theorem failed_start_leaves_chain :
    ¬ ∀ (life : Lifetime) (rules : Ruleset), (life.init rules).value.2 = -1 →
      LeavesNothing rules (life.outcome rules).state := by
  intro h
  have hleaves := h (killedStart 3) .empty (by decide)
  exact absurd (hleaves.chain_not_new (by decide)) (by decide)

end Knockd
