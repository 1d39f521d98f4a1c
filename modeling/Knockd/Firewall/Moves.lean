import Mathlib.Algebra.Order.Group.Int
import Mathlib.Algebra.Order.Group.Nat
import Knockd.Model.Firewall

/-!
# What one call does to the grants and the chain

As for the client table, the rest of the development does not unfold the functions of
`firewall.c`. `FirewallMove` lists everything a call can do to the pair of grant table
and chain, and `firewallStep_move` says that the model makes only these moves.

## Main definitions

* `activeIps` — the addresses that hold a grant
* `deleteRules` — the effect of the deletions of one tick on the chain
* `FirewallMove` — the moves of the grant table and the chain

## Main results

* `firewallStart_ok` — what a successful initialisation leaves
* `firewallStep_move` — the model makes only the moves listed
* `expireScan_eq` — which slots a tick looks at and what it does to them
-/

namespace Knockd

open Effect.Prog (run_bind)

/-! ### One command -/

section Commands

variable {cfg : Config} {c : Command} {quiet : Bool} {faults : ℕ → Option Fault}
  {rules : Ruleset}

/-- The return code of a command that ended this way. -/
def Response.code (r : Response) : ℤ := if r.ok then 0 else -1

theorem Response.code_eq_zero {r : Response} : r.code = 0 ↔ r.ok = true := by
  unfold Response.code
  split <;> simp_all

@[simp] theorem runIptables_value :
    ((runIptables cfg c quiet).run handle faults rules).value =
      (handle c (faults 0) rules).1.code := by
  simp only [runIptables, Effect.Prog.say_bind, Effect.Prog.issue_bind, Effect.Prog.run,
    Response.code]
  split <;> rfl

@[simp] theorem runIptables_state :
    ((runIptables cfg c quiet).run handle faults rules).state =
      (handle c (faults 0) rules).2 := by
  simp only [runIptables, Effect.Prog.say_bind, Effect.Prog.issue_bind, Effect.Prog.run]
  split <;> rfl

@[simp] theorem runIptables_calls :
    ((runIptables cfg c quiet).run handle faults rules).calls =
      [(c, (handle c (faults 0) rules).1)] := by
  simp only [runIptables, Effect.Prog.say_bind, Effect.Prog.issue_bind, Effect.Prog.run]
  split <;> rfl

variable {chain : List Rule}

theorem Ruleset.set_knockd (h : rules.knockd = some chain) :
    { rules with knockd := some chain } = rules := by
  rw [← h]

theorem handle_insertGrant (h : rules.knockd = some chain) (ip : UInt32) (port : ℤ)
    (fault : Option Fault) :
    (handle (.insertGrant ip port) fault rules).1.ok = fault.isNone ∧
      (handle (.insertGrant ip port) fault rules).2 =
        { rules with
          knockd := some (if fault.isNone then Rule.grant ip port :: chain else chain) } := by
  cases fault with
  | none => simp [handle, Command.exec, h, Response.ok]
  | some f => exact ⟨f.2, (Ruleset.set_knockd h).symm⟩

/-- A deletion takes the rule away, if it is there and nothing goes wrong. -/
theorem handle_deleteGrant (h : rules.knockd = some chain) (ip : UInt32) (port : ℤ)
    (fault : Option Fault) :
    (handle (.deleteGrant ip port) fault rules).2 =
      { rules with
        knockd := some (if fault.isNone then chain.erase (Rule.grant ip port) else chain) } := by
  cases fault with
  | none =>
    by_cases hmem : Rule.grant ip port ∈ chain
    · simp [handle, Command.exec, h, hmem]
    · simp [handle, Command.exec, h, hmem, List.erase_of_not_mem hmem, Ruleset.set_knockd h]
  | some f => exact (Ruleset.set_knockd h).symm

end Commands

/-! ### The moves -/

/-- The addresses that hold a grant. -/
def activeIps (grants : List Grant) : List UInt32 :=
  SlotTable.liveKeys Grant.active Grant.ip grants

/-- The chain after the deletions of one tick: those that meet a fault do nothing. -/
def deleteRules (port : ℤ) : (ℕ → Option Fault) → List UInt32 → List Rule → List Rule
  | _, [], chain => chain
  | faults, ip :: rest, chain =>
    deleteRules port (fun n => faults (n + 1)) rest
      (if (faults 0).isNone then chain.erase (Rule.grant ip port) else chain)

/-- Everything a call can do to the grant table and the chain, with its return code. -/
inductive FirewallMove (cfg : Config) (grants : List Grant) (chain : List Rule)
    (faults : ℕ → Option Fault) : FirewallCall → List Grant → List Rule → ℤ → Prop
  | extend {now : ℤ} {ip : UInt32} {i : ℕ} {g : Grant} (hslot : grants[i]? = some g)
      (hentry : grantEntry grants ip = some g) :
      FirewallMove cfg grants chain faults (.open now ip)
        (grants.set i { g with expiresAt := now + cfg.accessTimeout }) chain 0
  | refuse {now : ℤ} {ip : UInt32} (hentry : grantEntry grants ip = none)
      (hfull : ∀ g ∈ grants, g.active = true) :
      FirewallMove cfg grants chain faults (.open now ip) grants chain (-1)
  | insertFailed {now : ℤ} {ip : UInt32} {i : ℕ} {g : Grant} (hslot : grants[i]? = some g)
      (hfree : g.active = false) (hentry : grantEntry grants ip = none)
      (hfault : (faults 0).isNone = false) :
      FirewallMove cfg grants chain faults (.open now ip)
        (grants.set i ⟨ip, now + cfg.accessTimeout, false⟩) chain (-1)
  | insert {now : ℤ} {ip : UInt32} {i : ℕ} {g : Grant} (hslot : grants[i]? = some g)
      (hfree : g.active = false) (hentry : grantEntry grants ip = none)
      (hfault : (faults 0).isNone = true) :
      FirewallMove cfg grants chain faults (.open now ip)
        (grants.set i ⟨ip, now + cfg.accessTimeout, true⟩)
        (Rule.grant ip cfg.protectedPort :: chain) 0
  | noGrant {ip : UInt32} (hentry : grantEntry grants ip = none) :
      FirewallMove cfg grants chain faults (.close ip) grants chain 0
  | close {ip : UInt32} {i : ℕ} {g : Grant} {rc : ℤ} (hslot : grants[i]? = some g)
      (hentry : grantEntry grants ip = some g) :
      FirewallMove cfg grants chain faults (.close ip) (grants.set i { g with active := false })
        (if (faults 0).isNone then chain.erase (Rule.grant ip cfg.protectedPort) else chain) rc
  | tick {now : ℤ} :
      FirewallMove cfg grants chain faults (.tick now)
        (expireScan now maxExpiryPerTick grants).2
        (deleteRules cfg.protectedPort faults (expireScan now maxExpiryPerTick grants).1 chain) 0

section Moves

variable {cfg : Config} {faults : ℕ → Option Fault} {rules : Ruleset} {chain : List Rule}
  {grants : List Grant} {added : Bool} {now : ℤ} {ip : UInt32}

theorem exists_of_findGrant {i : ℕ} (h : findGrant grants ip = some i) :
    ∃ g, grants[i]? = some g ∧ grantEntry grants ip = some g :=
  SlotTable.lookup_eq_some h

theorem grantEntry_of_findGrant_none (h : findGrant grants ip = none) :
    grantEntry grants ip = none :=
  SlotTable.lookup_eq_none_iff.mp h

theorem exists_of_freeGrant {i : ℕ} (h : freeGrant grants = some i) :
    ∃ g, grants[i]? = some g ∧ g.active = false := by
  obtain ⟨hi, hfree, -⟩ := List.findIdx?_eq_some_iff_getElem.mp h
  exact ⟨grants[i], List.getElem?_eq_getElem hi, by simpa using hfree⟩

theorem active_of_freeGrant_none (h : freeGrant grants = none) :
    ∀ g ∈ grants, g.active = true := by
  simpa [freeGrant, List.findIdx?_eq_none_iff] using h

/-- The state a call ends in, when grants and chain end as given. -/
def FirewallState.of (added : Bool) (rules : Ruleset) (grants : List Grant)
    (chain : List Rule) : FirewallState :=
  ⟨⟨some grants, added⟩, { rules with knockd := some chain }⟩

theorem firewallOpen_move (h : rules.knockd = some chain) :
    ∃ grants' chain' rc, FirewallMove cfg grants chain faults (.open now ip) grants' chain' rc ∧
      firewallStep cfg ⟨⟨some grants, added⟩, rules⟩ ⟨.open now ip, faults⟩ =
        (.of added rules grants' chain', rc) := by
  simp only [firewallStep, FirewallStep.outcome, FirewallCall.prog, firewallOpen]
  cases hfind : findGrant grants ip with
  | some i =>
    obtain ⟨g, hslot, hentry⟩ := exists_of_findGrant hfind
    refine ⟨_, _, _, .extend hslot hentry, ?_⟩
    simp [Effect.Prog.run, FirewallState.of, ← h, List.modify_eq_set_getElem?, hslot]
  | none =>
    have hentry := grantEntry_of_findGrant_none hfind
    cases hfree : freeGrant grants with
    | none =>
      refine ⟨_, _, _, .refuse hentry (active_of_freeGrant_none hfree), ?_⟩
      simp [Effect.Prog.run, FirewallState.of, ← h]
    | some i =>
      obtain ⟨g, hslot, hinactive⟩ := exists_of_freeGrant hfree
      obtain ⟨hok, hrules⟩ := handle_insertGrant h ip cfg.protectedPort (faults 0)
      simp only [runGrantRule, run_bind, runIptables_value, runIptables_state, ne_eq,
        Response.code_eq_zero, hok, hrules]
      cases hfault : (faults 0).isNone with
      | true => exact ⟨_, _, _, .insert hslot hinactive hentry hfault, rfl⟩
      | false => exact ⟨_, _, _, .insertFailed hslot hinactive hentry hfault, rfl⟩

theorem firewallClose_move (h : rules.knockd = some chain) :
    ∃ grants' chain' rc, FirewallMove cfg grants chain faults (.close ip) grants' chain' rc ∧
      firewallStep cfg ⟨⟨some grants, added⟩, rules⟩ ⟨.close ip, faults⟩ =
        (.of added rules grants' chain', rc) := by
  simp only [firewallStep, FirewallStep.outcome, FirewallCall.prog, firewallClose]
  cases hfind : findGrant grants ip with
  | none =>
    refine ⟨_, _, _, .noGrant (grantEntry_of_findGrant_none hfind), ?_⟩
    simp [Effect.Prog.run, FirewallState.of, Ruleset.set_knockd h]
  | some i =>
    obtain ⟨g, hslot, hentry⟩ := exists_of_findGrant hfind
    have hset : grants.modify i ({ · with active := false }) =
        grants.set i { g with active := false } := by
      simp [List.modify_eq_set_getElem?, hslot]
    simp only [runGrantRule, run_bind, runIptables_value, runIptables_state,
      handle_deleteGrant h, hset]
    split
    · exact ⟨_, _, _, .close hslot hentry, rfl⟩
    · exact ⟨_, _, _, .close hslot hentry, rfl⟩

theorem closeExpired_state (h : rules.knockd = some chain) (ips : List UInt32) :
    ((closeExpired cfg ips).run handle faults rules).state =
      { rules with knockd := some (deleteRules cfg.protectedPort faults ips chain) } := by
  induction ips generalizing faults rules chain with
  | nil => exact (Ruleset.set_knockd h).symm
  | cons ip rest ih =>
    -- one deletion, a log line or none, then the rest of the list
    simp only [closeExpired, Effect.Prog.say_bind, Effect.Prog.run, runGrantRule, run_bind,
      runIptables_value, runIptables_state, runIptables_calls, handle_deleteGrant h,
      List.length_singleton, deleteRules]
    have hnext : ∀ n, faults (1 + n) = faults (n + 1) := fun n => by rw [Nat.add_comm]
    split
    · simp only [Effect.Prog.run, hnext]
      exact ih rfl
    · simp only [hnext]
      exact ih rfl

end Moves

/-- A call makes one of the moves of the grant table and the chain, and touches nothing
else. -/
theorem firewallStep_move (cfg : Config) (added : Bool) (rules : Ruleset) (grants : List Grant)
    (chain : List Rule) (step : FirewallStep) :
    ∃ grants' chain' rc,
      FirewallMove cfg grants chain step.faults step.call grants' chain' rc ∧
      firewallStep cfg (.of added rules grants chain) step =
        (.of added rules grants' chain', rc) := by
  obtain ⟨call, faults⟩ := step
  cases call with
  | «open» now ip => exact firewallOpen_move rfl
  | close ip => exact firewallClose_move rfl
  | tick now =>
    refine ⟨_, _, _, .tick, ?_⟩
    simp only [firewallStep, FirewallStep.outcome, FirewallCall.prog, firewallTick, run_bind,
      FirewallState.of]
    rw [closeExpired_state rfl]
    rfl

/-! ### The scan of a tick -/

/-- What a tick does to a slot it looks at. -/
def Grant.release (now : ℤ) (g : Grant) : Grant :=
  if g.expired now then { g with active := false } else g

/-- The scan looks at an initial part of the table, closes what has run out there, and
stops short of the end only when its budget is used up. -/
theorem expireScan_eq (now : ℤ) (budget : ℕ) (grants : List Grant) :
    ∃ seen rest, grants = seen ++ rest ∧
      expireScan now budget grants =
        ((seen.filter (Grant.expired now)).map Grant.ip, seen.map (Grant.release now) ++ rest) ∧
      seen.countP (Grant.expired now) ≤ budget ∧
      (rest = [] ∨ seen.countP (Grant.expired now) = budget) := by
  induction grants generalizing budget with
  | nil => exact ⟨[], [], by cases budget <;> simp [expireScan]⟩
  | cons g grants ih =>
    cases budget with
    | zero => exact ⟨[], g :: grants, by simp [expireScan]⟩
    | succ budget =>
      by_cases hexp : g.expired now
      · obtain ⟨seen, rest, rfl, hscan, hle, hend⟩ := ih budget
        refine ⟨g :: seen, rest, rfl, ?_, ?_, ?_⟩
        · simp [expireScan, hexp, hscan, Grant.release]
        · simpa [List.countP_cons, hexp] using hle
        · simpa [List.countP_cons, hexp] using hend
      · obtain ⟨seen, rest, rfl, hscan, hle, hend⟩ := ih (budget + 1)
        refine ⟨g :: seen, rest, rfl, ?_, ?_, ?_⟩
        · simp [expireScan, hexp, hscan, Grant.release]
        · simpa [List.countP_cons, hexp] using hle
        · simpa [List.countP_cons, hexp] using hend

section Scan

variable {now : ℤ} {g : Grant}

theorem Grant.release_of_expired (h : g.expired now = true) :
    g.release now = { g with active := false } := by
  rw [Grant.release, if_pos h]

theorem Grant.release_of_not_expired (h : g.expired now = false) : g.release now = g := by
  rw [Grant.release, if_neg (by simp [h])]

theorem Grant.expired_iff : g.expired now = true ↔ g.active = true ∧ g.expiresAt ≤ now := by
  simp [Grant.expired]

end Scan

/-! ### Initialisation -/

section Init

variable {cfg : Config} {fault : Option Fault} {rules : Ruleset}

theorem handle_newChain (fault : Option Fault) (rules : Ruleset) :
    ∃ chain, (handle .newChain fault rules).2 = { rules with knockd := chain } := by
  rcases handle_cases .newChain fault rules with hsame | hexec
  · exact ⟨rules.knockd, hsame⟩
  · generalize (handle .newChain fault rules).2 = rules' at hexec
    cases hexec with
    | newChain => exact ⟨some [], rfl⟩

theorem handle_flush_of_ok (h : (handle .flush fault rules).1.ok = true) :
    (handle .flush fault rules).2 = { rules with knockd := some [] } := by
  obtain ⟨-, hexec⟩ := handle_of_ok h
  generalize (handle .flush fault rules).2 = rules' at hexec
  cases hexec with
  | flush => rfl

theorem handle_checkJump (fault : Option Fault) (rules : Ruleset) :
    (handle .checkJump fault rules).2 = rules ∧
      ((handle .checkJump fault rules).1.ok = true → Rule.jump ∈ rules.input) := by
  constructor
  · rcases handle_cases .checkJump fault rules with hsame | hexec
    · exact hsame
    · generalize (handle .checkJump fault rules).2 = rules' at hexec
      cases hexec with
      | checkJump => rfl
  · intro h
    obtain ⟨-, hexec⟩ := handle_of_ok h
    generalize (handle .checkJump fault rules).2 = rules' at hexec
    cases hexec with
    | checkJump hjump => exact hjump

theorem handle_insertJump_of_ok (h : (handle .insertJump fault rules).1.ok = true) :
    (handle .insertJump fault rules).2 = { rules with input := Rule.jump :: rules.input } := by
  obtain ⟨-, hexec⟩ := handle_of_ok h
  generalize (handle .insertJump fault rules).2 = rules' at hexec
  cases hexec with
  | insertJump => rfl

/-- A successful initialisation leaves an empty table, an empty chain, and a jump: the
one that was there, or a new one at the top. -/
theorem firewallStart_ok {calloc : Bool} {faults : ℕ → Option Fault}
    (h : (firewallStart cfg calloc faults rules).2 = 0) :
    ∃ added, (firewallStart cfg calloc faults rules).1 =
        .of added { rules with input := if added then Rule.jump :: rules.input else rules.input }
          (List.replicate cfg.maxClients.toNat .zeroed) [] ∧
      (added = false → Rule.jump ∈ rules.input) := by
  cases calloc with
  | false => simp [firewallStart, firewallInit, Effect.Prog.run] at h
  | true =>
    obtain ⟨chain, hnew⟩ := handle_newChain (faults 0) rules
    simp only [firewallStart, firewallInit, Bool.not_true, Bool.false_eq_true, if_false,
      run_bind, runIptables_value, runIptables_state, runIptables_calls, hnew,
      List.length_singleton, ne_eq, Response.code_eq_zero, Nat.add_zero] at h ⊢
    by_cases hflush : (handle .flush (faults 1) { rules with knockd := chain }).1.ok = true
    · simp only [hflush, not_true_eq_false, if_false, handle_flush_of_ok hflush, run_bind,
        runIptables_value, runIptables_state, runIptables_calls, List.length_singleton,
        Response.code_eq_zero, Nat.add_zero] at h ⊢
      obtain ⟨hcheck, hjump⟩ := handle_checkJump (faults (1 + 1)) { rules with knockd := some [] }
      rw [hcheck] at h ⊢
      by_cases hfound :
          (handle .checkJump (faults (1 + 1)) { rules with knockd := some [] }).1.ok = true
      · refine ⟨false, ?_, fun _ => hjump hfound⟩
        simp only [hfound, not_true_eq_false, if_false]
        rfl
      · simp only [hfound, Bool.false_eq_true, not_false_eq_true, if_true, run_bind,
          runIptables_value, runIptables_state, Response.code_eq_zero, Nat.add_zero] at h ⊢
        by_cases hinsert :
            (handle .insertJump (faults (1 + (1 + 1))) { rules with knockd := some [] }).1.ok = true
        · refine ⟨true, ?_, fun hfalse => (by cases hfalse)⟩
          simp only [hinsert, not_true_eq_false, if_false, handle_insertJump_of_ok hinsert]
          rfl
        · rw [if_pos hinsert] at h
          cases h
    · rw [if_pos hflush] at h
      cases h

end Init

end Knockd
