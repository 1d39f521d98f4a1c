import Knockd.Model.Logger

/-!
# The packet filter

The daemon changes the host's packet filter only by running the iptables program and
looking at how it ended. This file models what the daemon relies on: the ruleset, the
eight command lines `firewall.c` uses, and what each of them does. A rule is deleted
by its specification, so the first rule with that specification goes, whoever wrote
it. What this takes for granted of the program, in terms of its arguments alone, is
`IptablesLaws`.

A command can also go wrong for reasons of its own: `fork` or `waitpid` fails, the
program is missing, the lock is held for too long, a signal kills it. Such a fault is
an input chosen by the environment. It leaves the ruleset alone.

## Main definitions

* `Rule`, `Ruleset` — chains of rules
* `Command`, `Command.argv`, `Command.exec` — the command lines and their effect
* `Response`, `Fault` — how a command can end
* `handle` — one command against the ruleset, faults included
* `Executed` — what a command that does not refuse finds and leaves
-/

namespace Knockd

/-- `IPTABLES_PATH`. -/
def iptablesPath : String := "/usr/sbin/iptables"

/-- `KNOCKD_CHAIN`. -/
def knockdChain : String := "KNOCKD"

/-- `IPTABLES_WAIT`. -/
def iptablesWait : String := "5"

/-- The match part of a rule: everything, the match of a grant, or any other. -/
inductive RuleMatch
  | any
  | grant (src : UInt32) (dport : ℤ)
  | other (spec : String)
  deriving DecidableEq, Repr

/-- Where a matching packet goes. -/
inductive Target | accept | knockd | other (name : String)
  deriving DecidableEq, Repr

/-- One rule of a chain. -/
structure Rule where
  cond : RuleMatch
  target : Target
  deriving DecidableEq, Repr

/-- `-j KNOCKD`. -/
def Rule.jump : Rule := ⟨.any, .knockd⟩

/-- `-s ip -p tcp --dport port -j ACCEPT`. -/
def Rule.grant (ip : UInt32) (port : ℤ) : Rule := ⟨.grant ip port, .accept⟩

theorem Rule.grant_inj {ip ip' : UInt32} {port port' : ℤ} :
    Rule.grant ip port = Rule.grant ip' port' ↔ ip = ip' ∧ port = port' := by
  simp [Rule.grant]

/-- The filter table: `INPUT`, the daemon's own chain if there is one, and the rest. -/
structure Ruleset where
  input : List Rule
  knockd : Option (List Rule)
  others : List (String × List Rule)
  deriving DecidableEq, Repr

/-- A filter table with nothing in it. -/
def Ruleset.empty : Ruleset := ⟨[], none, []⟩

/-- Does a rule outside the chain send packets to it? -/
def Ruleset.referenced (rules : Ruleset) : Bool :=
  rules.input.any (·.target == .knockd) ||
    rules.others.any fun chain => chain.2.any (·.target == .knockd)

/-- The command lines of `firewall.c`. -/
inductive Command
  | newChain
  | flush
  | checkJump
  | insertJump
  | deleteJump
  | deleteChain
  | insertGrant (ip : UInt32) (port : ℤ)
  | deleteGrant (ip : UInt32) (port : ℤ)
  deriving DecidableEq, Repr

/-- The arguments after the path and the lock timeout. A validated port has at most
five digits, so `port_str` always holds it. -/
def Command.args : Command → List String
  | .newChain => ["-N", knockdChain]
  | .flush => ["-F", knockdChain]
  | .checkJump => ["-C", "INPUT", "-j", knockdChain]
  | .insertJump => ["-I", "INPUT", "1", "-j", knockdChain]
  | .deleteJump => ["-D", "INPUT", "-j", knockdChain]
  | .deleteChain => ["-X", knockdChain]
  | .insertGrant ip port => grantArgs "-I" ip port
  | .deleteGrant ip port => grantArgs "-D" ip port
where
  /-- The argument list of `run_grant_rule`. -/
  grantArgs (action : String) (ip : UInt32) (port : ℤ) : List String :=
    [action, knockdChain, "-s", inetNtop ip, "-p", "tcp", "--dport", toString port,
      "-j", "ACCEPT"]

/-- The whole argument vector. -/
def Command.argv (c : Command) : List String :=
  [iptablesPath, "-w", iptablesWait] ++ c.args

/-- What a command does when it runs: the new ruleset, or `none` when it refuses. -/
def Command.exec : Command → Ruleset → Option Ruleset
  | .newChain, rules =>
    match rules.knockd with
    | none => some { rules with knockd := some [] }
    -- `-N` refuses a chain that is there already
    | some _ => none
  | .flush, rules => rules.knockd.map fun _ => { rules with knockd := some [] }
  | .checkJump, rules => if Rule.jump ∈ rules.input then some rules else none
  -- a jump needs a chain to jump to
  | .insertJump, rules =>
    if rules.knockd.isSome then some { rules with input := Rule.jump :: rules.input } else none
  | .deleteJump, rules =>
    if Rule.jump ∈ rules.input then some { rules with input := rules.input.erase Rule.jump }
    else none
  -- `-X` refuses a chain that has rules or is jumped to
  | .deleteChain, rules =>
    if rules.knockd = some [] ∧ rules.referenced = false then some { rules with knockd := none }
    else none
  | .insertGrant ip port, rules =>
    rules.knockd.map fun chain => { rules with knockd := some (Rule.grant ip port :: chain) }
  | .deleteGrant ip port, rules =>
    match rules.knockd with
    | some chain =>
      if Rule.grant ip port ∈ chain then
        some { rules with knockd := some (chain.erase (Rule.grant ip port)) }
      else none
    | none => none

/-- What a command that does not refuse finds and what it leaves. -/
inductive Executed (rules : Ruleset) : Command → Ruleset → Prop
  | newChain (habsent : rules.knockd = none) :
      Executed rules .newChain { rules with knockd := some [] }
  | flush (chain : List Rule) (hchain : rules.knockd = some chain) :
      Executed rules .flush { rules with knockd := some [] }
  | checkJump (hjump : Rule.jump ∈ rules.input) : Executed rules .checkJump rules
  | insertJump (hchain : rules.knockd.isSome = true) :
      Executed rules .insertJump { rules with input := Rule.jump :: rules.input }
  | deleteJump (hjump : Rule.jump ∈ rules.input) :
      Executed rules .deleteJump { rules with input := rules.input.erase Rule.jump }
  | deleteChain (hempty : rules.knockd = some []) (hfree : rules.referenced = false) :
      Executed rules .deleteChain { rules with knockd := none }
  | insertGrant (ip : UInt32) (port : ℤ) (chain : List Rule) (hchain : rules.knockd = some chain) :
      Executed rules (.insertGrant ip port)
        { rules with knockd := some (Rule.grant ip port :: chain) }
  | deleteGrant (ip : UInt32) (port : ℤ) (chain : List Rule) (hchain : rules.knockd = some chain)
      (hrule : Rule.grant ip port ∈ chain) :
      Executed rules (.deleteGrant ip port)
        { rules with knockd := some (chain.erase (Rule.grant ip port)) }

/-- The case analysis on `Command.exec`, made once. -/
theorem executed_of_exec {c : Command} {rules rules' : Ruleset} (h : c.exec rules = some rules') :
    Executed rules c rules' := by
  cases c with
  | newChain =>
    simp only [Command.exec] at h
    split at h
    · rename_i habsent
      cases h
      exact .newChain habsent
    · cases h
  | flush =>
    obtain ⟨chain, hchain, rfl⟩ := Option.map_eq_some_iff.mp h
    exact .flush chain hchain
  | checkJump =>
    simp only [Command.exec] at h
    split at h
    · rename_i hjump
      cases h
      exact .checkJump hjump
    · cases h
  | insertJump =>
    simp only [Command.exec] at h
    split at h
    · rename_i hchain
      cases h
      exact .insertJump hchain
    · cases h
  | deleteJump =>
    simp only [Command.exec] at h
    split at h
    · rename_i hjump
      cases h
      exact .deleteJump hjump
    · cases h
  | deleteChain =>
    simp only [Command.exec] at h
    split at h
    · rename_i hfree
      cases h
      exact .deleteChain hfree.1 hfree.2
    · cases h
  | insertGrant ip port =>
    obtain ⟨chain, hchain, rfl⟩ := Option.map_eq_some_iff.mp h
    exact .insertGrant ip port chain hchain
  | deleteGrant ip port =>
    simp only [Command.exec] at h
    split at h
    · rename_i chain hchain
      split at h
      · rename_i hrule
        cases h
        exact .deleteGrant ip port chain hchain hrule
      · cases h
    · cases h

/-- How a run of the program ends, as `run_iptables` sees it. -/
inductive Response
  | forkFailed (reason : String)
  | waitFailed (reason : String)
  | exited (status : UInt8)
  | signalled (signal : UInt8)
  deriving DecidableEq, Repr

/-- `WIFEXITED(status) && WEXITSTATUS(status) == 0`. -/
def Response.ok : Response → Bool
  | .exited status => status == 0
  | _ => false

/-- A way to fail that has nothing to do with the ruleset. -/
abbrev Fault := { r : Response // r.ok = false }

/-- The fault of a command killed by signal 9. -/
def Fault.killed : Fault := ⟨.signalled 9, rfl⟩

/-- One command. A fault ends it with no effect; otherwise it has its effect, or
refuses with exit status one. -/
def handle (c : Command) (fault : Option Fault) (rules : Ruleset) : Response × Ruleset :=
  match fault with
  | some f => (f, rules)
  | none =>
    match c.exec rules with
    | some rules' => (.exited 0, rules')
    | none => (.exited 1, rules)

section Handle

variable {c : Command} {fault : Option Fault} {rules : Ruleset}

/-- A command that reports success had its effect, free of faults. -/
theorem handle_of_ok (h : (handle c fault rules).1.ok = true) :
    fault = none ∧ Executed rules c (handle c fault rules).2 := by
  unfold handle at h ⊢
  split at h
  · rename_i f
    rw [f.2] at h
    cases h
  · split at h
    · rename_i rules' hexec
      exact ⟨rfl, executed_of_exec hexec⟩
    · cases h

/-- A command that reports failure changed nothing. -/
theorem handle_of_not_ok (h : (handle c fault rules).1.ok = false) :
    (handle c fault rules).2 = rules := by
  unfold handle at h ⊢
  split at h
  · rfl
  · split at h
    · cases h
    · rfl

/-- Either way, what is left is the ruleset from before or the effect of the
command. -/
theorem handle_cases (c : Command) (fault : Option Fault) (rules : Ruleset) :
    (handle c fault rules).2 = rules ∨ Executed rules c (handle c fault rules).2 := by
  cases h : (handle c fault rules).1.ok with
  | true => exact Or.inr (handle_of_ok h).2
  | false => exact Or.inl (handle_of_not_ok h)

end Handle

end Knockd
