import Knockd.Math.Bytes
import Knockd.Model.Firewall
import Mathlib

/-!
# What is assumed of iptables

The daemon knows nothing of iptables but the argument vectors it starts it with and how the
program ends. What the model assumes is stated here of a program that is given by just
that: what it does with a vector, a fault and a ruleset. There is one law for each of the
eight vectors, written out as `firewall.c` has them, and one for faults: a program that does
not come to do its work changes nothing. Of other vectors nothing is assumed.

A program that keeps these laws does with the vector of a command what `handle` does with the
command, so every result about `handle` is one about any such program. And there is one, as
the vectors of different commands are different.

## Main definitions

* `IptablesLaws` — what is assumed

## Main results

* `IptablesLaws.run_argv` — such a program does with a vector what `handle` does
* `IptablesLaws.run_eq`, `IptablesLaws.step_eq` — and so the firewall's calls run against it
* `argv_injective` — a vector tells which command it is
* `iptablesLaws_ofHandle` — the laws can be kept
-/

namespace Knockd

/-- What a program does that is started with an argument vector. -/
abbrev ArgvHandler := List String → Option Fault → Ruleset → Response × Ruleset

/-- What the daemon relies on when it runs iptables. -/
structure IptablesLaws (iptables : ArgvHandler) : Prop where
  fault : ∀ argv f rules, iptables argv (some f) rules = (f.val, rules)
  newChain : ∀ rules,
    iptables ["/usr/sbin/iptables", "-w", "5", "-N", "KNOCKD"] none rules =
      if rules.knockd = none then (.exited 0, { rules with knockd := some [] })
      else (.exited 1, rules)
  flush : ∀ rules,
    iptables ["/usr/sbin/iptables", "-w", "5", "-F", "KNOCKD"] none rules =
      if rules.knockd = none then (.exited 1, rules)
      else (.exited 0, { rules with knockd := some [] })
  checkJump : ∀ rules,
    iptables ["/usr/sbin/iptables", "-w", "5", "-C", "INPUT", "-j", "KNOCKD"] none rules =
      if Rule.jump ∈ rules.input then (.exited 0, rules) else (.exited 1, rules)
  insertJump : ∀ rules,
    iptables ["/usr/sbin/iptables", "-w", "5", "-I", "INPUT", "1", "-j", "KNOCKD"] none rules =
      if rules.knockd = none then (.exited 1, rules)
      else (.exited 0, { rules with input := Rule.jump :: rules.input })
  deleteJump : ∀ rules,
    iptables ["/usr/sbin/iptables", "-w", "5", "-D", "INPUT", "-j", "KNOCKD"] none rules =
      if Rule.jump ∈ rules.input then
        (.exited 0, { rules with input := rules.input.erase Rule.jump })
      else (.exited 1, rules)
  deleteChain : ∀ rules,
    iptables ["/usr/sbin/iptables", "-w", "5", "-X", "KNOCKD"] none rules =
      if rules.knockd = some [] ∧ rules.referenced = false then
        (.exited 0, { rules with knockd := none })
      else (.exited 1, rules)
  insertGrant : ∀ ip port rules,
    iptables ["/usr/sbin/iptables", "-w", "5", "-I", "KNOCKD", "-s", inetNtop ip, "-p", "tcp",
        "--dport", toString port, "-j", "ACCEPT"] none rules =
      match rules.knockd with
      | some chain => (.exited 0, { rules with knockd := some (Rule.grant ip port :: chain) })
      | none => (.exited 1, rules)
  deleteGrant : ∀ ip port rules,
    iptables ["/usr/sbin/iptables", "-w", "5", "-D", "KNOCKD", "-s", inetNtop ip, "-p", "tcp",
        "--dport", toString port, "-j", "ACCEPT"] none rules =
      match rules.knockd with
      | some chain =>
        if Rule.grant ip port ∈ chain then
          (.exited 0, { rules with knockd := some (chain.erase (Rule.grant ip port)) })
        else (.exited 1, rules)
      | none => (.exited 1, rules)

/-! ### Commands without a fault -/

section Handle

variable (rules : Ruleset)

theorem handle_none_newChain : handle .newChain none rules =
    if rules.knockd = none then (.exited 0, { rules with knockd := some [] })
    else (.exited 1, rules) := by
  cases hchain : rules.knockd <;> simp [handle, Command.exec, hchain]

theorem handle_none_flush : handle .flush none rules =
    if rules.knockd = none then (.exited 1, rules)
    else (.exited 0, { rules with knockd := some [] }) := by
  cases hchain : rules.knockd <;> simp [handle, Command.exec, hchain]

theorem handle_none_checkJump : handle .checkJump none rules =
    if Rule.jump ∈ rules.input then (.exited 0, rules) else (.exited 1, rules) := by
  by_cases hjump : Rule.jump ∈ rules.input <;> simp [handle, Command.exec, hjump]

theorem handle_none_insertJump : handle .insertJump none rules =
    if rules.knockd = none then (.exited 1, rules)
    else (.exited 0, { rules with input := Rule.jump :: rules.input }) := by
  cases hchain : rules.knockd <;> simp [handle, Command.exec, hchain]

theorem handle_none_deleteJump : handle .deleteJump none rules =
    if Rule.jump ∈ rules.input then
      (.exited 0, { rules with input := rules.input.erase Rule.jump })
    else (.exited 1, rules) := by
  by_cases hjump : Rule.jump ∈ rules.input <;> simp [handle, Command.exec, hjump]

theorem handle_none_deleteChain : handle .deleteChain none rules =
    if rules.knockd = some [] ∧ rules.referenced = false then
      (.exited 0, { rules with knockd := none })
    else (.exited 1, rules) := by
  by_cases hfree : rules.knockd = some [] ∧ rules.referenced = false <;>
    simp [handle, Command.exec, hfree]

theorem handle_none_insertGrant (ip : UInt32) (port : ℤ) :
    handle (.insertGrant ip port) none rules =
    match rules.knockd with
    | some chain => (.exited 0, { rules with knockd := some (Rule.grant ip port :: chain) })
    | none => (.exited 1, rules) := by
  cases hchain : rules.knockd <;> simp [handle, Command.exec, hchain]

theorem handle_none_deleteGrant (ip : UInt32) (port : ℤ) :
    handle (.deleteGrant ip port) none rules =
    match rules.knockd with
    | some chain =>
      if Rule.grant ip port ∈ chain then
        (.exited 0, { rules with knockd := some (chain.erase (Rule.grant ip port)) })
      else (.exited 1, rules)
    | none => (.exited 1, rules) := by
  cases hchain : rules.knockd with
  | none => simp [handle, Command.exec, hchain]
  | some chain =>
    by_cases hrule : Rule.grant ip port ∈ chain <;> simp [handle, Command.exec, hchain, hrule]

end Handle

section Laws

variable {iptables : ArgvHandler}

/-- A program that keeps the laws does with the vector of a command what the command does. -/
theorem IptablesLaws.run_argv (h : IptablesLaws iptables) (c : Command) (fault : Option Fault)
    (rules : Ruleset) : iptables c.argv fault rules = handle c fault rules := by
  cases fault with
  | some f => exact h.fault c.argv f rules
  | none =>
    cases c with
    | newChain => exact (h.newChain rules).trans (handle_none_newChain rules).symm
    | flush => exact (h.flush rules).trans (handle_none_flush rules).symm
    | checkJump => exact (h.checkJump rules).trans (handle_none_checkJump rules).symm
    | insertJump => exact (h.insertJump rules).trans (handle_none_insertJump rules).symm
    | deleteJump => exact (h.deleteJump rules).trans (handle_none_deleteJump rules).symm
    | deleteChain => exact (h.deleteChain rules).trans (handle_none_deleteChain rules).symm
    | insertGrant ip port =>
      exact (h.insertGrant ip port rules).trans (handle_none_insertGrant rules ip port).symm
    | deleteGrant ip port =>
      exact (h.deleteGrant ip port rules).trans (handle_none_deleteGrant rules ip port).symm

theorem IptablesLaws.argv_eq_handle (h : IptablesLaws iptables) :
    (fun c : Command => iptables c.argv) = handle := by
  funext c fault rules
  exact h.run_argv c fault rules

/-- So a call of the firewall runs against it as against `handle`, whatever the faults. -/
theorem IptablesLaws.run_eq {α : Type} (h : IptablesLaws iptables) (p : FirewallProg α)
    (faults : ℕ → Option Fault) (rules : Ruleset) :
    p.run (fun c => iptables c.argv) faults rules = p.run handle faults rules := by
  rw [h.argv_eq_handle]

/-- And so does every command of a call that is cut into steps, as in the daemon. -/
theorem IptablesLaws.step_eq {α : Type} (h : IptablesLaws iptables) (p : FirewallProg α)
    (fault : Option Fault) (rules : Ruleset) :
    p.step (fun c => iptables c.argv) fault rules = p.step handle fault rules := by
  rw [h.argv_eq_handle]

end Laws

/-! ### Telling the vectors apart -/

/-- No digit is a dot. -/
theorem dot_notMem_toString (n : ℕ) : '.' ∉ (toString n).toList := by
  intro hdot
  rw [Nat.toString_eq_repr, Nat.repr, String.toList_ofList] at hdot
  exact absurd (Nat.isDigit_of_mem_toDigits (by decide) (by decide) hdot) (by decide)

theorem toList_toString_inj {m n : ℕ} : (toString m).toList = (toString n).toList ↔ m = n := by
  rw [String.toList_inj, Nat.toString_eq_repr, Nat.toString_eq_repr, Nat.repr_inj]

theorem splitOn_dottedQuad (a b c d : ℕ) :
    List.splitOn '.'
      (String.intercalate "." [toString a, toString b, toString c, toString d]).toList =
      [(toString a).toList, (toString b).toList, (toString c).toList, (toString d).toList] := by
  rw [String.toList_intercalate]
  refine List.splitOn_intercalate '.' ?_ (List.cons_ne_nil _ _)
  simp only [List.map_cons, List.map_nil, List.forall_mem_cons]
  exact ⟨dot_notMem_toString a, dot_notMem_toString b, dot_notMem_toString c,
    dot_notMem_toString d, List.forall_mem_nil _⟩

/-- The mask of `inet_ntop` takes the low byte. -/
theorem toNat_and_byte (x : UInt32) : (x &&& 0xff).toNat = x.toUInt8.toNat := by
  rw [UInt32.toNat_and, UInt32.toNat_toUInt8]
  exact Nat.and_two_pow_sub_one_eq_mod x.toNat 8

/-- The dots separate the bytes of an address, and the bytes make it up. -/
theorem inetNtop_injective : Function.Injective inetNtop := by
  intro ip ip' h
  have hquad : List.splitOn '.' (inetNtop ip).toList = List.splitOn '.' (inetNtop ip').toList := by
    rw [h]
  unfold inetNtop at hquad
  rw [splitOn_dottedQuad, splitOn_dottedQuad] at hquad
  simp only [List.cons.injEq, toList_toString_inj, toNat_and_byte, UInt32.shiftRight_zero,
    and_true] at hquad
  obtain ⟨h₀, h₁, h₂, h₃⟩ := hquad
  rw [← Bytes.ofNat_le32 ip, ← Bytes.ofNat_le32 ip', h₀, h₁, h₂, h₃]

/-- The vectors of different commands are different. -/
theorem argv_injective : Function.Injective Command.argv := by
  intro c c' h
  have hargs : c.args = c'.args := List.append_cancel_left h
  -- the action tells the two kinds of grant rules apart, address and port the rules of one kind
  have hgrant : ∀ {action action' : String} {ip ip' : UInt32} {port port' : ℤ},
      Command.args.grantArgs action ip port = Command.args.grantArgs action' ip' port' →
      action = action' ∧ ip = ip' ∧ port = port' := by
    intro action action' ip ip' port port' heq
    simp only [Command.args.grantArgs, List.cons.injEq, true_and, and_true] at heq
    exact ⟨heq.1, inetNtop_injective heq.2.1, Int.repr_injective heq.2.2⟩
  cases c with
  | insertGrant ip port =>
    cases c' with
    | insertGrant ip' port' =>
      obtain ⟨-, rfl, rfl⟩ := hgrant hargs
      rfl
    | deleteGrant ip' port' => exact absurd (hgrant hargs).1 (by decide)
    | _ => simp [Command.args, Command.args.grantArgs] at hargs
  | deleteGrant ip port =>
    cases c' with
    | insertGrant ip' port' => exact absurd (hgrant hargs).1 (by decide)
    | deleteGrant ip' port' =>
      obtain ⟨-, rfl, rfl⟩ := hgrant hargs
      rfl
    | _ => simp [Command.args, Command.args.grantArgs] at hargs
  | _ =>
    cases c' with
    | insertGrant ip' port' => simp [Command.args, Command.args.grantArgs] at hargs
    | deleteGrant ip' port' => simp [Command.args, Command.args.grantArgs] at hargs
    | _ => first | rfl | (simp [Command.args] at hargs)

/-- A program made of `handle`: it looks for the command a vector is of, and refuses a vector
that is of none. -/
noncomputable def iptablesOfHandle : ArgvHandler := fun argv fault rules =>
  match fault, Function.partialInv Command.argv argv with
  | some f, _ => (f.val, rules)
  | none, some c => handle c none rules
  -- what iptables says of arguments it does not know
  | none, none => (.exited 2, rules)

theorem iptablesOfHandle_argv (c : Command) (fault : Option Fault) (rules : Ruleset) :
    iptablesOfHandle c.argv fault rules = handle c fault rules := by
  cases fault with
  | some f => rfl
  | none => simp only [iptablesOfHandle, Function.partialInv_left argv_injective c]

/-- There is a program that keeps the laws. -/
theorem iptablesLaws_ofHandle : IptablesLaws iptablesOfHandle where
  fault _ _ _ := rfl
  newChain rules :=
    (iptablesOfHandle_argv .newChain none rules).trans (handle_none_newChain rules)
  flush rules :=
    (iptablesOfHandle_argv .flush none rules).trans (handle_none_flush rules)
  checkJump rules :=
    (iptablesOfHandle_argv .checkJump none rules).trans (handle_none_checkJump rules)
  insertJump rules :=
    (iptablesOfHandle_argv .insertJump none rules).trans (handle_none_insertJump rules)
  deleteJump rules :=
    (iptablesOfHandle_argv .deleteJump none rules).trans (handle_none_deleteJump rules)
  deleteChain rules :=
    (iptablesOfHandle_argv .deleteChain none rules).trans (handle_none_deleteChain rules)
  insertGrant ip port rules :=
    (iptablesOfHandle_argv (.insertGrant ip port) none rules).trans
      (handle_none_insertGrant rules ip port)
  deleteGrant ip port rules :=
    (iptablesOfHandle_argv (.deleteGrant ip port) none rules).trans
      (handle_none_deleteGrant rules ip port)

end Knockd
