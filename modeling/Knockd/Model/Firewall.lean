import Knockd.Math.SlotTable
import Knockd.Model.Iptables
import Knockd.Semantics.Effect

/-!
# The firewall rule manager

`firewall.c` keeps a table of grants beside the rules it installs, one slot for each
address that currently has access. Every function here is a program over iptables
commands: it issues them one at a time, reads how each ended, and returns the new
grant table with its return code. The order of table writes and commands is the
source's, so a command that fails finds the table as the source would have left it.

`ip_to_str` cannot fail on the buffer its callers give it, so its error branches are
not reachable and do not appear.

## Main definitions

* `Grant`, `Firewall` — the grant table and the flag `g_added_jump`
* `runIptables`, `runGrantRule` — running one command
* `firewallInit`, `firewallOpen`, `firewallClose`, `firewallTick`, `firewallShutdown`
* `firewallStart`, `firewallRun` — initialisation, and runs of calls after it
-/

namespace Knockd

open Effect (Prog)
open Effect.Prog (issue say)

/-- `MAX_EXPIRY_PER_TICK`. -/
def maxExpiryPerTick : ℕ := 16

/-- One slot of the grant table. -/
structure Grant where
  ip : UInt32
  expiresAt : ℤ
  active : Bool
  deriving DecidableEq, Repr

/-- A slot after `calloc`. -/
def Grant.zeroed : Grant := ⟨0, 0, false⟩

/-- The statics of `firewall.c`: the grant table, `none` for a null pointer, and
whether the daemon added the jump from `INPUT`. -/
structure Firewall where
  grants : Option (List Grant)
  addedJump : Bool
  deriving DecidableEq, Repr

/-- The statics of a process that has just started. -/
def Firewall.initial : Firewall := ⟨none, false⟩

/-- A firewall program: commands out, responses in, log lines on the side. -/
abbrev FirewallProg (α : Type) := Prog Command Response LogLine α

/-! ### Running iptables -/

/-- The message for a command that ended badly. The two failures of the parent are
logged always, a bad exit only if the caller did not expect it. -/
def Response.complaint (cfg : Config) (quiet : Bool) : Response → List LogLine
  | .forkFailed reason => logMsg cfg .error ("fork() failed: " ++ reason)
  | .waitFailed reason => logMsg cfg .error ("waitpid() failed: " ++ reason)
  | .exited status =>
    if quiet then []
    else if status = 127 then
      logMsg cfg .error
        ("Could not execute " ++ iptablesPath ++ " — is iptables installed there?")
    else
      logMsg cfg .error (iptablesPath ++ " exited with status " ++ toString status.toNat)
  | .signalled signal =>
    if quiet then []
    else logMsg cfg .error (iptablesPath ++ " was killed by signal " ++ toString signal.toNat)

/-- `run_iptables`: zero if the command succeeded, minus one otherwise. -/
def runIptables (cfg : Config) (c : Command) (quiet : Bool) : FirewallProg ℤ := do
  say (logMsg cfg .debug ("Running: " ++ String.intercalate " " c.argv))
  let response ← issue c
  if response.ok then
    pure 0
  else do
    say (response.complaint cfg quiet)
    pure (-1)

/-- The action argument of `run_grant_rule`. -/
inductive GrantAction | insert | delete
  deriving DecidableEq, Repr

/-- `run_grant_rule`. -/
def runGrantRule (cfg : Config) (action : GrantAction) (ip : UInt32) : FirewallProg ℤ :=
  match action with
  | .insert => runIptables cfg (.insertGrant ip cfg.protectedPort) false
  | .delete => runIptables cfg (.deleteGrant ip cfg.protectedPort) false

/-! ### The grant table -/

/-- `find_grant`: the slot of this address. -/
def findGrant (grants : List Grant) (ip : UInt32) : Option ℕ :=
  SlotTable.lookup Grant.active Grant.ip grants ip

/-- The grant `find_grant` points at. -/
def grantEntry (grants : List Grant) (ip : UInt32) : Option Grant :=
  SlotTable.entry Grant.active Grant.ip grants ip

/-- The first slot not in use. -/
def freeGrant (grants : List Grant) : Option ℕ :=
  grants.findIdx? fun g => !g.active

/-! ### The public functions -/

/-- `firewall_init`; `calloc` says whether the table could be allocated. -/
def firewallInit (cfg : Config) (calloc : Bool) (fw : Firewall) :
    FirewallProg (Firewall × ℤ) :=
  if !calloc then do
    say (logMsg cfg .error
      ("Could not allocate a grant table for " ++ toString cfg.maxClients ++ " clients"))
    pure ({ fw with grants := none }, -1)
  else do
    let table := List.replicate cfg.maxClients.toNat Grant.zeroed
    -- fails whenever a chain is left over, the normal case after a restart
    let _ ← runIptables cfg .newChain true
    -- tells whether the chain is there, and empties it of what a killed daemon left
    let flushed ← runIptables cfg .flush false
    if flushed ≠ 0 then do
      say (logMsg cfg .error
        ("Could not create or flush the " ++ knockdChain ++ " chain. Check that " ++
          iptablesPath ++ " works and that we are root."))
      pure ({ fw with grants := none }, -1)
    else do
      -- a jump that is there stays where it is, and is not ours to remove later
      let checked ← runIptables cfg .checkJump true
      if checked ≠ 0 then do
        let inserted ← runIptables cfg .insertJump false
        if inserted ≠ 0 then do
          say (logMsg cfg .error ("Could not insert the INPUT jump to " ++ knockdChain))
          pure ({ fw with grants := none }, -1)
        else do
          say (logMsg cfg .debug ("Inserted INPUT -> " ++ knockdChain ++ " at position 1"))
          say (ready cfg)
          pure (⟨some table, true⟩, 0)
      else do
        say (logMsg cfg .debug
          ("INPUT already jumps to " ++ knockdChain ++ " — leaving it in place"))
        say (ready cfg)
        pure ({ fw with grants := some table }, 0)
where
  /-- The last line of a successful start. -/
  ready (cfg : Config) : List LogLine :=
    logMsg cfg .info ("Firewall ready — grants go into the " ++ knockdChain ++ " chain")

/-- `firewall_open`, with the clock reading it takes. -/
def firewallOpen (cfg : Config) (now : ℤ) (ip : UInt32) (fw : Firewall) :
    FirewallProg (Firewall × ℤ) :=
  match fw.grants with
  | none => do
    say (logMsg cfg .error "firewall_open() before firewall_init()")
    pure (fw, -1)
  | some grants =>
    let expiresAt := now + cfg.accessTimeout
    match findGrant grants ip with
    | some i => do
      -- already open: a new deadline, no second rule
      say (logMsg cfg .info
        ("Access for " ++ inetNtop ip ++ " extended — now expires in " ++
          toString cfg.accessTimeout ++ "s"))
      pure ({ fw with grants := some (grants.modify i ({ · with expiresAt := expiresAt })) }, 0)
    | none =>
      match freeGrant grants with
      | none => do
        say (logMsg cfg .error
          ("All " ++ toString cfg.maxClients ++ " grant slots are in use — refusing access for " ++
            inetNtop ip))
        pure (fw, -1)
      | some i => do
        -- the slot is reserved before the command runs, and given back if it fails
        let rc ← runGrantRule cfg .insert ip
        if rc ≠ 0 then do
          say (logMsg cfg .error
            ("Could not open port " ++ toString cfg.protectedPort ++ " for " ++ inetNtop ip))
          pure ({ fw with grants := some (grants.set i ⟨ip, expiresAt, false⟩) }, -1)
        else do
          say (logMsg cfg .info
            ("Port " ++ toString cfg.protectedPort ++ " is open for " ++ inetNtop ip ++
              " — closes in " ++ toString cfg.accessTimeout ++ "s"))
          pure ({ fw with grants := some (grants.set i ⟨ip, expiresAt, true⟩) }, 0)

/-- `firewall_close`. -/
def firewallClose (cfg : Config) (ip : UInt32) (fw : Firewall) : FirewallProg (Firewall × ℤ) :=
  match fw.grants with
  | none => pure (fw, -1)
  | some grants =>
    match findGrant grants ip with
    | none => do
      say (logMsg cfg .debug ("No grant to close for " ++ inetNtop ip))
      pure (fw, 0)
    | some i => do
      -- the slot is released first, whatever becomes of the rule
      let fw' := { fw with grants := some (grants.modify i ({ · with active := false })) }
      let rc ← runGrantRule cfg .delete ip
      if rc ≠ 0 then do
        say (logMsg cfg .warn
          ("Could not remove the rule for " ++ inetNtop ip ++ " — check " ++ iptablesPath ++
            " -S " ++ knockdChain))
        pure (fw', -1)
      else do
        say (logMsg cfg .info
          ("Port " ++ toString cfg.protectedPort ++ " is closed for " ++ inetNtop ip))
        pure (fw', 0)

/-- Has this grant run out? -/
def Grant.expired (now : ℤ) (g : Grant) : Bool :=
  g.active && now ≥ g.expiresAt

/-- The scan of `firewall_tick`: release expired grants, slot by slot from the first,
until the budget is used up. Returns their addresses and the table. -/
def expireScan (now : ℤ) : ℕ → List Grant → List UInt32 × List Grant
  -- the slots from here on have to wait for the next tick
  | 0, grants => ([], grants)
  | _ + 1, [] => ([], [])
  | budget + 1, g :: rest =>
    if g.expired now then
      let scan := expireScan now budget rest
      (g.ip :: scan.1, { g with active := false } :: scan.2)
    else
      let scan := expireScan now (budget + 1) rest
      (scan.1, g :: scan.2)

/-- The second loop of `firewall_tick`: delete the rule of each expired grant. -/
def closeExpired (cfg : Config) : List UInt32 → FirewallProg Unit
  | [] => pure ()
  | ip :: rest => do
    say (logMsg cfg .info
      ("Access has expired for " ++ inetNtop ip ++ " — closing port " ++
        toString cfg.protectedPort))
    -- the slot is released already, so a deletion that fails is not tried again
    let rc ← runGrantRule cfg .delete ip
    if rc ≠ 0 then
      say (logMsg cfg .warn
        ("Could not remove the expired rule for " ++ inetNtop ip ++ " — check " ++
          iptablesPath ++ " -S " ++ knockdChain))
    closeExpired cfg rest

/-- `firewall_tick`, with the clock reading it takes. -/
def firewallTick (cfg : Config) (now : ℤ) (fw : Firewall) : FirewallProg Firewall :=
  match fw.grants with
  | none => pure fw
  | some grants => do
    let scan := expireScan now maxExpiryPerTick grants
    closeExpired cfg scan.1
    pure { fw with grants := some scan.2 }

/-- `firewall_shutdown`. -/
def firewallShutdown (cfg : Config) (fw : Firewall) : FirewallProg Firewall :=
  match fw.grants with
  | none => pure fw
  | some _ => do
    let flushed ← runIptables cfg .flush false
    if flushed ≠ 0 then
      say (logMsg cfg .warn
        ("Could not flush the " ++ knockdChain ++ " chain — grants may still be in place. Check " ++
          iptablesPath ++ " -S " ++ knockdChain))
    if fw.addedJump then do
      let unhooked ← runIptables cfg .deleteJump false
      if unhooked ≠ 0 then
        say (logMsg cfg .warn ("Could not remove the INPUT jump to " ++ knockdChain))
      else do
        -- possible only once nothing jumps to the chain
        let _ ← runIptables cfg .deleteChain true
    say (logMsg cfg .info "Removed the firewall rules knockd added")
    pure { fw with grants := none }

/-! ### Runs

After initialisation a single caller makes one call after the other. Each call comes
with the faults the environment has in store for its commands. -/

/-- One call between initialisation and shutdown, with the clock reading it takes. -/
inductive FirewallCall
  | open (now : ℤ) (ip : UInt32)
  | close (ip : UInt32)
  | tick (now : ℤ)
  deriving DecidableEq, Repr

/-- The program of a call, with its return code; `firewall_tick` returns nothing. -/
def FirewallCall.prog (cfg : Config) (fw : Firewall) : FirewallCall → FirewallProg (Firewall × ℤ)
  | .open now ip => firewallOpen cfg now ip fw
  | .close ip => firewallClose cfg ip fw
  | .tick now => do
    let fw' ← firewallTick cfg now fw
    pure (fw', 0)

/-- The daemon's statics and the host's ruleset. -/
structure FirewallState where
  fw : Firewall
  rules : Ruleset

/-- A call together with the faults of its commands. -/
structure FirewallStep where
  call : FirewallCall
  faults : ℕ → Option Fault

/-- The run of one call's program. -/
def FirewallStep.outcome (cfg : Config) (st : FirewallState) (step : FirewallStep) :
    Effect.Prog.Outcome Command Response LogLine Ruleset (Firewall × ℤ) :=
  (step.call.prog cfg st.fw).run handle step.faults st.rules

/-- One call: the next state and the return code. -/
def firewallStep (cfg : Config) (st : FirewallState) (step : FirewallStep) :
    FirewallState × ℤ :=
  let out := step.outcome cfg st
  (⟨out.value.1, out.state⟩, out.value.2)

/-- A run of calls, with every call's return code. -/
def firewallRun (cfg : Config) (st : FirewallState) :
    List FirewallStep → FirewallState × List (FirewallCall × ℤ)
  | [] => (st, [])
  | step :: steps =>
    let next := firewallStep cfg st step
    let rest := firewallRun cfg next.1 steps
    (rest.1, (step.call, next.2) :: rest.2)

/-- The state a process is in right after `firewall_init`, with its return code. -/
def firewallStart (cfg : Config) (calloc : Bool) (faults : ℕ → Option Fault)
    (rules : Ruleset) : FirewallState × ℤ :=
  let out := (firewallInit cfg calloc .initial).run handle faults rules
  (⟨out.value.1, out.state⟩, out.value.2)

end Knockd
