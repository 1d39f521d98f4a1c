import Knockd.Math.SlotTable
import Knockd.Model.Logger

/-!
# The knock state machine

`knocker.c` keeps one entry for each address that is partway through the sequence,
in a table of `MAX_CLIENTS` slots. This file translates it function by function. A
pointer to a slot is the slot's index; the table is the list of slots. Every
function that reads the clock takes its readings as arguments: `process_locked`
and `alloc_client` each call `time` once, so one call of `knocker_process` may see
two readings, `now` and `nowAlloc`.

`Processed.accepted` is a history variable: it names the step a knock was accepted
as, which the source only shows in its log. Nothing reads it back.

## Main definitions

* `KnockClient`, `KnockResult` — `knock_client_t` and `knock_result_t`
* `findClient`, `allocClient` — finding and claiming a slot
* `processEntry` — `process_locked` from the duplicate check on
* `knockerProcess`, `knockerCleanupStale`, `knockerInit` — the public functions
* `KnockerCall`, `knockerRun` — whole runs of calls and the records they leave
-/

namespace Knockd

/-- Seconds during which a repeat of the port just accepted is ignored. -/
def knockDedupWindow : ℤ := 5

/-- One slot of the client table. -/
structure KnockClient where
  ip : UInt32
  currentStep : ℕ
  lastKnock : ℤ
  lastPort : UInt16
  active : Bool
  deriving DecidableEq, Repr

/-- A slot after `memset` or `calloc`. -/
def KnockClient.zeroed : KnockClient := ⟨0, 0, 0, 0, false⟩

/-- Outcome of one knock. -/
inductive KnockResult | complete | inProgress | reset
  deriving DecidableEq, Repr

/-- The client table. -/
abbrev ClientTable := List KnockClient

/-- `find_client`: the slot of this address. -/
def findClient (clients : ClientTable) (ip : UInt32) : Option ℕ :=
  SlotTable.lookup KnockClient.active KnockClient.ip clients ip

/-- The entry `find_client` points at. -/
def clientEntry (clients : ClientTable) (ip : UInt32) : Option KnockClient :=
  SlotTable.entry KnockClient.active KnockClient.ip clients ip

/-- The scan of `alloc_client`, from slot `i` on with the oldest entry seen so far:
the first free slot, or the oldest entry when every slot is taken. -/
def allocScan : ClientTable → ℕ → Option (ℕ × KnockClient) → ℕ ⊕ Option (ℕ × KnockClient)
  | [], _, oldest => .inr oldest
  | c :: rest, i, oldest =>
    if !c.active then .inl i
    else
      match oldest with
      | none => allocScan rest (i + 1) (some (i, c))
      | some (j, o) =>
        -- strictly older: of two entries of one age the first stays
        if c.lastKnock < o.lastKnock then allocScan rest (i + 1) (some (i, c))
        else allocScan rest (i + 1) (some (j, o))

/-- `alloc_client`: the slot to use, zeroed, with the table around it; `none` when
every entry is a live sequence. -/
def allocClient (cfg : Config) (now : ℤ) (clients : ClientTable) :
    Option (ℕ × ClientTable) × List LogLine :=
  match allocScan clients 0 none with
  | .inl i => (some (i, clients.set i .zeroed), [])
  -- `oldest` is null only for a table without slots
  | .inr none => (none, [])
  | .inr (some (i, oldest)) =>
    -- a full table evicts nobody who is still within the window
    if now - oldest.lastKnock ≤ cfg.knockWindow then (none, [])
    else
      (some (i, clients.set i .zeroed),
        logMsg cfg .debug
          ("Client table full — reusing the expired entry for " ++ inetNtop oldest.ip))

/-- What one knock did to the entry it belongs to. -/
structure EntryOutcome where
  client : KnockClient
  result : KnockResult
  accepted : Option ℕ
  log : List LogLine

/-- `process_locked` once the entry is in hand: duplicate filter, window, the
expected port, restart on the first port, discard. -/
def processEntry (cfg : Config) (now : ℤ) (c : KnockClient) (srcIp : UInt32)
    (dstPort : UInt16) : EntryOutcome :=
  if dstPort = c.lastPort ∧ now - c.lastKnock ≤ knockDedupWindow then
    -- nothing is written, so the entry keeps the time of the knock this one repeats
    { client := c
      result := .inProgress
      accepted := none
      log := logMsg cfg .debug
        (inetNtop srcIp ++ " repeated port " ++ toString dstPort.toNat ++ " within " ++
          toString knockDedupWindow ++ "s — ignored as a retransmit") }
  else
    -- a fresh entry is at step zero and has nothing to lose
    let expired : Bool := 0 < c.currentStep ∧ now - c.lastKnock > cfg.knockWindow
    let expiryLog :=
      if expired then
        logMsg cfg .info
          (inetNtop srcIp ++ " left more than " ++ toString cfg.knockWindow ++
            "s between knocks — starting over")
      else []
    let step := if expired then 0 else c.currentStep
    if cfg.knockSequence[step]? = some dstPort then
      let c' := { c with currentStep := step + 1, lastKnock := now, lastPort := dstPort }
      if (c'.currentStep : ℤ) ≥ cfg.knockSeqLen then
        -- the slot is released: another grant takes the whole sequence again
        { client := { c' with active := false }
          result := .complete
          accepted := some c'.currentStep
          log := expiryLog }
      else
        { client := c'
          result := .inProgress
          accepted := some c'.currentStep
          log := expiryLog ++ logMsg cfg .info
            (inetNtop srcIp ++ " is at step " ++ toString c'.currentStep ++ " of " ++
              toString cfg.knockSeqLen) }
    else if cfg.knockSequence[0]? = some dstPort then
      -- `last_port` moves along, or the filter above would swallow the next knock
      { client := { c with currentStep := 1, lastKnock := now, lastPort := dstPort }
        result := .inProgress
        accepted := some 1
        log := expiryLog ++ logMsg cfg .debug
          (inetNtop srcIp ++ " knocked out of order — restarted at step 1 of " ++
            toString cfg.knockSeqLen) }
    else
      -- an expired entry has lost its step before it is discarded
      { client := { c with currentStep := step, active := false }
        result := .reset
        accepted := none
        log := expiryLog ++ logMsg cfg .debug
          (inetNtop srcIp ++ " knocked port " ++ toString dstPort.toNat ++
            " out of order — progress discarded") }

/-- The table after a knock, with its outcome. -/
structure Processed where
  clients : ClientTable
  result : KnockResult
  accepted : Option ℕ
  log : List LogLine

/-- Run `processEntry` on the slot and write the entry back. -/
def processSlot (cfg : Config) (now : ℤ) (clients : ClientTable) (i : ℕ) (c : KnockClient)
    (srcIp : UInt32) (dstPort : UInt16) : Processed :=
  let out := processEntry cfg now c srcIp dstPort
  { clients := clients.set i out.client
    result := out.result
    accepted := out.accepted
    log := out.log }

/-- A newly claimed entry: zeroed but for its address and flag. -/
def freshClient (srcIp : UInt32) : KnockClient :=
  { KnockClient.zeroed with ip := srcIp, active := true }

/-- `process_locked`. -/
def processLocked (cfg : Config) (now nowAlloc : ℤ) (clients : ClientTable)
    (srcIp : UInt32) (dstPort : UInt16) : Processed :=
  match findClient clients srcIp with
  | some i => processSlot cfg now clients i (clients.getD i .zeroed) srcIp dstPort
  | none =>
    -- an unknown address is worth a slot for the first port only
    if cfg.knockSequence[0]? ≠ some dstPort then
      { clients := clients
        result := .reset
        accepted := none
        log := logMsg cfg .debug
          (inetNtop srcIp ++ " knocked port " ++ toString dstPort.toNat ++
            ", which does not start the sequence — ignored") }
    else
      match allocClient cfg nowAlloc clients with
      | (none, allocLog) =>
        { clients := clients
          result := .reset
          accepted := none
          log := allocLog ++ logMsg cfg .warn
            ("Client table is full of sequences in progress — ignoring the knock from " ++
              inetNtop srcIp) }
      | (some (i, claimed), allocLog) =>
        -- the new entry goes through the same checks, with `last_port` still zero
        let out := processSlot cfg now claimed i (freshClient srcIp) srcIp dstPort
        { out with log := allocLog ++ out.log }

/-- `knocker_process`, which is `process_locked` under the table lock. -/
def knockerProcess (cfg : Config) (now nowAlloc : ℤ) (clients : ClientTable)
    (srcIp : UInt32) (dstPort : UInt16) : Processed :=
  processLocked cfg now nowAlloc clients srcIp dstPort

/-- Is this entry in use and past the window? -/
def KnockClient.stale (cfg : Config) (now : ℤ) (c : KnockClient) : Bool :=
  c.active && now - c.lastKnock > cfg.knockWindow

/-- What the sweep does to one slot. -/
def KnockClient.sweep (cfg : Config) (now : ℤ) (c : KnockClient) : KnockClient :=
  if c.stale cfg now then { c with active := false } else c

/-- `knocker_cleanup_stale`. -/
def knockerCleanupStale (cfg : Config) (now : ℤ) (clients : ClientTable) :
    ClientTable × List LogLine :=
  let stale := clients.filter (KnockClient.stale cfg now)
  (clients.map (KnockClient.sweep cfg now),
    stale.flatMap (fun c => logMsg cfg .debug ("Dropping the stale entry for " ++ inetNtop c.ip)) ++
      if stale.length > 0 then
        logMsg cfg .debug ("Dropped " ++ toString stale.length ++ " stale client entries")
      else [])

/-- `knocker_init` when `calloc` succeeds. -/
def knockerInit (cfg : Config) : ClientTable :=
  List.replicate cfg.maxClients.toNat .zeroed

/-! ### Runs -/

/-- One call of the public interface, with the clock readings it takes. -/
inductive KnockerCall
  | process (now nowAlloc : ℤ) (ip : UInt32) (port : UInt16)
  | cleanup (now : ℤ)
  deriving DecidableEq, Repr

/-- What a `knocker_process` call leaves in the history of a run. -/
structure KnockRecord where
  time : ℤ
  ip : UInt32
  port : UInt16
  result : KnockResult
  accepted : Option ℕ
  deriving DecidableEq, Repr

/-- The record of one processed knock. -/
def Processed.record (out : Processed) (now : ℤ) (ip : UInt32) (port : UInt16) : KnockRecord :=
  ⟨now, ip, port, out.result, out.accepted⟩

/-- One call: the next table, and the record if it was a knock. -/
def knockerStep (cfg : Config) (clients : ClientTable) :
    KnockerCall → ClientTable × List KnockRecord
  | .process now nowAlloc ip port =>
    let out := knockerProcess cfg now nowAlloc clients ip port
    (out.clients, [out.record now ip port])
  | .cleanup now => ((knockerCleanupStale cfg now clients).1, [])

/-- A run of calls from a given table, with the records in call order. -/
def knockerRunFrom (cfg : Config) (clients : ClientTable) :
    List KnockerCall → ClientTable × List KnockRecord
  | [] => (clients, [])
  | call :: calls =>
    let next := knockerStep cfg clients call
    let rest := knockerRunFrom cfg next.1 calls
    (rest.1, next.2 ++ rest.2)

/-- A run from `knocker_init`. -/
def knockerRun (cfg : Config) (calls : List KnockerCall) : ClientTable × List KnockRecord :=
  knockerRunFrom cfg (knockerInit cfg) calls

/-- The clock readings of a call, in the order they are taken. -/
def KnockerCall.readings : KnockerCall → List ℤ
  | .process now nowAlloc _ _ => [now, nowAlloc]
  | .cleanup now => [now]

/-- A run whose clock never goes back. -/
def Nondecreasing (calls : List KnockerCall) : Prop :=
  (calls.flatMap KnockerCall.readings).Pairwise (· ≤ ·)

/-- Is this call a knock from the given address? -/
def KnockerCall.isFrom (ip : UInt32) : KnockerCall → Bool
  | .process _ _ src _ => src == ip
  | .cleanup _ => false

end Knockd
