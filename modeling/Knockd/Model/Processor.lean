import Knockd.Model.Firewall
import Knockd.Model.Knocker
import Knockd.Model.PacketQueue

/-!
# What the main thread does

The functions of `main.c` around the state machine and the firewall: the banner printed
at start-up, and `process_event`, which hands one knock to the state machine and opens
the firewall when it completes a sequence. Between knocks the main thread ticks the
firewall and sweeps the client table; `serviceRun` is a run of such calls, each with the
outcomes of its iptables commands.

The version string is set by the build, so it is a parameter.

## Main definitions

* `formatKnockSequence`, `printBanner` — the startup summary
* `processEvent` — one captured knock
* `Service`, `ServiceCall`, `serviceRun` — runs of the main thread's calls
-/

namespace Knockd

open Effect.Prog (say)

/-! ### The banner -/

/-- The loop of `format_knock_sequence`: the ports still to print, whether this is the
first one, and the buffer so far. A piece that does not fit is cut, and is the last. -/
def formatPorts (buflen : ℕ) : List UInt16 → Bool → List Char → List Char
  | [], _, buf => buf
  | port :: rest, first, buf =>
    let piece := ((if first then "" else " -> ") ++ toString port.toNat).toList
    let room := buflen - buf.length
    if piece.length ≥ room then buf ++ piece.take (room - 1)
    else formatPorts buflen rest false (buf ++ piece)

/-- `format_knock_sequence`: the contents of the buffer up to its terminator. -/
def formatKnockSequence (cfg : Config) (buflen : ℕ) : List Char :=
  if buflen = 0 then [] else formatPorts buflen cfg.sequence true []

/-- Size of the buffer `print_banner` formats the sequence into. -/
def seqbufSize : ℕ := 160

/-- What `print_banner` says about the sequence: the ports at debug level, else how many
there are. -/
def bannerSequence (cfg : Config) : String :=
  if cfg.logLevel ≥ LogLevel.debug.toInt then String.ofList (formatKnockSequence cfg seqbufSize)
  else toString cfg.knockSeqLen ++ " ports (hidden — run with -v to show them)"

/-- `print_banner`: what it writes to stderr. -/
def printBanner (version : String) (cfg : Config) : String :=
  "\n  knockd " ++ version ++
    "\n  ---------------------------------\n\n    knock sequence   " ++ bannerSequence cfg ++
    "\n    protected port   " ++ toString cfg.protectedPort ++
    "\n    access window    " ++ toString cfg.accessTimeout ++ "s open, " ++
    toString cfg.knockWindow ++ "s allowed between knocks\n    client table     " ++
    toString cfg.maxClients ++ " slots\n    capture on       " ++
    (if cfg.knockInterface = [] then "every interface" else String.ofList cfg.knockInterface) ++
    "\n\n"

/-! ### Handling a knock -/

/-- What the main thread keeps: the client table and the grants. -/
structure Service where
  clients : ClientTable
  firewall : Firewall

/-- `process_event`, with the clock readings of `knocker_process` and `firewall_open`. -/
def processEvent (cfg : Config) (now nowAlloc nowOpen : ℤ) (event : KnockEvent) (st : Service) :
    FirewallProg Service := do
  let out := knockerProcess cfg now nowAlloc st.clients event.srcIp event.dstPort
  say out.log
  if out.result ≠ .complete then pure { st with clients := out.clients }
  else do
    say (logMsg cfg .info (inetNtop event.srcIp ++ " completed the knock sequence"))
    let opened ← firewallOpen cfg nowOpen event.srcIp st.firewall
    say (if opened.2 < 0 then
      logMsg cfg .error
        (inetNtop event.srcIp ++ " completed the sequence but the firewall could not be opened")
      else [])
    pure ⟨out.clients, opened.1⟩

/-! ### Runs -/

/-- One call of the main thread, with its clock readings. A knock is on the port that
stands at the given place of the sequence. -/
inductive ServiceCall
  | knock (now nowAlloc nowOpen : ℤ) (ip : UInt32) (i : ℕ)
  | tick (now : ℤ)
  | sweep (now : ℤ)
  deriving DecidableEq, Repr

/-- The program of a call. -/
def ServiceCall.prog (cfg : Config) (st : Service) : ServiceCall → FirewallProg Service
  | .knock now nowAlloc nowOpen ip i =>
    processEvent cfg now nowAlloc nowOpen ⟨ip, cfg.knockSequence[i]?.getD 0⟩ st
  | .tick now => do
    let firewall ← firewallTick cfg now st.firewall
    pure { st with firewall := firewall }
  | .sweep now => do
    let swept := knockerCleanupStale cfg now st.clients
    say swept.2
    pure { st with clients := swept.1 }

/-- What can be seen of a call: its iptables commands with their outcomes, and its log. -/
structure ServiceTrace where
  commands : List (Command × Response)
  log : List LogLine

/-- What can be seen of a run of calls, each with the inputs that decide the outcomes of
its commands. -/
def serviceRun {E S : Type} (handle : Command → E → S → Response × S) (cfg : Config) :
    Service → S → List (ServiceCall × (ℕ → E)) → List ServiceTrace
  | _, _, [] => []
  | st, world, (call, env) :: calls =>
    let out := (call.prog cfg st).run handle env world
    ⟨out.calls, out.output⟩ :: serviceRun handle cfg out.value out.state calls

/-- The service as `knocker_init` and `firewall_init` leave it. -/
def Service.start (cfg : Config) (firewall : Firewall) : Service := ⟨knockerInit cfg, firewall⟩

/-! ### The sequence buffer -/

/-- A piece that is cut leaves room for the terminator, as one that fits does. -/
theorem length_formatPorts {buflen : ℕ} (ports : List UInt16) (first : Bool) {buf : List Char}
    (h : buf.length < buflen) : (formatPorts buflen ports first buf).length < buflen := by
  induction ports generalizing first buf with
  | nil => exact h
  | cons port rest ih =>
    simp only [formatPorts]
    generalize ((if first then "" else " -> ") ++ toString port.toNat).toList = piece
    split
    · rw [List.length_append, List.length_take]
      omega
    · refine ih false ?_
      rw [List.length_append]
      omega

/-- The formatter never writes past its buffer. -/
theorem length_formatKnockSequence (cfg : Config) {buflen : ℕ} (h : 0 < buflen) :
    (formatKnockSequence cfg buflen).length < buflen := by
  rw [formatKnockSequence, if_neg (by omega)]
  exact length_formatPorts _ _ h

end Knockd
