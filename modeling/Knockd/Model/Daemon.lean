import Knockd.Model.Firewall
import Knockd.Model.Knocker
import Knockd.Model.Sniffer
import Knockd.Semantics.Machine

/-!
# The daemon

`main.c` runs two threads. The capture thread takes frames off the socket and pushes
knocks into the queue; the main thread takes them out, runs the state machine, opens
the firewall, expires grants and sweeps stale entries, until the flag `g_running` is
cleared. Then it waits for the capture thread and shuts the firewall down.

The model is a machine. Each thread has a program counter that says what it does next,
and a step of a thread is one turn of the sniffer's loop, one queue operation, one call
of the state machine, one iptables command or one test of the flag. The scheduler picks
the thread, the frame received, the clock readings, the faults and when a signal
arrives. The threads share the flag and the queue only.

Two things in the state are there for the record and decide nothing: the arrival time
that `CapturePc.push` carries, and the step number in a knock record.

## Main definitions

* `CapturePc`, `ProcessorPc`, `Daemon` — where each thread is, and the whole state
* `Obs` — what can be seen of a step
* `captureStep`, `processorStep`, `Daemon.step` — the steps
* `Daemon.start` — the state in which the capture thread starts
-/

namespace Knockd

/-- `STALE_SCAN_INTERVAL`. -/
def staleScanInterval : ℤ := 5

/-- Where the capture thread is: at the test of its loop, in `recvfrom`, about to push
a knock that arrived at the given time, past the loop, or finished. -/
inductive CapturePc
  | check
  | receive
  | push (event : KnockEvent) (arrival : ℤ)
  | leaving
  | stopped
  deriving DecidableEq

/-- Where the main thread is: in `run_processor`, up to `sweep`, and in the cleanup of
`main` after it. A firewall call in progress is the rest of its program. -/
inductive ProcessorPc
  | check
  | wait
  | handle (event : KnockEvent)
  | grant (ip : UInt32)
  | opening (ip : UInt32) (p : FirewallProg (Firewall × ℤ))
  | drain
  | tick
  | ticking (p : FirewallProg Firewall)
  | sweep
  | cleanup
  | join
  | shutdown (p : FirewallProg Firewall)
  | done

/-- The state of the daemon and of the host's packet filter. -/
structure Daemon where
  running : Bool
  ifindex : UInt32
  queue : PacketQueue
  clients : ClientTable
  firewall : Firewall
  rules : Ruleset
  lastCleanup : ℤ
  capture : CapturePc
  processor : ProcessorPc

/-- What can be seen of a step. -/
inductive Obs
  | received (r : Recv) (arrival : ℤ)
  | pushed (event : KnockEvent) (arrival : ℤ) (taken : Bool)
  | handled (record : KnockRecord)
  | opened (ip : UInt32)
  | ticked
  | command (c : Command) (r : Response)
  | logged (lines : List LogLine)

/-- One step of `capture_thread`: what `recvfrom` returns, if it is called, and the
clock. -/
def captureStep (cfg : Config) (recv : Recv) (now : ℤ) (d : Daemon) :
    Option (Daemon × List Obs) :=
  match d.capture with
  | .check =>
    -- the only place where this thread looks at the flag
    some ({ d with capture := if d.running then .receive else .leaving }, [])
  | .receive =>
    let turn := snifferTurn cfg d.ifindex recv
    let seen := [Obs.received recv now, .logged turn.2]
    match turn.1 with
    -- round the loop inside `sniffer_next_knock`
    | .skip => some (d, seen)
    | .ok event => some ({ d with capture := .push event now }, seen)
    | .again => some ({ d with capture := .check }, seen)
    | .error =>
      some ({ d with running := false, capture := .leaving },
        seen ++ [.logged (logMsg cfg .error "Packet capture failed — stopping the daemon")])
  | .push event arrival =>
    -- nobody looks at the return code: a knock that finds no room is lost
    let out := pktqueuePush cfg now event d.queue
    some ({ d with queue := out.1, capture := .check },
      [.pushed event arrival out.2.1, .logged out.2.2])
  | .leaving => some ({ d with queue := pktqueueShutdown d.queue, capture := .stopped }, [])
  | .stopped => none

/-- What a step of the main thread may read: the clock, up to twice, whether the wait
on the queue has timed out, and the fault of the next command. -/
structure ProcessorInput where
  now : ℤ
  later : ℤ
  timedOut : Bool
  fault : Option Fault

/-- One step of a firewall call in progress. -/
def Daemon.advance {α : Type} (d : Daemon) (fault : Option Fault) (p : FirewallProg α)
    (pending : FirewallProg α → ProcessorPc) (finish : α → Daemon × List Obs) :
    Daemon × List Obs :=
  match p.step Knockd.handle fault d.rules with
  | .inl a => finish a
  | .inr next =>
    ({ d with rules := next.state, processor := pending next.rest },
      next.calls.map (fun call => .command call.1 call.2) ++ [.logged next.output])

/-- One step of the main thread: `run_processor` with `process_event`, then the cleanup
of `main`. -/
def processorStep (cfg : Config) (input : ProcessorInput) (d : Daemon) :
    Option (Daemon × List Obs) :=
  match d.processor with
  | .check => some ({ d with processor := if d.running then .wait else .cleanup }, [])
  | .wait =>
    match pktqueueWait input.timedOut d.queue with
    -- asleep until there is an event, a shutdown or a timeout
    | none => none
    | some (some event, queue) => some ({ d with queue := queue, processor := .handle event }, [])
    | some (none, queue) => some ({ d with queue := queue, processor := .tick }, [])
  | .handle event =>
    let out := knockerProcess cfg input.now input.later d.clients event.srcIp event.dstPort
    let seen := [Obs.handled (out.record input.now event.srcIp event.dstPort), .logged out.log]
    if out.result = .complete then
      some ({ d with clients := out.clients, processor := .grant event.srcIp },
        seen ++ [.logged (logMsg cfg .info (inetNtop event.srcIp ++ " completed the knock sequence"))])
    else some ({ d with clients := out.clients, processor := .drain }, seen)
  | .grant ip =>
    some ({ d with processor := .opening ip (firewallOpen cfg input.now ip d.firewall) },
      [.opened ip])
  | .opening ip p =>
    some (d.advance input.fault p (.opening ip) fun (fw, rc) =>
      ({ d with firewall := fw, processor := .drain },
        [.logged (if rc < 0 then
          logMsg cfg .error
            (inetNtop ip ++ " completed the sequence but the firewall could not be opened")
          else [])]))
  | .drain =>
    -- the inner loop: no tick as long as there is another event
    match pktqueuePop d.queue with
    | (some event, queue) => some ({ d with queue := queue, processor := .handle event }, [])
    | (none, queue) => some ({ d with queue := queue, processor := .tick }, [])
  | .tick =>
    some ({ d with processor := .ticking (firewallTick cfg input.now d.firewall) }, [.ticked])
  | .ticking p =>
    some (d.advance input.fault p .ticking fun fw =>
      ({ d with firewall := fw, processor := .sweep }, []))
  | .sweep =>
    if input.now - d.lastCleanup ≥ staleScanInterval then
      -- the sweep reads the clock again, the interval counts from the first reading
      let out := knockerCleanupStale cfg input.later d.clients
      some ({ d with clients := out.1, lastCleanup := input.now, processor := .check },
        [.logged out.2])
    else some ({ d with processor := .check }, [])
  | .cleanup =>
    some ({ d with running := false, queue := pktqueueShutdown d.queue, processor := .join },
      [.logged (logMsg cfg .info "Shutting down")])
  | .join =>
    -- `pthread_join` waits for the other thread
    if d.capture = .stopped then
      some ({ d with processor := .shutdown (firewallShutdown cfg d.firewall) },
        [.logged (logMsg cfg .debug "Raw socket closed")])
    else none
  | .shutdown p =>
    some (d.advance input.fault p .shutdown fun fw =>
      ({ d with firewall := fw, processor := .done },
        [.logged (logMsg cfg .debug "Packet queue destroyed"),
          .logged (logMsg cfg .info "knockd stopped")]))
  | .done => none

/-- What the scheduler can choose: a signal, a step of the capture thread, a step of the
main thread. -/
inductive Action
  | signal
  | capture (recv : Recv) (now : ℤ)
  | processor (input : ProcessorInput)

/-- One step of the daemon. -/
def Daemon.step (cfg : Config) (d : Daemon) : Action → Option (Daemon × List Obs)
  | .signal => some ({ d with running := false }, [])
  | .capture recv now => captureStep cfg recv now d
  | .processor input => processorStep cfg input d

/-- A run of the daemon. -/
def Daemon.run (cfg : Config) (d : Daemon) (actions : List Action) :
    Option (Daemon × List Obs) :=
  Machine.run (Daemon.step cfg) d actions

/-- The state in which `main` has started the capture thread and enters
`run_processor`: the queue and the client table are fresh, the firewall is as
`firewall_init` left it. -/
def Daemon.start (cfg : Config) (ifindex : UInt32) (st : FirewallState) (now : ℤ) : Daemon where
  running := true
  ifindex := ifindex
  queue := pktqueueInit
  clients := knockerInit cfg
  firewall := st.fw
  rules := st.rules
  lastCleanup := now
  capture := .check
  processor := .check

/-- The turn of the capture thread in which a knock arrives and is pushed at once. -/
def captureKnock (ip : UInt32) (port : UInt16) (now : ℤ) : List Action :=
  [.capture .again now, .capture (.frame (udpFrame ip port)) now, .capture .again now]

/-- A step of the main thread that meets no fault and no timeout. -/
def processAt (now : ℤ) : Action := .processor ⟨now, now, false, none⟩

end Knockd
