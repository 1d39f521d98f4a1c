import Knockd.Model.PacketQueue
import Knockd.Semantics.Monitor

/-!
# The packet queue, statement by statement

The functions of `packet_queue.c` as code of a monitor. `pthread_mutex_lock` takes the
lock, every statement up to `pthread_mutex_unlock` is an instruction, and between two of
them any thread may do anything that it can do without the lock. A program counter carries
the locals that are live there. What a function does before it locks or after it unlocks,
the deadline of `pktqueue_wait` and the log line of `pktqueue_push`, touches no static of
the file.

`pthread_cond_timedwait` comes back because of a signal or for no reason, and then the loop
tests again, or because the deadline has passed, and then it is left.

## Main definitions

* `QueueProc`, `QueuePc`, `QueueResult` — calls, program counters, what a call returns
* `queueCode` — the code
-/

namespace Knockd

/-- A call, with the clock reading a push takes when the queue is full. -/
inductive QueueProc
  | push (event : KnockEvent) (now : ℤ)
  | pop
  | wait
  | shutdown
  deriving DecidableEq, Repr

/-- The statements between `pthread_mutex_lock` and `pthread_mutex_unlock`, with the locals
they use. `take…` are the statements that both readers share. -/
inductive QueuePc
  | pushRoom (event : KnockEvent) (now : ℤ)
  | pushStore (event : KnockEvent)
  | pushHead
  | pushCount
  | pushSignal
  | pushDropped (now : ℤ)
  | pushDue (now : ℤ)
  | pushReport (now : ℤ)
  | pushReset (now : ℤ) (toReport : UInt64)
  | pushStamp (now : ℤ) (toReport : UInt64)
  | pushUnlock (taken : Bool) (toReport : UInt64)
  | waitLoop
  | takeAny
  | takeEvent
  | takeTail (event : KnockEvent)
  | takeCount (event : KnockEvent)
  | takeUnlock (event : Option KnockEvent)
  | shutdownFlag
  | shutdownBroadcast
  | shutdownUnlock
  deriving DecidableEq, Repr

/-- What a call leaves for the code behind the unlock: whether a push was taken and its
`to_report`, or what a reader got. -/
inductive QueueResult
  | pushed (taken : Bool) (toReport : UInt64)
  | got (event : Option KnockEvent)
  | stopped
  deriving DecidableEq, Repr

open Monitor.Instr (goto signal broadcast wait ret)

/-- One statement. -/
def queueInstr : QueuePc → PacketQueue → PacketQueue × Monitor.Instr QueuePc QueueResult
  -- `pktqueue_push`
  | .pushRoom event now, q =>
    (q, goto (if q.count < queueCapacity then .pushStore event else .pushDropped now))
  | .pushStore event, q => ({ q with ring := q.ring.setIfInBounds q.head event }, goto .pushHead)
  | .pushHead, q => ({ q with head := (q.head + 1) &&& (queueCapacity - 1) }, goto .pushCount)
  | .pushCount, q => ({ q with count := q.count + 1 }, goto .pushSignal)
  | .pushSignal, q => (q, signal (.pushUnlock true 0))
  | .pushDropped now, q => ({ q with dropped := q.dropped + 1 }, goto (.pushDue now))
  | .pushDue now, q =>
    (q, goto (if now - q.lastDropReport ≥ dropReportInterval then .pushReport now
      else .pushUnlock false 0))
  | .pushReport now, q => (q, goto (.pushReset now q.dropped))
  | .pushReset now toReport, q => ({ q with dropped := 0 }, goto (.pushStamp now toReport))
  | .pushStamp now toReport, q =>
    ({ q with lastDropReport := now }, goto (.pushUnlock false toReport))
  | .pushUnlock taken toReport, q => (q, ret (.pushed taken toReport))
  -- the loop of `pktqueue_wait`
  | .waitLoop, q =>
    (q, if q.count = 0 ∧ q.shuttingDown = false then wait .waitLoop .takeAny else goto .takeAny)
  -- the rest of `pktqueue_wait`, and `pktqueue_pop`
  | .takeAny, q => (q, goto (if q.count > 0 then .takeEvent else .takeUnlock none))
  | .takeEvent, q => (q, goto (.takeTail (q.ring[q.tail]?.getD .zeroed)))
  | .takeTail event, q =>
    ({ q with tail := (q.tail + 1) &&& (queueCapacity - 1) }, goto (.takeCount event))
  | .takeCount event, q => ({ q with count := q.count - 1 }, goto (.takeUnlock (some event)))
  | .takeUnlock event, q => (q, ret (.got event))
  -- `pktqueue_shutdown`
  | .shutdownFlag, q => ({ q with shuttingDown := true }, goto .shutdownBroadcast)
  | .shutdownBroadcast, q => (q, broadcast .shutdownUnlock)
  | .shutdownUnlock, q => (q, ret .stopped)

/-- The code of `packet_queue.c`. -/
def queueCode : Monitor.Code QueueProc QueuePc QueueResult PacketQueue where
  entry
    | .push event now => .pushRoom event now
    | .pop => .takeAny
    | .wait => .waitLoop
    | .shutdown => .shutdownFlag
  instr := queueInstr

/-- A number of threads that call these functions. -/
abbrev QueueThreads (ι : Type) := Monitor.State ι QueueProc QueuePc PacketQueue

/-- A section of the queue's code. -/
abbrev QueueVisit (ι : Type) := Monitor.Visit ι QueueProc QueuePc QueueResult

end Knockd
