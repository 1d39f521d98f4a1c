import Knockd.Model.Logger

/-!
# The packet queue

`packet_queue.c` is a ring of 256 knock events between the capture thread and the
processor. Every function takes the lock once, so each is one atomic step here. The
ring is kept as the source keeps it, with three redundant indices; that it behaves as
a queue is proved elsewhere.

`pktqueue_wait` may have to wait. Its loop ends when an event is there, when the queue
is shutting down, or at the deadline; whether the deadline has passed is an input. The
model of a call that has to go on waiting is `none`.

## Main definitions

* `KnockEvent`, `PacketQueue` — the events and the statics of `packet_queue.c`
* `pktqueueInit`, `pktqueuePush`, `pktqueuePop`, `pktqueueWait`, `pktqueueShutdown`
-/

namespace Knockd

/-- One captured knock. -/
structure KnockEvent where
  srcIp : UInt32
  dstPort : UInt16
  deriving DecidableEq, Repr

/-- An event of all zero bytes. -/
def KnockEvent.zeroed : KnockEvent := ⟨0, 0⟩

/-- `QUEUE_CAPACITY`. -/
def queueCapacity : ℕ := 256

/-- `DROP_REPORT_INTERVAL`. -/
def dropReportInterval : ℤ := 10

/-- The statics of `packet_queue.c`: `head` is the next slot to write, `tail` the next
to read. -/
structure PacketQueue where
  ring : Vector KnockEvent queueCapacity
  head : ℕ
  tail : ℕ
  count : ℕ
  shuttingDown : Bool
  dropped : UInt64
  lastDropReport : ℤ
  deriving DecidableEq

/-- `pktqueue_init`. -/
def pktqueueInit : PacketQueue where
  ring := Vector.replicate queueCapacity .zeroed
  head := 0
  tail := 0
  count := 0
  shuttingDown := false
  dropped := 0
  lastDropReport := 0

/-- `pktqueue_push`, with the clock reading it takes when the queue is full: the queue,
whether the event was taken, and the log. -/
def pktqueuePush (cfg : Config) (now : ℤ) (event : KnockEvent) (q : PacketQueue) :
    PacketQueue × Bool × List LogLine :=
  if q.count < queueCapacity then
    ({ q with
        ring := q.ring.setIfInBounds q.head event
        head := (q.head + 1) &&& (queueCapacity - 1)
        count := q.count + 1 },
      true, [])
  else
    let dropped := q.dropped + 1
    if now - q.lastDropReport ≥ dropReportInterval then
      ({ q with dropped := 0, lastDropReport := now }, false,
        -- the counter can have wrapped to zero, and then nothing is reported
        if dropped > 0 then
          logMsg cfg .warn
            ("Packet queue full — dropped " ++ toString dropped.toNat ++ " knock event(s)")
        else [])
    else ({ q with dropped := dropped }, false, [])

/-- The body of both readers: take the event at the tail, if there is one. -/
def dequeue (q : PacketQueue) : Option KnockEvent × PacketQueue :=
  if q.count > 0 then
    (some (q.ring[q.tail]?.getD .zeroed),
      { q with tail := (q.tail + 1) &&& (queueCapacity - 1), count := q.count - 1 })
  else (none, q)

/-- `pktqueue_pop`. -/
def pktqueuePop (q : PacketQueue) : Option KnockEvent × PacketQueue := dequeue q

/-- `pktqueue_wait`: `none` while it has to go on waiting. -/
def pktqueueWait (timedOut : Bool) (q : PacketQueue) :
    Option (Option KnockEvent × PacketQueue) :=
  if q.count = 0 ∧ q.shuttingDown = false ∧ timedOut = false then none
  -- an event that is there is taken even when the queue is shutting down
  else some (dequeue q)

/-- `pktqueue_shutdown`. -/
def pktqueueShutdown (q : PacketQueue) : PacketQueue := { q with shuttingDown := true }

end Knockd
