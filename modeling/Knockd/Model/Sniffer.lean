import Knockd.Model.PacketQueue

/-!
# The frame parser

`sniffer_next_knock` reads frames from a raw socket until one of them is a knock. One
turn of its loop receives a frame, walks link, IP and transport header, and either
reports a knock or goes round again. The frame is a list of bytes, and every access
goes through `byteAt`, which fails past the bytes received: a parser that read there
would be seen to.

Multi-byte fields are read in network order, except the source address, which is kept
as the word that lies in memory.

## Main definitions

* `Frame`, `Recv` — a received frame, and what `recvfrom` can return
* `findIpOffset`, `sniffFrame` — the header walk
* `snifferTurn`, `snifferNextKnock` — one turn of the loop of `sniffer_next_knock`, and
  the loop
* `udpFrame` — the simplest frame that can be a knock
-/

namespace Knockd

/-- `PKT_BUF_SIZE`. -/
def pktBufSize : ℕ := 65536

/-- A frame with the fields of its `sockaddr_ll` that are looked at. The kernel copies
at most a buffer's worth of bytes. -/
structure Frame where
  bytes : List UInt8
  pkttype : UInt8
  ifindex : UInt32
  hatype : UInt16
  fits : bytes.length ≤ pktBufSize
  deriving DecidableEq

/-- `PACKET_OUTGOING`. -/
def packetOutgoing : UInt8 := 4

/-- `ARPHRD_ETHER`. -/
def arphrdEther : UInt16 := 1

/-- `ARPHRD_LOOPBACK`. -/
def arphrdLoopback : UInt16 := 772

/-- `ETH_P_IP`. -/
def ethPIp : ℕ := 0x0800

/-- `IPPROTO_TCP`. -/
def ipprotoTcp : UInt8 := 6

/-- `IPPROTO_UDP`. -/
def ipprotoUdp : UInt8 := 17

/-- `IP_OFFMASK`. -/
def ipOffmask : ℕ := 0x1fff

/-- `sizeof(struct ethhdr)`. -/
def ethhdrSize : ℕ := 14

/-- `sizeof(struct iphdr)`. -/
def iphdrSize : ℕ := 20

/-- `sizeof(struct tcphdr)`. -/
def tcphdrSize : ℕ := 20

/-- `sizeof(struct udphdr)`. -/
def udphdrSize : ℕ := 8

/-! ### Reading bytes -/

/-- A read past the bytes received, at this index. -/
structure OutOfBounds where
  index : ℕ
  deriving DecidableEq, Repr

/-- The byte at an index. -/
def byteAt (bytes : List UInt8) (i : ℕ) : Except OutOfBounds UInt8 :=
  match bytes[i]? with
  | some b => .ok b
  | none => .error ⟨i⟩

/-- A big-endian 16-bit field, after `ntohs`. -/
def ntohsAt (bytes : List UInt8) (i : ℕ) : Except OutOfBounds ℕ := do
  let hi ← byteAt bytes i
  let lo ← byteAt bytes (i + 1)
  pure (hi.toNat * 256 + lo.toNat)

/-- Four bytes as the word they are in memory, first byte least significant. -/
def wordAt (bytes : List UInt8) (i : ℕ) : Except OutOfBounds UInt32 := do
  let a ← byteAt bytes i
  let b ← byteAt bytes (i + 1)
  let c ← byteAt bytes (i + 2)
  let d ← byteAt bytes (i + 3)
  pure (UInt32.ofNat (a.toNat + b.toNat * 256 + c.toNat * 65536 + d.toNat * 16777216))

/-! ### The header walk -/

/-- `is_knock_port`. -/
def isKnockPort (cfg : Config) (port : UInt16) : Bool := cfg.sequence.contains port

/-- `find_ip_offset`: where the IP header starts, `none` if this is no frame to parse. -/
def findIpOffset (bytes : List UInt8) (hatype : UInt16) : Except OutOfBounds (Option ℕ) := do
  let link ←
    if hatype = arphrdEther ∨ hatype = arphrdLoopback then
      if bytes.length < ethhdrSize then pure none
      else do
        let proto ← ntohsAt bytes 12
        if proto ≠ ethPIp then pure none else pure (some ethhdrSize)
    -- any other kind of interface is assumed to deliver the IP header first
    else pure (some 0)
  match link with
  | none => pure none
  | some ipOff =>
    if bytes.length < ipOff + iphdrSize then pure none
    else do
      let first ← byteAt bytes ipOff
      -- version in the high half of the first byte, header length in the low half
      if first >>> 4 ≠ 4 ∨ first &&& 0x0f < 5 then pure none else pure (some ipOff)

/-- The destination port of a transport header, with the name of the protocol: `none`
if the header is cut short or no connection attempt. -/
def findPort (bytes : List UInt8) (protocol : UInt8) (l4Off : ℕ) :
    Except OutOfBounds (Option (UInt16 × String)) :=
  if protocol = ipprotoTcp then
    if bytes.length < l4Off + tcphdrSize then pure none
    else do
      let flags ← byteAt bytes (l4Off + 13)
      -- SYN set, ACK clear
      if flags &&& 0x02 = 0 ∨ flags &&& 0x10 ≠ 0 then pure none
      else do
        let dest ← ntohsAt bytes (l4Off + 2)
        pure (some (UInt16.ofNat dest, "TCP SYN"))
  else if protocol = ipprotoUdp then
    if bytes.length < l4Off + udphdrSize then pure none
    else do
      let dest ← ntohsAt bytes (l4Off + 2)
      pure (some (UInt16.ofNat dest, "UDP"))
  else pure none

/-- One frame through the body of `sniffer_next_knock`: the knock it is, with the name
of its protocol, or `none` for every `continue`. `gIfindex` is the interface chosen at
start-up, zero for all of them. -/
def sniffFrame (cfg : Config) (gIfindex : UInt32) (frame : Frame) :
    Except OutOfBounds (Option (KnockEvent × String)) := do
  let bytes := frame.bytes
  -- a packet socket sees what the host sends, too
  if frame.pkttype = packetOutgoing then pure none
  else if gIfindex ≠ 0 ∧ frame.ifindex ≠ gIfindex then pure none
  else do
    match ← findIpOffset bytes frame.hatype with
    | none => pure none
    | some ipOff => do
      let first ← byteAt bytes ipOff
      let l4Off := ipOff + (first &&& 0x0f).toNat * 4
      -- the header may claim more options than were received
      if l4Off > bytes.length then pure none
      else do
        let fragOff ← ntohsAt bytes (ipOff + 6)
        -- only the first fragment carries the transport header
        if fragOff &&& ipOffmask ≠ 0 then pure none
        else do
          let protocol ← byteAt bytes (ipOff + 9)
          match ← findPort bytes protocol l4Off with
          | none => pure none
          | some (dport, protoName) =>
            if !isKnockPort cfg dport then pure none
            else do
              let saddr ← wordAt bytes (ipOff + 12)
              pure (some (⟨saddr, dport⟩, protoName))

/-- The knock a frame is, if it is one. -/
def knockOf (cfg : Config) (gIfindex : UInt32) (frame : Frame) : Option (KnockEvent × String) :=
  match sniffFrame cfg gIfindex frame with
  | .ok knock => knock
  | .error _ => none

/-! ### Receiving -/

/-- What `recvfrom` returns: a frame, nothing before the timeout or a signal, or a
failure of the socket. -/
inductive Recv
  | frame (f : Frame)
  | again
  | failed (reason : String)
  deriving DecidableEq

/-- How one turn of the loop ends: round again, or a return. -/
inductive SnifferTurn
  | skip
  | ok (event : KnockEvent)
  | again
  | error
  deriving DecidableEq, Repr

/-- One turn of the loop of `sniffer_next_knock`, with its log. -/
def snifferTurn (cfg : Config) (gIfindex : UInt32) : Recv → SnifferTurn × List LogLine
  | .again => (.again, [])
  | .failed reason => (.error, logMsg cfg .error ("recvfrom() failed: " ++ reason))
  | .frame f =>
    match knockOf cfg gIfindex f with
    | none => (.skip, [])
    | some (event, protoName) =>
      (.ok event, logMsg cfg .debug
        (protoName ++ " from " ++ inetNtop event.srcIp ++ " to port " ++
          toString event.dstPort.toNat))

/-- `sniffer_next_knock` on a stream of receive results: how it returns, its log, and
what is left of the stream; `none` while it is still waiting at the end of it. -/
def snifferNextKnock (cfg : Config) (gIfindex : UInt32) :
    List Recv → Option (SnifferTurn × List LogLine × List Recv)
  | [] => none
  | r :: rest =>
    match snifferTurn cfg gIfindex r with
    | (.skip, _) => snifferNextKnock cfg gIfindex rest
    | (turn, log) => some (turn, log, rest)

/-- A UDP datagram with no payload as a tunnel interface delivers it, without a link
header. -/
def udpFrame (src : UInt32) (dport : UInt16) : Frame where
  bytes := [0x45, 0, 0, 28, 0, 0, 0, 0, 64, ipprotoUdp, 0, 0,
    src.toUInt8, (src >>> 8).toUInt8, (src >>> 16).toUInt8, (src >>> 24).toUInt8, 127, 0, 0, 1,
    0, 0, (dport >>> 8).toUInt8, dport.toUInt8, 0, 8, 0, 0]
  pkttype := 0
  ifindex := 1
  hatype := 0xfffe
  fits := by simp [pktBufSize]

example : knockOf .default 0 (udpFrame 0x0100007f 8000) =
    some (⟨0x0100007f, 8000⟩, "UDP") := by decide

end Knockd
