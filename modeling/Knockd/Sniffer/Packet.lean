import Knockd.Math.Bytes
import Knockd.Model.Sniffer

/-!
# Knocks on the wire

What a knock looks like as bytes, stated from the packet's side: a link header if the
interface has one, an IPv4 header with its options, a TCP or UDP header, and whatever
follows. The types carry what makes a packet a knock, so a value of `Packet` is one.

The fields that nobody looks at are there because a packet has them; they may hold
anything. Addresses and sequence numbers are kept as the words they are in memory.

## Main definitions

* `EthernetHeader`, `Link` — the link header that a hardware type calls for
* `Ipv4Header` — an unfragmented IPv4 header, or that of a first fragment
* `TcpHeader`, `UdpHeader`, `Segment` — a connection attempt or a datagram
* `Packet`, `Matches` — the whole packet, and the frames that hold one for us
-/

namespace Knockd

/-- The hardware types whose frames start with an Ethernet header. -/
def HasEthernet (hatype : UInt16) : Prop := hatype = arphrdEther ∨ hatype = arphrdLoopback

instance (hatype : UInt16) : Decidable (HasEthernet hatype) :=
  inferInstanceAs (Decidable (_ ∨ _))

/-- An Ethernet header that announces IPv4. -/
structure EthernetHeader where
  destination : Vector UInt8 6
  source : Vector UInt8 6

/-- The header as it is sent. -/
def EthernetHeader.bytes (h : EthernetHeader) : List UInt8 :=
  h.destination.toList ++ h.source.toList ++ [0x08, 0x00]

/-- The link header of a frame from an interface of this hardware type. -/
inductive Link (hatype : UInt16)
  | ethernet (hkind : HasEthernet hatype) (header : EthernetHeader)
  | bare (hkind : ¬ HasEthernet hatype)

/-- The link header as it is sent. -/
def Link.bytes {hatype : UInt16} : Link hatype → List UInt8
  | .ethernet _ header => header.bytes
  | .bare _ => []

/-- An IPv4 header with fragment offset zero. Its length counts words, the options
included. -/
structure Ipv4Header where
  ihl : ℕ
  five_le_ihl : 5 ≤ ihl
  ihl_le : ihl ≤ 15
  tos : UInt8
  totLen : UInt16
  id : UInt16
  flags : Fin 8
  ttl : UInt8
  check : UInt16
  saddr : UInt32
  daddr : UInt32
  options : List UInt8
  length_options : options.length = 4 * (ihl - 5)

/-- The header as it is sent in front of a segment of this protocol. -/
def Ipv4Header.bytes (h : Ipv4Header) (protocol : UInt8) : List UInt8 :=
  [UInt8.ofNat (4 * 16 + h.ihl), h.tos] ++ Bytes.be16 h.totLen ++
    Bytes.be16 h.id ++ [UInt8.ofNat (h.flags.val * 32), 0] ++
    [h.ttl, protocol] ++ Bytes.be16 h.check ++
    Bytes.le32 h.saddr ++ Bytes.le32 h.daddr ++ h.options

/-- A TCP header with SYN set and ACK clear. -/
structure TcpHeader where
  source : UInt16
  dest : UInt16
  seq : UInt32
  ackSeq : UInt32
  doff : UInt8
  flags : UInt8
  syn : flags &&& 0x02 ≠ 0
  ack : flags &&& 0x10 = 0
  window : UInt16
  check : UInt16
  urgPtr : UInt16

/-- The header as it is sent. -/
def TcpHeader.bytes (h : TcpHeader) : List UInt8 :=
  Bytes.be16 h.source ++ Bytes.be16 h.dest ++ Bytes.le32 h.seq ++ Bytes.le32 h.ackSeq ++
    [h.doff, h.flags] ++ Bytes.be16 h.window ++ Bytes.be16 h.check ++ Bytes.be16 h.urgPtr

/-- A UDP header. -/
structure UdpHeader where
  source : UInt16
  dest : UInt16
  len : UInt16
  check : UInt16

/-- The header as it is sent. -/
def UdpHeader.bytes (h : UdpHeader) : List UInt8 :=
  Bytes.be16 h.source ++ Bytes.be16 h.dest ++ Bytes.be16 h.len ++ Bytes.be16 h.check

/-- The transport header of a knock. -/
inductive Segment
  | tcp (header : TcpHeader)
  | udp (header : UdpHeader)

namespace Segment

/-- The number IP knows the protocol by. -/
def protocol : Segment → UInt8
  | .tcp _ => ipprotoTcp
  | .udp _ => ipprotoUdp

/-- The port knocked on. -/
def dest : Segment → UInt16
  | .tcp header => header.dest
  | .udp header => header.dest

/-- The header as it is sent. -/
def bytes : Segment → List UInt8
  | .tcp header => header.bytes
  | .udp header => header.bytes

/-- The name it is logged under. -/
def protoName : Segment → String
  | .tcp _ => "TCP SYN"
  | .udp _ => "UDP"

end Segment

/-- A knock, as an interface of this hardware type delivers it. -/
structure Packet (hatype : UInt16) where
  link : Link hatype
  ip : Ipv4Header
  segment : Segment
  payload : List UInt8

/-- The packet as it is sent. -/
def Packet.bytes {hatype : UInt16} (p : Packet hatype) : List UInt8 :=
  p.link.bytes ++ (p.ip.bytes p.segment.protocol ++ (p.segment.bytes ++ p.payload))

/-- Who knocks where with this packet. -/
def Packet.event {hatype : UInt16} (p : Packet hatype) : KnockEvent :=
  ⟨p.ip.saddr, p.segment.dest⟩

/-- The frame did not leave this host and came in on an interface we listen to. -/
def Heard (gIfindex : UInt32) (frame : Frame) : Prop :=
  frame.pkttype ≠ packetOutgoing ∧ (gIfindex = 0 ∨ frame.ifindex = gIfindex)

/-- The frame is a packet that knocks one of our ports. -/
def Matches (cfg : Config) (gIfindex : UInt32) (frame : Frame) (event : KnockEvent) : Prop :=
  Heard gIfindex frame ∧
    ∃ p : Packet frame.hatype, frame.bytes = p.bytes ∧ p.event = event ∧
      event.dstPort ∈ cfg.sequence

/-! ### Sizes -/

theorem EthernetHeader.length_bytes (h : EthernetHeader) : h.bytes.length = ethhdrSize := by
  simp [EthernetHeader.bytes, ethhdrSize]

theorem Ipv4Header.length_bytes (h : Ipv4Header) (protocol : UInt8) :
    (h.bytes protocol).length = h.ihl * 4 := by
  have hihl := h.five_le_ihl
  have hoptions := h.length_options
  simp [Ipv4Header.bytes, Bytes.be16, Bytes.le32]
  omega

theorem TcpHeader.length_bytes (h : TcpHeader) : h.bytes.length = tcphdrSize := rfl

theorem UdpHeader.length_bytes (h : UdpHeader) : h.bytes.length = udphdrSize := rfl

end Knockd
