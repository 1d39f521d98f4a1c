import Knockd.Sniffer.Packet

/-!
# The parser reads exactly the knocks

Two facts about the header walk carry everything else. A frame that holds a packet is
reported with the packet's own source and port. And a frame that does not get as far as
a packet is skipped: at each header the walk either gives up or has just seen that the
bytes are a header of the kind it is looking for. Neither ever reads past the bytes
received, so no frame makes it fail.

## Main results

* `sniffFrame_packet` — packets are reported
* `sniffFrame_cases` — anything else is skipped
* `exists_knockOf` — every knock on one of our ports can be sent
* `reports_iff` — what repeated calls report on a stream
* `sniffer_exact` — the two together, for one frame and for a stream
-/

namespace Knockd

/-! ### Reading bytes -/

section Reading

variable {pre l : List UInt8} {i : ℕ} {a b c d : UInt8}

theorem byteAt_append (h : l[i]? = some b) : byteAt (pre ++ l) (pre.length + i) = .ok b := by
  rw [byteAt, List.getElem?_append_right (Nat.le_add_right _ _), Nat.add_sub_cancel_left, h]

theorem ntohsAt_append (ha : l[i]? = some a) (hb : l[i + 1]? = some b) :
    ntohsAt (pre ++ l) (pre.length + i) = .ok (a.toNat * 256 + b.toNat) := by
  rw [ntohsAt, byteAt_append ha, Nat.add_assoc, byteAt_append hb]
  rfl

theorem wordAt_append (ha : l[i]? = some a) (hb : l[i + 1]? = some b) (hc : l[i + 2]? = some c)
    (hd : l[i + 3]? = some d) :
    wordAt (pre ++ l) (pre.length + i) =
      .ok (UInt32.ofNat (a.toNat + b.toNat * 256 + c.toNat * 65536 + d.toNat * 16777216)) := by
  rw [wordAt, byteAt_append ha, Nat.add_assoc, byteAt_append hb, Nat.add_assoc, byteAt_append hc,
    Nat.add_assoc, byteAt_append hd]
  rfl

end Reading

/-! ### The stages of the walk -/

/-- Where the link header ends. -/
def linkOffset (bytes : List UInt8) (hatype : UInt16) : Except OutOfBounds (Option ℕ) :=
  if HasEthernet hatype then
    if bytes.length < ethhdrSize then pure none
    else do
      let proto ← ntohsAt bytes 12
      if proto ≠ ethPIp then pure none else pure (some ethhdrSize)
  else pure (some 0)

/-- Is there an IPv4 header at this offset? -/
def checkIp (bytes : List UInt8) : Option ℕ → Except OutOfBounds (Option ℕ)
  | none => pure none
  | some ipOff =>
    if bytes.length < ipOff + iphdrSize then pure none
    else do
      let first ← byteAt bytes ipOff
      if first >>> 4 ≠ 4 ∨ first &&& 0x0f < 5 then pure none else pure (some ipOff)

/-- From the IP header to the knock. -/
def walkIp (cfg : Config) (bytes : List UInt8) :
    Option ℕ → Except OutOfBounds (Option (KnockEvent × String))
  | none => pure none
  | some ipOff => do
    let first ← byteAt bytes ipOff
    let l4Off := ipOff + (first &&& 0x0f).toNat * 4
    if l4Off > bytes.length then pure none
    else do
      let fragOff ← ntohsAt bytes (ipOff + 6)
      if fragOff &&& ipOffmask ≠ 0 then pure none
      else do
        let protocol ← byteAt bytes (ipOff + 9)
        match ← findPort bytes protocol l4Off with
        | none => pure none
        | some (dport, protoName) =>
          if !isKnockPort cfg dport then pure none
          else do
            let saddr ← wordAt bytes (ipOff + 12)
            pure (some (⟨saddr, dport⟩, protoName))

theorem findIpOffset_eq (bytes : List UInt8) (hatype : UInt16) :
    findIpOffset bytes hatype = linkOffset bytes hatype >>= checkIp bytes := by
  unfold findIpOffset linkOffset
  by_cases hkind : HasEthernet hatype
  · have hkind' : hatype = arphrdEther ∨ hatype = arphrdLoopback := hkind
    rw [if_pos hkind, if_pos hkind']
    split
    · rfl
    · cases ntohsAt bytes 12 with
      | error e => rfl
      | ok proto =>
        by_cases hproto : proto ≠ ethPIp
        · simp only [Bind.bind, Except.bind, if_pos hproto]
          rfl
        · simp only [Bind.bind, Except.bind, if_neg hproto]
          rfl
  · have hkind' : ¬ (hatype = arphrdEther ∨ hatype = arphrdLoopback) := hkind
    rw [if_neg hkind, if_neg hkind']
    rfl

variable {cfg : Config} {gIfindex : UInt32} {frame : Frame}

theorem sniffFrame_heard (h : Heard gIfindex frame) :
    sniffFrame cfg gIfindex frame =
      findIpOffset frame.bytes frame.hatype >>= walkIp cfg frame.bytes := by
  have hours : ¬ (gIfindex ≠ 0 ∧ frame.ifindex ≠ gIfindex) := by
    rintro ⟨hchosen, hother⟩
    exact h.2.elim hchosen hother
  rw [sniffFrame, if_neg h.1, if_neg hours]
  rfl

theorem sniffFrame_not_heard (h : ¬ Heard gIfindex frame) :
    sniffFrame cfg gIfindex frame = .ok none := by
  rw [Heard, not_and_or, not_not, not_or] at h
  unfold sniffFrame
  split
  · rfl
  · rename_i hin
    rw [if_pos (h.resolve_left hin)]
    rfl

/-! ### The link header -/

section LinkHeader

variable {hatype : UInt16}

/-- An Ethernet header announces what follows in its last two bytes. -/
theorem ntohsAt_ethernet (addresses rest : List UInt8) (h : addresses.length = 12)
    (hi lo : UInt8) :
    ntohsAt (addresses ++ hi :: lo :: rest) 12 = .ok (hi.toNat * 256 + lo.toNat) := by
  have hread : ntohsAt (addresses ++ hi :: lo :: rest) (addresses.length + 0) = _ :=
    ntohsAt_append rfl rfl
  rwa [h] at hread

theorem linkOffset_link (link : Link hatype) (rest : List UInt8) :
    linkOffset (link.bytes ++ rest) hatype = .ok (some link.bytes.length) := by
  cases link with
  | ethernet hkind header =>
    have hlong : ¬ (header.bytes ++ rest).length < ethhdrSize := by
      rw [List.length_append, header.length_bytes]
      omega
    have hproto : ntohsAt (header.bytes ++ rest) 12 = .ok ethPIp := by
      rw [EthernetHeader.bytes, List.append_assoc]
      exact ntohsAt_ethernet _ _ (by simp) 0x08 0x00
    rw [Link.bytes, linkOffset, if_pos hkind, if_neg hlong, hproto, header.length_bytes]
    rfl
  | bare hkind => rw [linkOffset, if_neg hkind, Link.bytes]; rfl

/-- A frame starts with the link header its hardware type calls for, or is skipped. -/
theorem linkOffset_cases (bytes : List UInt8) (hatype : UInt16) :
    (∃ (link : Link hatype) (rest : List UInt8), bytes = link.bytes ++ rest) ∨
      linkOffset bytes hatype = .ok none := by
  by_cases hkind : HasEthernet hatype
  · rw [linkOffset, if_pos hkind]
    by_cases hshort : bytes.length < ethhdrSize
    · exact Or.inr (if_pos hshort)
    · rw [if_neg hshort]
      rw [ethhdrSize, Nat.not_lt] at hshort
      -- two addresses of six bytes, and the type
      obtain ⟨a₁, a₂, a₃, a₄, l₁, rfl, h₁⟩ := Bytes.exists_word (n := 10) hshort
      obtain ⟨a₅, a₆, b₁, b₂, l₂, rfl, h₂⟩ := Bytes.exists_word (n := 6) h₁
      obtain ⟨b₃, b₄, b₅, b₆, l₃, rfl, h₃⟩ := Bytes.exists_word (n := 2) h₂
      obtain ⟨hi, lo, rest, rfl, -⟩ := Bytes.exists_pair (n := 0) h₃
      have hread : ntohsAt (a₁ :: a₂ :: a₃ :: a₄ :: a₅ :: a₆ :: b₁ :: b₂ :: b₃ :: b₄ :: b₅ :: b₆ ::
          hi :: lo :: rest) 12 = .ok (hi.toNat * 256 + lo.toNat) :=
        ntohsAt_ethernet [a₁, a₂, a₃, a₄, a₅, a₆, b₁, b₂, b₃, b₄, b₅, b₆] rest rfl hi lo
      rw [hread]
      by_cases hproto : hi.toNat * 256 + lo.toNat ≠ ethPIp
      · exact Or.inr (if_pos hproto)
      · left
        have hlt := lo.toNat_lt
        rw [ethPIp] at hproto
        obtain rfl : hi = 0x08 := UInt8.toNat_inj.mp (by simp only [UInt8.reduceToNat]; omega)
        obtain rfl : lo = 0x00 := UInt8.toNat_inj.mp (by simp only [UInt8.reduceToNat]; omega)
        exact ⟨.ethernet hkind ⟨#v[a₁, a₂, a₃, a₄, a₅, a₆], #v[b₁, b₂, b₃, b₄, b₅, b₆]⟩, rest, rfl⟩
  · exact Or.inl ⟨.bare hkind, bytes, rfl⟩

end LinkHeader

/-! ### The transport header -/

section Transport

theorem findPort_segment (pre : List UInt8) (segment : Segment) (payload : List UInt8) :
    findPort (pre ++ (segment.bytes ++ payload)) segment.protocol pre.length =
      .ok (some (segment.dest, segment.protoName)) := by
  cases segment with
  | tcp header =>
    have hlong : ¬ (pre ++ (header.bytes ++ payload)).length < pre.length + tcphdrSize := by
      rw [List.length_append, List.length_append, header.length_bytes]
      omega
    have hflags : byteAt (pre ++ (header.bytes ++ payload)) (pre.length + 13) =
        .ok header.flags := byteAt_append rfl
    have hdest : ntohsAt (pre ++ (header.bytes ++ payload)) (pre.length + 2) = _ :=
      ntohsAt_append rfl rfl
    have hattempt : ¬ (header.flags &&& 0x02 = 0 ∨ header.flags &&& 0x10 ≠ 0) := by
      rintro (hsyn | hack)
      · exact header.syn hsyn
      · exact hack header.ack
    simp only [Segment.bytes, Segment.protocol, Segment.dest, Segment.protoName]
    rw [findPort, if_pos rfl, if_neg hlong, hflags]
    simp only [Bind.bind, Except.bind, if_neg hattempt, hdest, Bytes.ofNat_be16]
    rfl
  | udp header =>
    have hlong : ¬ (pre ++ (header.bytes ++ payload)).length < pre.length + udphdrSize := by
      rw [List.length_append, List.length_append, header.length_bytes]
      omega
    have hdest : ntohsAt (pre ++ (header.bytes ++ payload)) (pre.length + 2) = _ :=
      ntohsAt_append rfl rfl
    simp only [Segment.bytes, Segment.protocol, Segment.dest, Segment.protoName]
    rw [findPort, if_neg (by decide), if_pos rfl, if_neg hlong]
    simp only [Bind.bind, Except.bind, hdest, Bytes.ofNat_be16]
    rfl

/-- What follows the IP header is the transport header of a knock, or is skipped. -/
theorem findPort_cases (pre l : List UInt8) (protocol : UInt8) :
    (∃ (segment : Segment) (payload : List UInt8), l = segment.bytes ++ payload ∧
        segment.protocol = protocol) ∨
      findPort (pre ++ l) protocol pre.length = .ok none := by
  by_cases htcp : protocol = ipprotoTcp
  · by_cases hshort : (pre ++ l).length < pre.length + tcphdrSize
    · right
      rw [findPort, if_pos htcp, if_pos hshort]
      rfl
    · have hlong : 20 ≤ l.length := by
        rw [List.length_append, tcphdrSize] at hshort
        omega
      obtain ⟨s₁, s₂, d₁, d₂, l₁, rfl, h₁⟩ := Bytes.exists_word (n := 16) hlong
      obtain ⟨q₁, q₂, q₃, q₄, l₂, rfl, h₂⟩ := Bytes.exists_word (n := 12) h₁
      obtain ⟨a₁, a₂, a₃, a₄, l₃, rfl, h₃⟩ := Bytes.exists_word (n := 8) h₂
      obtain ⟨doff, flags, w₁, w₂, l₄, rfl, h₄⟩ := Bytes.exists_word (n := 4) h₃
      obtain ⟨c₁, c₂, u₁, u₂, payload, rfl, -⟩ := Bytes.exists_word (n := 0) h₄
      by_cases hattempt : flags &&& 0x02 = 0 ∨ flags &&& 0x10 ≠ 0
      · right
        rw [findPort, if_pos htcp, if_neg hshort, byteAt_append (i := 13) (b := flags) rfl]
        exact if_pos hattempt
      · left
        rw [not_or, ne_eq, not_not] at hattempt
        obtain ⟨source, hsource⟩ := Bytes.exists_be16 s₁ s₂
        obtain ⟨dest, hdest⟩ := Bytes.exists_be16 d₁ d₂
        obtain ⟨seq, hseq⟩ := Bytes.exists_le32 q₁ q₂ q₃ q₄
        obtain ⟨ackSeq, hackSeq⟩ := Bytes.exists_le32 a₁ a₂ a₃ a₄
        obtain ⟨window, hwindow⟩ := Bytes.exists_be16 w₁ w₂
        obtain ⟨check, hcheck⟩ := Bytes.exists_be16 c₁ c₂
        obtain ⟨urgPtr, hurgPtr⟩ := Bytes.exists_be16 u₁ u₂
        refine ⟨.tcp ⟨source, dest, seq, ackSeq, doff, flags, hattempt.1, hattempt.2, window, check,
          urgPtr⟩, payload, ?_, htcp.symm⟩
        simp only [Segment.bytes, TcpHeader.bytes, hsource, hdest, hseq, hackSeq, hwindow, hcheck,
          hurgPtr]
        rfl
  · by_cases hudp : protocol = ipprotoUdp
    · by_cases hshort : (pre ++ l).length < pre.length + udphdrSize
      · right
        rw [findPort, if_neg htcp, if_pos hudp, if_pos hshort]
        rfl
      · have hlong : 8 ≤ l.length := by
          rw [List.length_append, udphdrSize] at hshort
          omega
        obtain ⟨s₁, s₂, d₁, d₂, l₁, rfl, h₁⟩ := Bytes.exists_word (n := 4) hlong
        obtain ⟨n₁, n₂, c₁, c₂, payload, rfl, -⟩ := Bytes.exists_word (n := 0) h₁
        obtain ⟨source, hsource⟩ := Bytes.exists_be16 s₁ s₂
        obtain ⟨dest, hdest⟩ := Bytes.exists_be16 d₁ d₂
        obtain ⟨len, hlen⟩ := Bytes.exists_be16 n₁ n₂
        obtain ⟨check, hcheck⟩ := Bytes.exists_be16 c₁ c₂
        refine Or.inl ⟨.udp ⟨source, dest, len, check⟩, payload, ?_, hudp.symm⟩
        simp only [Segment.bytes, UdpHeader.bytes, hsource, hdest, hlen, hcheck]
        rfl
    · right
      rw [findPort, if_neg htcp, if_neg hudp]
      rfl

end Transport

/-! ### The IP header -/

section Ip

variable {pre : List UInt8}

/-- The first byte of an IP header tells the version and the header's length. -/
theorem first_nibbles (ip : Ipv4Header) :
    (UInt8.ofNat (4 * 16 + ip.ihl) >>> 4 = 4 ∧ ¬ UInt8.ofNat (4 * 16 + ip.ihl) &&& 0x0f < 5) ∧
      (UInt8.ofNat (4 * 16 + ip.ihl) &&& 0x0f).toNat = ip.ihl := by
  have hge := ip.five_le_ihl
  have hle := ip.ihl_le
  have hfirst : (UInt8.ofNat (4 * 16 + ip.ihl)).toNat = 4 * 16 + ip.ihl := by
    rw [UInt8.toNat_ofNat']
    omega
  have hlow : (UInt8.ofNat (4 * 16 + ip.ihl) &&& 0x0f).toNat = ip.ihl := by
    rw [Bytes.toNat_low, hfirst]
    omega
  refine ⟨⟨UInt8.toNat_inj.mp ?_, ?_⟩, hlow⟩
  · rw [Bytes.toNat_high, hfirst]
    simp only [UInt8.reduceToNat]
    omega
  · rw [UInt8.lt_iff_toNat_lt, hlow]
    simp only [UInt8.reduceToNat]
    omega

/-- Of the fragment field only the flags are above the offset. -/
theorem and_ipOffmask (n : ℕ) : n &&& ipOffmask = n % 8192 :=
  Nat.and_two_pow_sub_one_eq_mod n 13

theorem checkIp_header (ip : Ipv4Header) (protocol : UInt8) (rest : List UInt8) :
    checkIp (pre ++ (ip.bytes protocol ++ rest)) (some pre.length) = .ok (some pre.length) := by
  have hlong : ¬ (pre ++ (ip.bytes protocol ++ rest)).length < pre.length + iphdrSize := by
    have hge := ip.five_le_ihl
    rw [List.length_append, List.length_append, ip.length_bytes, iphdrSize]
    omega
  have hfirst : byteAt (pre ++ (ip.bytes protocol ++ rest)) pre.length =
      .ok (UInt8.ofNat (4 * 16 + ip.ihl)) := byteAt_append (i := 0) rfl
  obtain ⟨⟨hversion, hlength⟩, -⟩ := first_nibbles ip
  have hok : ¬ (UInt8.ofNat (4 * 16 + ip.ihl) >>> 4 ≠ 4 ∨
      UInt8.ofNat (4 * 16 + ip.ihl) &&& 0x0f < 5) := by
    rintro (hother | hshort)
    · exact hother hversion
    · exact hlength hshort
  rw [checkIp, if_neg hlong, hfirst]
  exact if_neg hok

/-- The port is reported, with the source address, if it is one of ours. -/
def reportPort (cfg : Config) (saddr : UInt32) :
    Option (UInt16 × String) → Option (KnockEvent × String)
  | none => none
  | some (dport, protoName) =>
    if isKnockPort cfg dport then some (⟨saddr, dport⟩, protoName) else none

/-- Behind an IP header it is the transport header that decides. -/
theorem walkIp_header (ip : Ipv4Header) (protocol : UInt8) (l : List UInt8) :
    walkIp cfg (pre ++ (ip.bytes protocol ++ l)) (some pre.length) =
      (findPort (pre ++ ip.bytes protocol ++ l) protocol (pre ++ ip.bytes protocol).length).map
        (reportPort cfg ip.saddr) := by
  obtain ⟨-, hihl⟩ := first_nibbles ip
  have hflags := ip.flags.isLt
  have hlong : ¬ pre.length + ip.ihl * 4 > (pre ++ (ip.bytes protocol ++ l)).length := by
    rw [List.length_append, List.length_append, ip.length_bytes]
    omega
  rw [List.append_assoc, List.length_append, ip.length_bytes]
  generalize hbytes : pre ++ (ip.bytes protocol ++ l) = bytes at *
  have hfirst : byteAt bytes pre.length = .ok (UInt8.ofNat (4 * 16 + ip.ihl)) :=
    hbytes ▸ byteAt_append (i := 0) rfl
  have hfrag : ntohsAt bytes (pre.length + 6) =
      .ok ((UInt8.ofNat (ip.flags.val * 32)).toNat * 256 + (0 : UInt8).toNat) :=
    hbytes ▸ ntohsAt_append (i := 6) rfl rfl
  have hprotocol : byteAt bytes (pre.length + 9) = .ok protocol :=
    hbytes ▸ byteAt_append (i := 9) rfl
  have hsaddr : wordAt bytes (pre.length + 12) = .ok ip.saddr := by
    have hword : wordAt bytes (pre.length + 12) = _ :=
      hbytes ▸ wordAt_append (i := 12) rfl rfl rfl rfl
    rw [hword, Bytes.ofNat_le32]
  have hzero : ¬ ((UInt8.ofNat (ip.flags.val * 32)).toNat * 256 + (0 : UInt8).toNat) &&&
      ipOffmask ≠ 0 := by
    rw [and_ipOffmask, UInt8.toNat_ofNat']
    simp only [UInt8.reduceToNat]
    omega
  rw [walkIp, hfirst]
  simp only [Bind.bind, Except.bind, hihl, if_neg hlong, hfrag, if_neg hzero, hprotocol]
  cases findPort bytes protocol (pre.length + ip.ihl * 4) with
  | error e => rfl
  | ok found =>
    cases found with
    | none => rfl
    | some port =>
      cases hknock : isKnockPort cfg port.1
      · simp [reportPort, hknock, Except.map, pure, Except.pure]
      · simp [reportPort, hknock, hsaddr, Except.map, pure, Except.pure]

/-- A first byte that passes the check is that of an IPv4 header. -/
theorem first_eq {first : UInt8} (hversion : first >>> 4 = 4) :
    first = UInt8.ofNat (4 * 16 + (first &&& 0x0f).toNat) := by
  have hlt := first.toNat_lt
  have hhigh := congrArg UInt8.toNat hversion
  rw [Bytes.toNat_high] at hhigh
  simp only [UInt8.reduceToNat] at hhigh
  apply UInt8.toNat_inj.mp
  rw [UInt8.toNat_ofNat', Bytes.toNat_low]
  omega

/-- A fragment field with offset zero holds three flags and nothing else. -/
theorem frag_eq {f₁ f₂ : UInt8} (h : (f₁.toNat * 256 + f₂.toNat) &&& ipOffmask = 0) :
    ∃ flags : Fin 8, f₁ = UInt8.ofNat (flags.val * 32) ∧ f₂ = 0 := by
  have h₁ := f₁.toNat_lt
  have h₂ := f₂.toNat_lt
  rw [and_ipOffmask] at h
  refine ⟨⟨f₁.toNat / 32, by omega⟩, UInt8.toNat_inj.mp ?_, UInt8.toNat_inj.mp ?_⟩
  · rw [UInt8.toNat_ofNat']
    simp only
    omega
  · simp only [UInt8.reduceToNat]
    omega

/-- Twenty bytes are the fixed part of an IP header, whatever they hold. -/
theorem exists_fixedPart {rest : List UInt8} (h : iphdrSize ≤ rest.length) :
    ∃ (first tos f₁ f₂ ttl protocol : UInt8) (totLen id check : UInt16) (saddr daddr : UInt32)
      (tail : List UInt8),
      rest = [first, tos] ++ Bytes.be16 totLen ++ Bytes.be16 id ++ [f₁, f₂] ++ [ttl, protocol] ++
        Bytes.be16 check ++ Bytes.le32 saddr ++ Bytes.le32 daddr ++ tail := by
  obtain ⟨first, tos, n₁, n₂, l₁, rfl, h₁⟩ := Bytes.exists_word (n := 16) h
  obtain ⟨i₁, i₂, f₁, f₂, l₂, rfl, h₂⟩ := Bytes.exists_word (n := 12) h₁
  obtain ⟨ttl, protocol, c₁, c₂, l₃, rfl, h₃⟩ := Bytes.exists_word (n := 8) h₂
  obtain ⟨s₁, s₂, s₃, s₄, l₄, rfl, h₄⟩ := Bytes.exists_word (n := 4) h₃
  obtain ⟨d₁, d₂, d₃, d₄, tail, rfl, -⟩ := Bytes.exists_word (n := 0) h₄
  obtain ⟨totLen, htotLen⟩ := Bytes.exists_be16 n₁ n₂
  obtain ⟨id, hid⟩ := Bytes.exists_be16 i₁ i₂
  obtain ⟨check, hcheck⟩ := Bytes.exists_be16 c₁ c₂
  obtain ⟨saddr, hsaddr⟩ := Bytes.exists_le32 s₁ s₂ s₃ s₄
  obtain ⟨daddr, hdaddr⟩ := Bytes.exists_le32 d₁ d₂ d₃ d₄
  refine ⟨first, tos, f₁, f₂, ttl, protocol, totLen, id, check, saddr, daddr, tail, ?_⟩
  rw [htotLen, hid, hcheck, hsaddr, hdaddr]
  rfl

/-- Behind the link header the bytes start with an IP header, or the frame is skipped. -/
theorem walkIp_cases (cfg : Config) (pre rest : List UInt8) :
    (∃ (ip : Ipv4Header) (protocol : UInt8) (l : List UInt8), rest = ip.bytes protocol ++ l) ∨
      (checkIp (pre ++ rest) (some pre.length) >>= walkIp cfg (pre ++ rest)) = .ok none := by
  by_cases hshort : (pre ++ rest).length < pre.length + iphdrSize
  · right
    rw [checkIp, if_pos hshort]
    rfl
  have hlong : iphdrSize ≤ rest.length := by
    rw [List.length_append] at hshort
    omega
  obtain ⟨first, tos, f₁, f₂, ttl, protocol, totLen, id, check, saddr, daddr, tail, hrest⟩ :=
    exists_fixedPart hlong
  have hfirst : byteAt (pre ++ rest) pre.length = .ok first := by
    rw [hrest]
    exact byteAt_append (i := 0) rfl
  have hfrag : ntohsAt (pre ++ rest) (pre.length + 6) = .ok (f₁.toNat * 256 + f₂.toNat) := by
    rw [hrest]
    exact ntohsAt_append (i := 6) rfl rfl
  rw [checkIp, if_neg hshort, hfirst]
  -- each check of the walk in turn: failing it, the frame is skipped
  by_cases hbad : first >>> 4 ≠ 4 ∨ first &&& 0x0f < 5
  · right
    simp only [Bind.bind, Except.bind, if_pos hbad]
    rfl
  simp only [Bind.bind, Except.bind, if_neg hbad, pure, Except.pure, walkIp, hfirst]
  by_cases hcut : pre.length + (first &&& 0x0f).toNat * 4 > (pre ++ rest).length
  · exact Or.inr (if_pos hcut)
  by_cases hfragment : (f₁.toNat * 256 + f₂.toNat) &&& ipOffmask ≠ 0
  · right
    rw [if_neg hcut, hfrag]
    exact if_pos hfragment
  -- passing them all, it has an IP header
  left
  rw [not_or, ne_eq, not_not, UInt8.lt_iff_toNat_lt] at hbad
  rw [ne_eq, not_not] at hfragment
  rw [List.length_append] at hcut
  obtain ⟨flags, rfl, rfl⟩ := frag_eq hfragment
  have hge : 5 ≤ (first &&& 0x0f).toNat := Nat.not_lt.mp hbad.2
  have hle : (first &&& 0x0f).toNat ≤ 15 := by
    rw [Bytes.toNat_low]
    omega
  have hlen : rest.length = 20 + tail.length := by
    rw [hrest]
    simp [Bytes.be16, Bytes.le32]
    omega
  have hoptions : (tail.take (4 * ((first &&& 0x0f).toNat - 5))).length =
      4 * ((first &&& 0x0f).toNat - 5) := by
    rw [List.length_take]
    omega
  refine ⟨⟨(first &&& 0x0f).toNat, hge, hle, tos, totLen, id, flags, ttl, check, saddr, daddr, _,
    hoptions⟩, protocol, tail.drop (4 * ((first &&& 0x0f).toNat - 5)), ?_⟩
  rw [Ipv4Header.bytes, ← first_eq hbad.1, List.append_assoc _ _ (tail.drop _),
    List.take_append_drop]
  exact hrest

end Ip

/-! ### The whole frame -/

/-- A packet that knocks one of our ports is reported as what it is. -/
theorem sniffFrame_packet (hheard : Heard gIfindex frame) {p : Packet frame.hatype}
    (hbytes : frame.bytes = p.bytes) (hport : p.segment.dest ∈ cfg.sequence) :
    sniffFrame cfg gIfindex frame = .ok (some (p.event, p.segment.protoName)) := by
  have hknock : isKnockPort cfg p.segment.dest = true := by simpa [isKnockPort] using hport
  rw [sniffFrame_heard hheard, findIpOffset_eq, hbytes, Packet.bytes, linkOffset_link]
  simp only [Bind.bind, Except.bind]
  rw [checkIp_header]
  simp only
  rw [walkIp_header, findPort_segment]
  simp only [Except.map, reportPort, if_pos hknock]
  rfl

/-- Anything else is skipped. -/
theorem sniffFrame_cases (cfg : Config) (gIfindex : UInt32) (frame : Frame) :
    (Heard gIfindex frame ∧ ∃ p : Packet frame.hatype, frame.bytes = p.bytes ∧
        p.segment.dest ∈ cfg.sequence) ∨
      sniffFrame cfg gIfindex frame = .ok none := by
  by_cases hheard : Heard gIfindex frame
  · rw [sniffFrame_heard hheard, findIpOffset_eq]
    rcases linkOffset_cases frame.bytes frame.hatype with ⟨link, rest, hlink⟩ | hskip
    · rw [hlink, linkOffset_link]
      rcases walkIp_cases cfg link.bytes rest with ⟨ip, protocol, l, rfl⟩ | hskip
      · -- an IP header, so the transport header and the port decide
        simp only [Bind.bind, Except.bind]
        rw [checkIp_header]
        simp only
        rw [walkIp_header]
        rcases findPort_cases (link.bytes ++ ip.bytes protocol) l protocol with
          ⟨segment, payload, rfl, rfl⟩ | hskip
        · by_cases hport : segment.dest ∈ cfg.sequence
          · exact Or.inl ⟨hheard, ⟨link, ip, segment, payload⟩, rfl, hport⟩
          · right
            have hknock : ¬ isKnockPort cfg segment.dest = true := by simpa [isKnockPort] using hport
            rw [findPort_segment]
            simp only [Except.map, reportPort, if_neg hknock]
        · right
          rw [hskip]
          rfl
      · exact Or.inr hskip
    · right
      rw [hskip]
      rfl
  · exact Or.inr (sniffFrame_not_heard hheard)

/-- One frame: reported exactly if it matches. -/
theorem sniffFrame_iff {event : KnockEvent} :
    (∃ protoName, sniffFrame cfg gIfindex frame = .ok (some (event, protoName))) ↔
      Matches cfg gIfindex frame event := by
  constructor
  · rintro ⟨protoName, hreport⟩
    rcases sniffFrame_cases cfg gIfindex frame with ⟨hheard, p, hbytes, hport⟩ | hskip
    · rw [sniffFrame_packet hheard hbytes hport] at hreport
      cases hreport
      exact ⟨hheard, p, hbytes, rfl, hport⟩
    · rw [hskip] at hreport
      cases hreport
  · rintro ⟨hheard, p, hbytes, rfl, hport⟩
    exact ⟨_, sniffFrame_packet hheard hbytes hport⟩

/-- A UDP datagram with no payload, as an interface without a link header delivers it. -/
def udpPacket (event : KnockEvent) : Packet 0xfffe where
  link := .bare (by decide)
  ip :=
    { ihl := 5, five_le_ihl := by decide, ihl_le := by decide, tos := 0, totLen := 28, id := 0,
      flags := 0, ttl := 64, check := 0, saddr := event.srcIp, daddr := 0, options := [],
      length_options := rfl }
  segment := .udp ⟨0, event.dstPort, 8, 0⟩
  payload := []

/-- Every knock on one of our ports has a frame, whichever interface we listen on. -/
theorem exists_knockOf (gIfindex : UInt32) (event : KnockEvent)
    (hport : event.dstPort ∈ cfg.sequence) :
    ∃ frame protoName, knockOf cfg gIfindex frame = some (event, protoName) := by
  let frame : Frame :=
    { bytes := (udpPacket event).bytes, pkttype := 0, ifindex := gIfindex, hatype := 0xfffe,
      fits := by simp [udpPacket, Packet.bytes, Link.bytes, Ipv4Header.bytes, Segment.bytes,
        UdpHeader.bytes, Bytes.be16, Bytes.le32, pktBufSize] }
  have hheard : Heard gIfindex frame := ⟨(by decide : (0 : UInt8) ≠ packetOutgoing), Or.inr rfl⟩
  refine ⟨frame, "UDP", ?_⟩
  rw [knockOf, sniffFrame_packet hheard rfl hport]
  rfl

/-! ### Streams of frames -/

/-- The knocks that calling `sniffer_next_knock` again and again reports on a stream, until
it waits for more or the socket fails. -/
inductive Reports (cfg : Config) (gIfindex : UInt32) : List Recv → List KnockEvent → Prop
  | waiting {stream : List Recv} (h : snifferNextKnock cfg gIfindex stream = none) :
      Reports cfg gIfindex stream []
  | knock {stream rest : List Recv} {event : KnockEvent} {log : List LogLine}
      {events : List KnockEvent}
      (h : snifferNextKnock cfg gIfindex stream = some (.ok event, log, rest))
      (hrest : Reports cfg gIfindex rest events) : Reports cfg gIfindex stream (event :: events)
  | again {stream rest : List Recv} {log : List LogLine} {events : List KnockEvent}
      (h : snifferNextKnock cfg gIfindex stream = some (.again, log, rest))
      (hrest : Reports cfg gIfindex rest events) : Reports cfg gIfindex stream events
  | error {stream rest : List Recv} {log : List LogLine}
      (h : snifferNextKnock cfg gIfindex stream = some (.error, log, rest)) :
      Reports cfg gIfindex stream []

/-- The knocks of the matching frames, in the order of the frames. -/
inductive KnocksOf (cfg : Config) (gIfindex : UInt32) : List Frame → List KnockEvent → Prop
  | nil : KnocksOf cfg gIfindex [] []
  | skip {frame : Frame} {frames : List Frame} {events : List KnockEvent}
      (h : ∀ event, ¬ Matches cfg gIfindex frame event)
      (hrest : KnocksOf cfg gIfindex frames events) : KnocksOf cfg gIfindex (frame :: frames) events
  | knock {frame : Frame} {frames : List Frame} {event : KnockEvent} {events : List KnockEvent}
      (h : Matches cfg gIfindex frame event) (hrest : KnocksOf cfg gIfindex frames events) :
      KnocksOf cfg gIfindex (frame :: frames) (event :: events)

section Streams

variable {stream stream' : List Recv} {event : KnockEvent} {protoName : String}
  {events : List KnockEvent}

/-- What is reported depends on how the next call returns. -/
theorem Reports.congr (h : Reports cfg gIfindex stream events)
    (hsame : snifferNextKnock cfg gIfindex stream = snifferNextKnock cfg gIfindex stream') :
    Reports cfg gIfindex stream' events := by
  cases h with
  | waiting hnext => exact .waiting (hsame ▸ hnext)
  | knock hnext hrest => exact .knock (hsame ▸ hnext) hrest
  | again hnext hrest => exact .again (hsame ▸ hnext) hrest
  | error hnext => exact .error (hsame ▸ hnext)

/-- A frame that is skipped might as well not have come. -/
theorem reports_skip (h : sniffFrame cfg gIfindex frame = .ok none) :
    Reports cfg gIfindex (.frame frame :: stream) events ↔ Reports cfg gIfindex stream events := by
  have hnext : snifferNextKnock cfg gIfindex (.frame frame :: stream) =
      snifferNextKnock cfg gIfindex stream := by
    simp [snifferNextKnock, snifferTurn, knockOf, h]
  exact ⟨fun hr => hr.congr hnext, fun hr => hr.congr hnext.symm⟩

/-- A frame that is a knock is reported first. -/
theorem reports_knock (h : sniffFrame cfg gIfindex frame = .ok (some (event, protoName))) :
    Reports cfg gIfindex (.frame frame :: stream) events ↔
      ∃ later, events = event :: later ∧ Reports cfg gIfindex stream later := by
  obtain ⟨log, hnext⟩ : ∃ log, snifferNextKnock cfg gIfindex (.frame frame :: stream) =
      some (.ok event, log, stream) := by
    simp [snifferNextKnock, snifferTurn, knockOf, h]
  constructor
  · intro hr
    cases hr with
    | waiting hother =>
      rw [hnext] at hother
      cases hother
    | knock hother hrest =>
      rw [hnext] at hother
      cases hother
      exact ⟨_, rfl, hrest⟩
    | again hother =>
      rw [hnext] at hother
      cases hother
    | error hother =>
      rw [hnext] at hother
      cases hother
  · rintro ⟨later, rfl, hrest⟩
    exact .knock hnext hrest

/-- A frame knocks with one event at most. -/
theorem Matches.unique {event' : KnockEvent} (h : Matches cfg gIfindex frame event)
    (h' : Matches cfg gIfindex frame event') : event' = event := by
  obtain ⟨protoName, hreport⟩ := sniffFrame_iff.mpr h
  obtain ⟨protoName', hreport'⟩ := sniffFrame_iff.mpr h'
  rw [hreport] at hreport'
  cases hreport'
  rfl

/-- On a stream of frames the knocks reported are those of the matching frames. -/
theorem reports_iff (frames : List Frame) :
    Reports cfg gIfindex (frames.map .frame) events ↔ KnocksOf cfg gIfindex frames events := by
  induction frames generalizing events with
  | nil =>
    constructor
    · intro hr
      cases hr with
      | waiting => exact .nil
      | knock hnext => cases hnext
      | again hnext => cases hnext
      | error => exact .nil
    · rintro ⟨⟩
      exact .waiting rfl
  | cons frame frames ih =>
    rw [List.map_cons]
    rcases sniffFrame_cases cfg gIfindex frame with ⟨hheard, p, hbytes, hport⟩ | hskip
    · have hmatch : Matches cfg gIfindex frame p.event := ⟨hheard, p, hbytes, rfl, hport⟩
      rw [reports_knock (sniffFrame_packet hheard hbytes hport)]
      constructor
      · rintro ⟨later, rfl, hrest⟩
        exact .knock hmatch (ih.mp hrest)
      · intro hk
        cases hk with
        | skip hnot => exact absurd hmatch (hnot _)
        | knock hother hrest =>
          rw [hmatch.unique hother]
          exact ⟨_, rfl, ih.mpr hrest⟩
    · have hnot : ∀ event, ¬ Matches cfg gIfindex frame event := by
        intro event hmatch
        obtain ⟨protoName, hreport⟩ := sniffFrame_iff.mpr hmatch
        rw [hskip] at hreport
        cases hreport
      rw [reports_skip hskip]
      constructor
      · intro hr
        exact .skip hnot (ih.mp hr)
      · intro hk
        cases hk with
        | skip _ hrest => exact ih.mpr hrest
        | knock hmatch => exact absurd hmatch (hnot _)

end Streams

/-- **The parser is exact and stays in bounds.** Whatever the frame, every byte it reads is
one that was received. It reports a source and a port exactly for a frame that is not
outgoing, came in on an interface we listen to and holds a packet from that source to that
port, one of ours; every such packet is reported, with its own source and port. And on any
stream of frames the knocks reported are those of the matching frames, in order. -/
theorem sniffer_exact (cfg : Config) (gIfindex : UInt32) :
    (∀ frame, ∃ knock, sniffFrame cfg gIfindex frame = .ok knock) ∧
    (∀ frame src dport,
      (∃ protoName, sniffFrame cfg gIfindex frame = .ok (some (⟨src, dport⟩, protoName))) ↔
        Matches cfg gIfindex frame ⟨src, dport⟩) ∧
    (∀ (frame : Frame) (p : Packet frame.hatype), Heard gIfindex frame → frame.bytes = p.bytes →
      p.segment.dest ∈ cfg.sequence →
      sniffFrame cfg gIfindex frame =
        .ok (some (⟨p.ip.saddr, p.segment.dest⟩, p.segment.protoName))) ∧
    (∀ frames events,
      Reports cfg gIfindex (frames.map .frame) events ↔ KnocksOf cfg gIfindex frames events) := by
  refine ⟨fun frame => ?_, fun frame src dport => sniffFrame_iff,
    fun frame p hheard hbytes hport => sniffFrame_packet hheard hbytes hport,
    fun frames events => reports_iff frames⟩
  rcases sniffFrame_cases cfg gIfindex frame with ⟨hheard, p, hbytes, hport⟩ | hskip
  · exact ⟨_, sniffFrame_packet hheard hbytes hport⟩
  · exact ⟨none, hskip⟩

end Knockd
