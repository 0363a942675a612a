import Rudp.Options
import Rudp.Write
import Rudp.Effects

/-!
# Headers in memory

The header of a segment lies in memory in network order. Three functions of `tcp_out.c` build one,
and macros set bits in it. `o` is the byte order of the host that sends.

Results:
* `Laid.prefilled`: what the builders and the macros leave in memory is the header of the segment.
* `Emits.wired`: what is sent is the packet, whatever function has built it.
* `wire_round_trip`: what `tcp_input` parses on the other side is what was emitted, exactly when the
  options end in the second pbuf.
-/

namespace Rudp

open Octets (Order)

variable (o : Order)

/-! ## The macros -/

/-- `TCPH_HDRLEN_FLAGS_SET(phdr, len, flags)`. -/
def tcphHdrlenFlagsSet (h : TcpHdrMem) (len flags : ℕ) : TcpHdrMem :=
  { h with hdrlenRsvdFlags := htons o ((len <<< 12) ||| flags) }

/-- `TCPH_SET_FLAG(phdr, flags)`. -/
def tcphSetFlag (h : TcpHdrMem) (flags : ℕ) : TcpHdrMem :=
  { h with hdrlenRsvdFlags := h.hdrlenRsvdFlags ||| htons o flags }

/-- `TCPH_FLAGS_SET(phdr, flags)`; `~TCP_FLAGS` is an `unsigned`. -/
def tcphFlagsSet (h : TcpHdrMem) (flags : ℕ) : TcpHdrMem :=
  { h with hdrlenRsvdFlags :=
      (h.hdrlenRsvdFlags &&& ppHtons o (0xffffffff - TCP_FLAGS)) ||| htons o flags }

/-! ## The builders -/

/-- A segment in memory: the header, the bytes of its options, and the data behind. -/
structure SegMem where
  tcphdr : TcpHdrMem
  opts : List Byte
  p : List Pbuf

/-- The bytes that `ip_output_if` is handed. -/
def SegMem.octets (m : SegMem) : List Byte := m.tcphdr.octets o ++ (m.opts ++ bytes m.p)

/-- The header that `tcp_create_segment` prefills (tcp_out.c:197-205). `junk` and `opts` are what lies
    in the new pbuf. -/
def SegMem.create (junk : TcpHdrMem) (opts : List Byte) (connId : ConnectId) (p : List Pbuf)
    (flags : TcpFlags) (seqno : U32) (optlen : ℕ) : SegMem where
  tcphdr := tcphHdrlenFlagsSet o { junk with
    connid1 := htonl o connId.connid1
    connid2 := htonl o connId.connid2
    seqno := htonl o seqno } (5 + optlen / 4) flags.bits
  opts := opts
  p := p

/-- `TCPH_SET_FLAG(seg->tcphdr, flags)`. -/
def SegMem.setFlag (m : SegMem) (flags : ℕ) : SegMem := { m with tcphdr := tcphSetFlag o m.tcphdr flags }

/-- `TCP_BUILD_MSS_OPTION(mss)`. -/
def tcpBuildMssOption (mss : ℕ) : U32 := htonl o (u32 (0x02040000 ||| (mss &&& 0xFFFF)))

/-- What `tcp_output_segment` writes into the segment (tcp_out.c:1118-1147). -/
def SegMem.output (pcb : Pcb) (optsMss : Bool) (m : SegMem) : SegMem :=
  { m with
    tcphdr.ackno := htonl o pcb.rcvNxt
    tcphdr.wnd := htons o pcb.rcvAnnWnd
    opts :=
      if optsMss then o.store 4 (tcpBuildMssOption o TCP_MSS).toNat ++ m.opts.drop 4 else m.opts }

/-- `tcp_output_alloc_header` (tcp_out.c:106-128) without options. -/
def allocHeader (junk : TcpHdrMem) (pcb : Pcb) (seqnoBe : U32) : TcpHdrMem :=
  { tcphHdrlenFlagsSet o { junk with
      connid1 := htonl o pcb.connId.connid1
      connid2 := htonl o pcb.connId.connid2
      seqno := seqnoBe
      ackno := htonl o pcb.rcvNxt } 5 ({ ack := true } : TcpFlags).bits with
    wnd := htons o pcb.rcvAnnWnd }

/-- The header of `tcp_rst` (tcp_out.c:1231-1242). -/
def rstHeader (junk : TcpHdrMem) (seqno ackno : U32) (connId : ConnectId) : TcpHdrMem :=
  { tcphHdrlenFlagsSet o { junk with
      connid1 := htonl o connId.connid1
      connid2 := htonl o connId.connid2
      seqno := htonl o seqno
      ackno := htonl o ackno } (TCP_HLEN / 4) ({ rst := true, ack := true } : TcpFlags).bits with
    wnd := ppHtons o TCP_WND }

/-- `m` is what the code can have in memory for the segment `seg`: it was created, flags were set,
    data was added, and it was transmitted any number of times, from any pcb. -/
inductive Laid : SegMem → TcpSeg → Prop
  | create (junk : TcpHdrMem) (opts : List Byte) (pcb : Pcb) (p : List Pbuf) (flags : TcpFlags)
      (seqno : U32) (optsMss : Bool) : opts.length = (pcb.newSeg p flags seqno optsMss).optlen →
      Laid (.create o junk opts pcb.connId p flags seqno (pcb.newSeg p flags seqno optsMss).optlen)
        (pcb.newSeg p flags seqno optsMss)
  | data {m : SegMem} {seg : TcpSeg} (p : List Pbuf) (len oversizeLeft : ℕ) : Laid m seg →
      Laid { m with p := p } { seg with p := p, len := len, oversizeLeft := oversizeLeft }
  | psh {m : SegMem} {seg : TcpSeg} : Laid m seg → Laid (m.setFlag o 0x08) seg.setPsh
  | fin {m : SegMem} {seg : TcpSeg} : Laid m seg → Laid (m.setFlag o 0x01) seg.setFin
  | prepare {m : SegMem} {seg : TcpSeg} (pcb : Pcb) : Laid m seg →
      Laid (if pcb.state ≠ .SYN_SENT then m.setFlag o 0x10 else m) (seg.prepare pcb)
  | output {m : SegMem} {seg : TcpSeg} (pcb : Pcb) : pcb.rcvAnnWnd < 65536 → Laid m seg →
      Laid (m.output o pcb seg.optsMss) (seg.stamp pcb)

/-- `w` is what a host sends for the packet. -/
inductive Emits : List Byte → Packet → Prop
  | segment {m : SegMem} {seg : TcpSeg} (pcb : Pcb) : pcb.rcvAnnWnd < 65536 → Laid o m seg →
      Emits ((m.output o pcb seg.optsMss).octets o) (seg.stamp pcb).packet
  /-- An empty ACK, with `snd_nxt`, or a keepalive probe, with `snd_nxt - 1`. -/
  | header (junk : TcpHdrMem) (pcb : Pcb) (seqno : U32) : pcb.rcvAnnWnd < 65536 →
      Emits ((allocHeader o junk pcb (htonl o seqno)).octets o)
        { tcphdr := pcb.ackHdr seqno, p := [{ payload := [] }] }
  /-- A zero-window probe, which takes the sequence number from the header in memory. -/
  | probe {m : SegMem} {seg : TcpSeg} (junk : TcpHdrMem) (pcb : Pcb) : pcb.rcvAnnWnd < 65536 →
      Laid o m seg →
      Emits (if seg.tcphdr.flags.fin && decide (seg.len = 0) then
          (tcphFlagsSet o (allocHeader o junk pcb m.tcphdr.seqno)
            ({ ack := true, fin := true } : TcpFlags).bits).octets o
        else (allocHeader o junk pcb m.tcphdr.seqno).octets o ++ [(bytes m.p).headD 0])
        (pcb.probePacket seg)
  | rst (junk : TcpHdrMem) (seqno ackno : U32) (connId : ConnectId) :
      Emits ((rstHeader o junk seqno ackno connId).octets o)
        { tcphdr := { connid1 := connId.connid1, connid2 := connId.connid2, seqno := seqno,
                      ackno := ackno, hdrlen := 5, flags := { rst := true, ack := true },
                      wnd := TCP_WND },
          p := [{ payload := [] }] }

/-! ## What is in memory -/

/-- The word of a header with its length and flags, in host order. -/
def TcpHdr.word (h : TcpHdr) : ℕ := (h.hdrlen <<< 12) ||| h.flags.bits

theorem TcpFlags.bits_lt (f : TcpFlags) : f.bits < 2 ^ 6 := by
  obtain ⟨a, b, c, d, e⟩ := f
  cases a <;> cases b <;> cases c <;> cases d <;> cases e <;> decide

theorem TcpHdr.word_lt {h : TcpHdr} (hl : h.hdrlen < 16) : h.word < 65536 := by
  have h1 : h.hdrlen <<< 12 < 2 ^ 16 := by
    rw [Nat.shiftLeft_eq]
    omega
  exact Nat.or_lt_two_pow h1 (h.flags.bits_lt.trans (by decide))

/-- The length and the flags are read back. -/
theorem TcpHdr.word_hdrlen (h : TcpHdr) : h.word >>> 12 = h.hdrlen := by
  have hb := h.flags.bits_lt
  unfold TcpHdr.word
  rw [Nat.shiftRight_or_distrib, Nat.shiftLeft_shiftRight, Nat.shiftRight_eq_div_pow,
    Nat.div_eq_of_lt (hb.trans (by decide)), Nat.or_zero]

theorem TcpHdr.word_flags (h : TcpHdr) : h.word &&& TCP_FLAGS = h.flags.bits := by
  have hb := h.flags.bits_lt
  have e : TCP_FLAGS = 2 ^ 6 - 1 := rfl
  unfold TcpHdr.word
  rw [e, Nat.and_two_pow_sub_one_eq_mod, Nat.or_mod_two_pow, Nat.shiftLeft_eq,
    Nat.mod_eq_of_lt hb]
  have hz : h.hdrlen * 2 ^ 12 % 2 ^ 6 = 0 := by omega
  rw [hz, Nat.zero_or]

theorem TcpFlags.bits_set (f : TcpFlags) : f.bits ||| 0x08 = ({ f with psh := true }).bits ∧
    f.bits ||| 0x01 = ({ f with fin := true }).bits ∧
    f.bits ||| 0x10 = ({ f with ack := true }).bits := by
  obtain ⟨a, b, c, d, e⟩ := f
  cases a <;> cases b <;> cases c <;> cases d <;> cases e <;> decide

/-- `m` holds the header of `seg`, but for the acknowledgment and the window. -/
structure Prefilled (m : SegMem) (seg : TcpSeg) : Prop where
  connid1 : m.tcphdr.connid1 = htonl o seg.tcphdr.connid1
  connid2 : m.tcphdr.connid2 = htonl o seg.tcphdr.connid2
  seqno : m.tcphdr.seqno = htonl o seg.tcphdr.seqno
  word : m.tcphdr.hdrlenRsvdFlags = htons o seg.tcphdr.word
  hdrlen : seg.tcphdr.hdrlen = 5 + seg.optlen / 4
  opts : m.opts.length = seg.optlen
  p : m.p = seg.p

variable {o}

/-- A flag is set. -/
theorem Prefilled.setFlag {m : SegMem} {seg : TcpSeg} (h : Prefilled o m seg) {n : ℕ} {f : TcpFlags}
    (hf : seg.tcphdr.flags.bits ||| n = f.bits) :
    Prefilled o (m.setFlag o n) { seg with tcphdr.flags := f } := by
  refine ⟨h.connid1, h.connid2, h.seqno, ?_, h.hdrlen, h.opts, h.p⟩
  show m.tcphdr.hdrlenRsvdFlags ||| htons o n = htons o ((seg.tcphdr.hdrlen <<< 12) ||| f.bits)
  rw [h.word, ← hf, ← Nat.or_assoc]
  exact (o.hton_or 2 _ _).symm

/-- What the builder and the macros leave in memory is the header of the segment. -/
theorem Laid.prefilled {m : SegMem} {seg : TcpSeg} (h : Laid o m seg) : Prefilled o m seg := by
  induction h with
  | create junk opts pcb p flags seqno optsMss hl =>
    have hd : (pcb.newSeg p flags seqno optsMss).tcphdr.hdrlen =
        5 + (pcb.newSeg p flags seqno optsMss).optlen / 4 := by
      cases optsMss <;> simp [Pcb.newSeg, TcpSeg.optlen]
    refine ⟨rfl, rfl, rfl, ?_, hd, hl, rfl⟩
    show htons o (((5 + _ / 4) <<< 12) ||| flags.bits) = _
    rw [← hd]
    rfl
  | data p len oversizeLeft _ ih =>
    exact ⟨ih.connid1, ih.connid2, ih.seqno, ih.word, ih.hdrlen, ih.opts, rfl⟩
  | psh _ ih => exact ih.setFlag (TcpFlags.bits_set _).1
  | fin _ ih => exact ih.setFlag (TcpFlags.bits_set _).2.1
  | @prepare m seg pcb _ ih =>
    by_cases hst : pcb.state ≠ .SYN_SENT
    · have hf := (TcpFlags.bits_set seg.tcphdr.flags).2.2
      rw [if_pos hst]
      have h := ih.setFlag hf
      have e : (seg.tcphdr.flags.ack || decide (pcb.state ≠ .SYN_SENT)) = true := by simp [hst]
      unfold TcpSeg.prepare
      rw [e]
      exact ⟨h.connid1, h.connid2, h.seqno, h.word, h.hdrlen, h.opts, h.p⟩
    · have e : (seg.tcphdr.flags.ack || decide (pcb.state ≠ .SYN_SENT)) = seg.tcphdr.flags.ack := by
        simp [not_not.mp hst]
      rw [if_neg hst]
      unfold TcpSeg.prepare
      rw [e]
      exact ⟨ih.connid1, ih.connid2, ih.seqno, ih.word, ih.hdrlen, ih.opts, ih.p⟩
  | @output m seg pcb _ _ ih =>
    refine ⟨ih.connid1, ih.connid2, ih.seqno, ih.word, ih.hdrlen, ?_, ih.p⟩
    have hl := ih.opts
    show (if seg.optsMss then _ else m.opts).length = seg.optlen
    unfold TcpSeg.optlen at hl ⊢
    split
    · next hm =>
      rw [if_pos hm] at hl
      rw [List.length_append, List.length_drop, Order.length_store, hl]
    · next hm =>
      rw [if_neg hm] at hl
      exact hl

/-! ## On the wire -/

/-- The header as it is on the wire. -/
def TcpHdr.octets (h : TcpHdr) : List Byte :=
  Order.big.store 4 h.connid1.toNat ++ (Order.big.store 4 h.connid2.toNat ++
    (Order.big.store 4 h.seqno.toNat ++ (Order.big.store 4 h.ackno.toNat ++
      (Order.big.store 2 h.word ++ Order.big.store 2 h.wnd))))

/-- A packet as it is on the wire. -/
def Packet.octets (packet : Packet) : List Byte :=
  packet.tcphdr.octets ++ (packet.options ++ bytes packet.p)

theorem store_htonl (x : U32) : o.store 4 (htonl o x).toNat = Order.big.store 4 x.toNat := by
  have hlt : o.hton 4 x.toNat < 2 ^ 32 := o.hton_lt 4 x.toNat
  unfold htonl
  rw [BitVec.toNat_ofNat, Nat.mod_eq_of_lt hlt, o.store_hton]

/-- A header in network order lies in memory as on the wire. -/
theorem octets_hton (h : TcpHdr) : (⟨htonl o h.connid1, htonl o h.connid2, htonl o h.seqno,
    htonl o h.ackno, htons o h.word, htons o h.wnd⟩ : TcpHdrMem).octets o = h.octets := by
  unfold TcpHdrMem.octets TcpHdr.octets
  simp only [store_htonl, htons, o.store_hton]

theorem allocHeader_eq (junk : TcpHdrMem) (pcb : Pcb) (seqno : U32) :
    allocHeader o junk pcb (htonl o seqno) = ⟨htonl o pcb.connId.connid1, htonl o pcb.connId.connid2,
      htonl o seqno, htonl o pcb.rcvNxt, htons o (pcb.ackHdr seqno).word, htons o pcb.rcvAnnWnd⟩ := rfl

theorem octets_mssOption : o.store 4 (tcpBuildMssOption o TCP_MSS).toNat = mssOption := by
  unfold tcpBuildMssOption
  rw [store_htonl]
  rfl

/-- What is sent is the packet, whatever function has built it. -/
structure Wired (w : List Byte) (packet : Packet) : Prop where
  octets : w = packet.octets
  wnd : packet.tcphdr.wnd < 65536
  hdrlen : packet.tcphdr.hdrlen = 5 + packet.options.length / 4
  options : packet.options = [] ∨ packet.options = mssOption

theorem Emits.wired {w : List Byte} {packet : Packet} (h : Emits o w packet) : Wired w packet := by
  have hhdr (junk : TcpHdrMem) (pcb : Pcb) (seqno : U32) :
      (allocHeader o junk pcb (htonl o seqno)).octets o = (pcb.ackHdr seqno).octets := by
    rw [allocHeader_eq]
    exact octets_hton (pcb.ackHdr seqno)
  cases h with
  | @segment m seg pcb hw hm =>
    have h := hm.prefilled
    have hopts : (m.output o pcb seg.optsMss).opts = (seg.stamp pcb).packet.options := by
      have hl := h.opts
      unfold TcpSeg.optlen at hl
      show (if seg.optsMss then o.store 4 _ ++ m.opts.drop 4 else m.opts) =
        if seg.optsMss then mssOption else []
      split
      · next hmss =>
        rw [if_pos hmss] at hl
        rw [octets_mssOption, List.drop_of_length_le hl.le, List.append_nil]
      · next hmss =>
        rw [if_neg hmss] at hl
        exact List.length_eq_zero_iff.mp hl
    refine ⟨?_, hw, ?_, ?_⟩
    · have hhead : (m.output o pcb seg.optsMss).tcphdr.octets o = (seg.stamp pcb).tcphdr.octets := by
        rw [← octets_hton (o := o) (seg.stamp pcb).tcphdr]
        show (⟨m.tcphdr.connid1, m.tcphdr.connid2, m.tcphdr.seqno, _, m.tcphdr.hdrlenRsvdFlags, _⟩ :
          TcpHdrMem).octets o = _
        rw [h.connid1, h.connid2, h.seqno, h.word]
        rfl
      have hp : (m.output o pcb seg.optsMss).p = seg.p := h.p
      unfold SegMem.octets Packet.octets
      rw [hhead, hopts, hp]
      rfl
    · show seg.tcphdr.hdrlen = 5 + (if seg.optsMss then mssOption else []).length / 4
      rw [h.hdrlen]
      unfold TcpSeg.optlen
      split <;> rfl
    · show (if seg.optsMss then mssOption else []) = [] ∨ (if seg.optsMss then mssOption else []) = _
      split
      · exact .inr rfl
      · exact .inl rfl
  | header junk pcb seqno hw =>
    refine ⟨?_, hw, by simp [Pcb.ackHdr], .inl rfl⟩
    rw [hhdr]
    exact (List.append_nil _).symm
  | @probe m seg junk pcb hw hm =>
    have h := hm.prefilled
    unfold Pcb.probePacket
    rw [h.seqno]
    split
    · refine ⟨?_, hw, by simp [Pcb.ackHdr], .inl rfl⟩
      have hword : (htons o (pcb.ackHdr seg.tcphdr.seqno).word &&& ppHtons o (0xffffffff - TCP_FLAGS)) |||
          htons o ({ ack := true, fin := true } : TcpFlags).bits =
          htons o ({ pcb.ackHdr seg.tcphdr.seqno with flags := { ack := true, fin := true } } :
            TcpHdr).word := by
        have h1 : (pcb.ackHdr seg.tcphdr.seqno).word = 20496 := by
          simp [TcpHdr.word, TcpFlags.bits, Pcb.ackHdr]
        have h2 : ({ pcb.ackHdr seg.tcphdr.seqno with flags := { ack := true, fin := true } } :
            TcpHdr).word = 20497 := by
          simp [TcpHdr.word, TcpFlags.bits, Pcb.ackHdr]
        rw [h1, h2]
        cases o <;> decide
      rw [allocHeader_eq]
      unfold tcphFlagsSet
      rw [hword]
      refine (octets_hton (o := o) { pcb.ackHdr seg.tcphdr.seqno with
        flags := { ack := true, fin := true } }).trans ?_
      exact (List.append_nil _).symm
    · refine ⟨?_, hw, by simp [Pcb.ackHdr], .inl rfl⟩
      rw [hhdr, h.p]
      rfl
  | rst junk seqno ackno connId =>
    have hlt : TCP_WND < 65536 := by decide
    refine ⟨?_, hlt, by simp, .inl rfl⟩
    have hwnd : ppHtons o TCP_WND = htons o TCP_WND := by cases o <;> rfl
    unfold rstHeader
    rw [hwnd]
    refine (octets_hton (o := o) (TcpHdr.mk connId.connid1 connId.connid2 seqno ackno 5
      { rst := true, ack := true } TCP_WND)).trans ?_
    exact (List.append_nil _).symm

/-! ## The round trip -/

/-- `d` is what was sent. -/
structure Recovers (d : Parsed) (packet : Packet) : Prop where
  connid1 : d.tcphdr.connid1 = packet.tcphdr.connid1
  connid2 : d.tcphdr.connid2 = packet.tcphdr.connid2
  seqno : d.tcphdr.seqno = packet.tcphdr.seqno
  ackno : d.tcphdr.ackno = packet.tcphdr.ackno
  wnd : d.tcphdr.wnd = packet.tcphdr.wnd
  flags : d.flags = packet.tcphdr.flags.bits
  payload : d.p.flatMap Buf.payload = bytes packet.p
  mss (behind : ℕ → Byte) (mss : ℕ) : (d.parseopt behind mss).map OptWalk.mss =
    some (if packet.options = [] then mss else TCP_MSS)

@[simp] theorem TcpHdr.length_octets (h : TcpHdr) : h.octets.length = 20 := by
  simp [TcpHdr.octets]

/-- A header that was sent, as the host that receives it finds it. -/
theorem ofOctets_hdr (h : TcpHdr) (l : List Byte) : TcpHdrMem.ofOctets o (h.octets ++ l) =
    ⟨htonl o h.connid1, htonl o h.connid2, htonl o h.seqno, htonl o h.ackno, htons o h.word,
      htons o h.wnd⟩ := by
  have hd {k m : ℕ} (n : ℕ) (hkm : k ≤ m) : (Order.big.store k n).drop m = [] :=
    List.drop_of_length_le (by rw [Order.length_store]; exact hkm)
  have ht (k n : ℕ) : (Order.big.store k n).take k = Order.big.store k n :=
    List.take_of_length_le (by rw [Order.length_store])
  rw [ofOctets_append (by simp)]
  unfold TcpHdrMem.ofOctets TcpHdr.octets
  simp only [List.drop_append, List.take_append, Order.length_store]
  simp [hd, ht]
  exact ⟨rfl, rfl, rfl, rfl, rfl, rfl⟩

/-- The options of a packet, parsed. -/
theorem splits_options {packet : Packet} {w : List Byte} (h : Wired w packet) :
    Splits packet.options (if packet.options = [] then [] else [.mss 2 24]) [] := by
  rcases h.options with ho | ho
  · rw [ho]
    exact ⟨rfl, .done⟩
  · rw [ho]
    exact ⟨rfl, .done⟩

/-- A packet on the wire has the header length of its header. -/
theorem Wired.headerLen {w : List Byte} {packet : Packet} (h : Wired w packet) :
    headerLen o w = TCP_HLEN + packet.options.length ∧
      optionArea o w = packet.options ∧ w.drop (headerLen o w) = bytes packet.p := by
  have h20 : TCP_HLEN = 20 := rfl
  have hopt : packet.options.length = packet.options.length / 4 * 4 ∧
      packet.options.length ≤ 4 := by
    rcases h.options with ho | ho <;> rw [ho] <;> decide
  have hw : w = packet.tcphdr.octets ++ (packet.options ++ bytes packet.p) := h.octets
  have hlt : packet.tcphdr.word < 65536 := TcpHdr.word_lt (by rw [h.hdrlen]; omega)
  have hlen : Rudp.headerLen o w = TCP_HLEN + packet.options.length := by
    unfold Rudp.headerLen tcphHdrlen
    rw [hw, ofOctets_hdr]
    show htons o (htons o packet.tcphdr.word) >>> 12 * 4 = _
    rw [ntohs_htons o hlt, TcpHdr.word_hdrlen, h.hdrlen]
    omega
  have ht : packet.tcphdr.octets.length = TCP_HLEN := packet.tcphdr.length_octets
  refine ⟨hlen, ?_, ?_⟩
  · unfold optionArea
    rw [hlen, hw, ← ht, List.take_length_add_append, List.drop_left, List.take_left]
  · rw [hlen, hw, ← ht, List.drop_length_add_append, List.drop_left]

/-- What the reader holds is what was sent. -/
theorem Holds.recovers {w : List Byte} {packet : Packet} {d : Parsed} {q : List (List Byte)}
    (h : Wired w packet) (hq : q.flatten = w) (hd : tcpInputHeader o (chain q) = .ok (some d)) :
    Recovers d packet := by
  have hh : Holds o w d := hq ▸ (holds_of_ok hd).1
  obtain ⟨hlen, harea, hdata⟩ := h.headerLen (o := o)
  have hmem : TcpHdrMem.ofOctets o w = _ :=
    (congrArg (TcpHdrMem.ofOctets o) h.octets).trans (ofOctets_hdr packet.tcphdr _)
  have hopt : packet.options.length / 4 ≤ 1 := by
    rcases h.options with ho | ho <;> rw [ho] <;> decide
  have hlt : packet.tcphdr.word < 65536 := TcpHdr.word_lt (by rw [h.hdrlen]; omega)
  have htcp := hh.tcphdr
  rw [hmem] at htcp
  refine ⟨?_, ?_, ?_, ?_, ?_, ?_, ?_, fun behind mss => ?_⟩
  · rw [htcp]
    exact ntohl_htonl o _
  · rw [htcp]
    exact ntohl_htonl o _
  · rw [htcp]
    exact ntohl_htonl o _
  · rw [htcp]
    exact ntohl_htonl o _
  · rw [htcp]
    exact ntohs_htons o h.wnd
  · rw [hh.flags, hmem]
    show htons o (htons o packet.tcphdr.word) &&& TCP_FLAGS = _
    rw [ntohs_htons o hlt, TcpHdr.word_flags]
  · rw [hh.payload, drop_hostOrder_of_le (by omega), hdata]
  · have hs : Splits (optionArea o q.flatten) (if packet.options = [] then [] else [.mss 2 24]) [] := by
      rw [hq, harea]
      exact splits_options h
    obtain ⟨reads, hp, -⟩ := parseopt_eq hd hs behind mss
    have hmss : optionsMss [.mss 2 24] mss = TCP_MSS := by
      rw [optionsMss_cons, optionsMss_nil, TcpOption.value?, Option.map_some, Option.getD_some]
      decide
    rw [hp, Option.map_some]
    split
    · rfl
    · rw [hmss]

/-- Header and options end in the second pbuf. -/
def OptionsFit (hdrlen : ℕ) (q : List (List Byte)) : Prop :=
  hdrlen * 4 ≤ (q.headD []).length + (q.tail.headD []).length

/-- What one host sends, the other one parses, whatever their byte orders, exactly when the chain in
    which it arrives has the options in its first two pbufs. -/
theorem wire_round_trip (o o' : Order) {w : List Byte} {packet : Packet} (h : Emits o w packet)
    (q : List (List Byte)) (hq : q.flatten = w) (h20 : TCP_HLEN ≤ (q.headD []).length) :
    (∃ d, tcpInputHeader o' (chain q) = .ok (some d) ∧ Recovers d packet) ↔
      OptionsFit packet.tcphdr.hdrlen q := by
  have hw := h.wired
  obtain ⟨hlen, -, -⟩ := hw.headerLen (o := o')
  have hhl : TCP_HLEN = 20 := rfl
  have hopt : packet.options.length = packet.options.length / 4 * 4 := by
    rcases hw.options with ho | ho <;> rw [ho] <;> decide
  cases q with
  | nil =>
    rw [List.headD_nil, List.length_nil] at h20
    omega
  | cons b l =>
    have hbw : headerLen o' b = headerLen o' w := by
      rw [← hq]
      exact (headerLen_append h20 _).symm
    have hfit : OptionsFit packet.tcphdr.hdrlen (b :: l) ↔
        headerLen o' b ≤ b.length + (l.headD []).length := by
      unfold OptionsFit
      rw [hbw, hlen, hw.hdrlen, List.headD_cons, List.tail_cons]
      constructor <;> intro h <;> omega
    rw [List.headD_cons] at h20
    rw [hfit, ← tcpInputHeader_eq h20]
    constructor
    · rintro ⟨d, hd, -⟩
      exact ⟨d, hd⟩
    · rintro ⟨d, hd⟩
      exact ⟨d, hd, Holds.recovers hw hq hd⟩

/-- The header of a SYN in a new pbuf. -/
def rawSyn : SegMem :=
  .create .little ⟨0, 0, 0, 0, 0, 0⟩ [0, 0, 0, 0] client.pcb.connId [] { syn := true } 999 4

/-- A SYN of `client`, as it is sent. -/
def sentSyn : List Byte := (rawSyn.output .little client.pcb true).octets .little

theorem emits_syn : Emits .little sentSyn
    ((client.pcb.newSeg [] { syn := true } 999 true).stamp client.pcb).packet :=
  .segment client.pcb (by decide) (.create _ _ client.pcb [] _ _ true rfl)

/-- The SYN in two pbufs, the option divided between them. -/
theorem wire_round_trip_syn :
    (∃ d, tcpInputHeader .big (chain [sentSyn.take 22, sentSyn.drop 22]) = .ok (some d) ∧
      Recovers d ((client.pcb.newSeg [] { syn := true } 999 true).stamp client.pcb).packet) ↔
    OptionsFit 6 [sentSyn.take 22, sentSyn.drop 22] :=
  wire_round_trip .little .big emits_syn _ (by decide) (by decide)

/-- The SYN in three pbufs. -/
theorem syn_in_three_aborts :
    tcpInputHeader .little (chain [sentSyn.take 20, [2], [4, 2, 24]]) =
      .error (.assert "increment_magnitude <= p->len") ∧
    ¬ ∀ (o o' : Order) (w : List Byte) (packet : Packet), Emits o w packet →
      ∀ q : List (List Byte), q.flatten = w → TCP_HLEN ≤ (q.headD []).length →
        ∃ d, tcpInputHeader o' (chain q) = .ok (some d) ∧ Recovers d packet := by
  have hrun : tcpInputHeader .little (chain [sentSyn.take 20, [2], [4, 2, 24]]) =
      .error (.assert "increment_magnitude <= p->len") := rfl
  refine ⟨hrun, fun h => ?_⟩
  obtain ⟨d, hd, -⟩ := h .little .little _ _ emits_syn [sentSyn.take 20, [2], [4, 2, 24]]
    (by decide) (by decide)
  rw [hrun] at hd
  cases hd

end Rudp
