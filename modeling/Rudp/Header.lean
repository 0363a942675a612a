import Rudp.Lib.Octets
import Rudp.Tcp

/-!
# The header handling of `tcp_input`

A datagram arrives as a chain of pbufs. `tcp_input` takes the header from the first pbuf, hides it
and its options, and goes on with the data behind them (tcp_in.c:120-181). `o` is the byte order of
the host. The debug messages are on (lwipopts.h:59-60, `LWIP_DEBUG` in the Makefiles).

Results:
* `tcpInputHeader_eq`: what the code computes, for every chain.
* `tcpInput_header_iff`: it keeps the valid headers and drops the others exactly when
  `HeaderPlaced`.

Every `LWIP_ASSERT` and `LWIP_ERROR` aborts in this configuration, so a failed one is a `Fault`.
-/

namespace Rudp

open Octets (Order)

variable (o : Order)

/-! ## Byte order -/

/-- `htonl` and `ntohl`. -/
def htonl (x : U32) : U32 := BitVec.ofNat 32 (o.hton 4 x.toNat)

/-- `htons` and `ntohs`, on a `u16_t`. -/
def htons (x : ℕ) : ℕ := o.hton 2 x

/-- `PP_HTONS` (def.h:92, 116), which masks to 16 bits on a little-endian host only. -/
def ppHtons (x : ℕ) : ℕ :=
  match o with
  | .little => ((x &&& 0xff) <<< 8) ||| ((x &&& 0xff00) >>> 8)
  | .big => x

theorem ntohl_htonl (x : U32) : htonl o (htonl o x) = x := by
  apply BitVec.eq_of_toNat_eq
  have hlt : o.hton 4 x.toNat < 2 ^ 32 := o.hton_lt 4 x.toNat
  have hx : x.toNat % 256 ^ 4 = x.toNat := Nat.mod_eq_of_lt x.isLt
  unfold htonl
  rw [BitVec.toNat_ofNat, BitVec.toNat_ofNat, Nat.mod_eq_of_lt hlt, o.hton_hton, hx]
  exact Nat.mod_eq_of_lt x.isLt

theorem ntohs_htons {x : ℕ} (h : x < 65536) : htons o (htons o x) = x := by
  unfold htons
  rw [o.hton_hton]
  exact Nat.mod_eq_of_lt h

theorem htons_lt (x : ℕ) : htons o x < 65536 := o.hton_lt 2 x

/-! ## `struct tcp_hdr` -/

/-- The fields of `struct tcp_hdr` (tcp_impl.h:165-173) as they are in memory. -/
structure TcpHdrMem where
  connid1 : U32
  connid2 : U32
  seqno : U32
  ackno : U32
  hdrlenRsvdFlags : ℕ
  wnd : ℕ

/-- The 20 bytes of the structure. -/
def TcpHdrMem.octets (h : TcpHdrMem) : List Byte :=
  o.store 4 h.connid1.toNat ++ (o.store 4 h.connid2.toNat ++ (o.store 4 h.seqno.toNat ++
    (o.store 4 h.ackno.toNat ++ (o.store 2 h.hdrlenRsvdFlags ++ o.store 2 h.wnd))))

/-- The structure that a pointer to the bytes points to. -/
def TcpHdrMem.ofOctets (l : List Byte) : TcpHdrMem where
  connid1 := BitVec.ofNat 32 (o.load (l.take 4))
  connid2 := BitVec.ofNat 32 (o.load ((l.drop 4).take 4))
  seqno := BitVec.ofNat 32 (o.load ((l.drop 8).take 4))
  ackno := BitVec.ofNat 32 (o.load ((l.drop 12).take 4))
  hdrlenRsvdFlags := o.load ((l.drop 16).take 2)
  wnd := o.load ((l.drop 18).take 2)

/-- `TCP_FLAGS` (tcp_impl.h:118). -/
def TCP_FLAGS : ℕ := 0x3f

/-- `TCP_FIN` … `TCP_ACK` (tcp_impl.h:110-114), the flags of a header in one byte. -/
def TcpFlags.bits (f : TcpFlags) : ℕ :=
  (if f.fin then 0x01 else 0) ||| (if f.syn then 0x02 else 0) ||| (if f.rst then 0x04 else 0) |||
    (if f.psh then 0x08 else 0) ||| (if f.ack then 0x10 else 0)

/-- `TCPH_HDRLEN(phdr)`. -/
def tcphHdrlen (h : TcpHdrMem) : ℕ := htons o h.hdrlenRsvdFlags >>> 12

/-- `TCPH_FLAGS(phdr)`. -/
def tcphFlags (h : TcpHdrMem) : ℕ := htons o h.hdrlenRsvdFlags &&& TCP_FLAGS

/-! ## The reader -/

/-- `struct pbuf` of an arriving chain. -/
structure Buf where
  payload : List Byte
  totLen : ℕ

/-- A datagram in a chain of pbufs. -/
def chain : List (List Byte) → List Buf
  | [] => []
  | b :: l => { payload := b, totLen := u16 (b ++ l.flatten).length } :: chain l

/-- `pbuf_header(p, -n)`: the first bytes are hidden. -/
def pbufHeader (n : ℕ) (p : Buf) : Except Fault Buf :=
  if n = 0 then .ok p
  else do
    lwipAssert "increment_magnitude <= p->len" (n ≤ p.payload.length)
    .ok { payload := p.payload.drop n, totLen := u16 (p.totLen + 65536 - n) }

/-- What `tcp_input` has set up behind the header: `tcphdr` in host order, `flags`, `p`, and where
    the options are. -/
structure Parsed where
  tcphdr : TcpHdrMem
  hdrlen : ℕ
  flags : ℕ
  p : List Buf
  /-- The bytes behind `(u8_t *)tcphdr + TCP_HLEN`. -/
  opts : List Byte
  /-- `tcphdr_opt1len` -/
  opt1len : ℕ
  /-- `tcphdr_opt2` -/
  opt2 : Option (List Byte)

/-- TCP header fits into first pbuf, options don't (tcp_in.c:140-168): `tcphdr_opt1len`,
    `tcphdr_opt2` and the chain. -/
def tcpInputOptions (optlen : ℕ) (p : Buf) (next : List Buf) :
    Except Fault (ℕ × Option (List Byte) × List Buf) := do
  let p ← pbufHeader TCP_HLEN p
  lwipAssert "tcphdr_opt1len >= p->len" (optlen ≥ p.payload.length)
  match next with
  | [] => .error (.assert "p->next != NULL")
  | q :: rest =>
    let opt1len := p.payload.length
    if optlen > opt1len then do
      -- options continue in the next pbuf
      let p ← pbufHeader opt1len p
      let opt2len := optlen - opt1len
      let q' ← pbufHeader opt2len q
      lwipAssert "p->len == 0" (p.payload.length = 0)
      .ok (opt1len, some q.payload, { p with totLen := u16 (p.totLen + 65536 - opt2len) } :: q' :: rest)
    else do
      lwipAssert "p->len == 0" (p.payload.length = 0)
      .ok (opt1len, none, p :: q :: rest)

/-- Convert fields in TCP header to host byte order (tcp_in.c:173-178). -/
def TcpHdrMem.toHost (h : TcpHdrMem) : TcpHdrMem :=
  { h with
    connid1 := htonl o h.connid1
    connid2 := htonl o h.connid2
    seqno := htonl o h.seqno
    ackno := htonl o h.ackno
    wnd := htons o h.wnd }

/-- The first pbuf when the 20 bytes in front of what `n` bytes of were hidden are `h`: a payload that
    begins inside the header sees the converted fields. -/
def Buf.rewritten (h : TcpHdrMem) (n : ℕ) (p : Buf) : Buf :=
  { p with payload := (h.octets o).drop n ++ p.payload.drop (TCP_HLEN - n) }

/-- `tcp_debug_print` (tcp.c:1915-1941), which `TCP_INPUT_DEBUG` turns on, reads every field of the
    header. -/
def tcpDebugPrint (p : Buf) : Except Fault Unit :=
  if p.payload.length < TCP_HLEN then .error .outOfBounds else .ok ()

/-- The header handling of `tcp_input` (tcp_in.c:120-181); `none` when the packet is dropped. -/
def tcpInputHeader : List Buf → Except Fault (Option Parsed)
  | [] => .error .nullDeref
  | p :: next => do
    tcpDebugPrint p
    let tcphdr := TcpHdrMem.ofOctets o p.payload
    -- drop short packets
    if p.payload.length < TCP_HLEN then .ok none
    else do
      let hdrlen := tcphHdrlen o tcphdr
      let optlen := u16 (hdrlen * 4 + 65536 - TCP_HLEN)
      let (opt1len, opt2, chain) ←
        (if p.payload.length < hdrlen * 4 then tcpInputOptions optlen p next
        else do
          let p ← pbufHeader (hdrlen * 4) p
          .ok (optlen, none, p :: next))
      .ok (some {
        tcphdr := tcphdr.toHost o
        hdrlen := hdrlen
        flags := tcphFlags o tcphdr
        p := chain.modifyHead (Buf.rewritten o (tcphdr.toHost o) (hdrlen * 4))
        opts := p.payload.drop TCP_HLEN
        opt1len := opt1len
        opt2 := opt2 })

/-- `tcplen` (tcp_in.c:181). -/
def Parsed.tcplen (d : Parsed) : ℕ :=
  u16 ((d.p.head?.map Buf.totLen).getD 0 + if d.flags &&& 3 ≠ 0 then 1 else 0)

/-- What `tcp_input` does with a packet: at `dropped` it calls `pbuf_free` and leaves the pcbs as they
    are, or it demultiplexes and processes it. -/
inductive Handled (σ : Type)
  | freed (p : List Buf) (s : σ)
  | processed (s : σ)

/-- `tcp_input`; `next` is what follows the header handling. -/
def tcpInputDatagram {σ : Type} (next : Parsed → σ → Except Fault σ) (s : σ) (p : List Buf) :
    Except Fault (Handled σ) := do
  match ← tcpInputHeader o p with
  | none => .ok (.freed p s)
  | some d => .processed <$> next d s

/-- `tcp_getoptbyte` (tcp_in.c:1584-1593). `behind` is the memory behind the two places. -/
def tcpGetoptbyte (behind : ℕ → Byte) (d : Parsed) (idx : ℕ) : Byte :=
  match d.opt2 with
  | none => d.opts.getD idx (behind idx)
  | some opt2 =>
    if idx < d.opt1len then d.opts.getD idx (behind idx)
    else opt2.getD (u8 (idx - d.opt1len)) (behind idx)

/-! ## What the reader finds -/

/-- The header length of a datagram, in bytes. -/
def headerLen (w : List Byte) : ℕ := tcphHdrlen o (.ofOctets o w) * 4

theorem headerLen_le (w : List Byte) : headerLen o w ≤ 60 := by
  have h := htons_lt o (TcpHdrMem.ofOctets o w).hdrlenRsvdFlags
  unfold headerLen tcphHdrlen
  rw [Nat.shiftRight_eq_div_pow]
  omega

variable {o}

/-- The header is read from the first 20 bytes. -/
theorem ofOctets_append {b : List Byte} (hb : 20 ≤ b.length) (l : List Byte) :
    TcpHdrMem.ofOctets o (b ++ l) = .ofOctets o b := by
  have hf (n k : ℕ) (h : n + k ≤ 20) : ((b ++ l).drop n).take k = (b.drop n).take k := by
    rw [List.drop_append_of_le_length (by omega)]
    exact List.take_append_of_le_length (by rw [List.length_drop]; omega)
  have h0 : (b ++ l).take 4 = b.take 4 := hf 0 4 (by decide)
  unfold TcpHdrMem.ofOctets
  rw [h0, hf 4 4 (by decide), hf 8 4 (by decide), hf 12 4 (by decide), hf 16 2 (by decide),
    hf 18 2 (by decide)]

theorem headerLen_append {b : List Byte} (hb : 20 ≤ b.length) (l : List Byte) :
    headerLen o (b ++ l) = headerLen o b := by
  unfold headerLen
  rw [ofOctets_append hb]

theorem TcpHdrMem.length_octets (h : TcpHdrMem) : (h.octets o).length = TCP_HLEN := by
  unfold TcpHdrMem.octets
  simp only [List.length_append, Order.length_store]
  rfl

/-- The datagram in memory when the header is converted. -/
def hostOrder (o : Order) (w : List Byte) : List Byte :=
  ((TcpHdrMem.ofOctets o w).toHost o).octets o ++ w.drop TCP_HLEN

theorem length_hostOrder {w : List Byte} (hw : TCP_HLEN ≤ w.length) :
    (hostOrder o w).length = w.length := by
  unfold hostOrder
  rw [List.length_append, TcpHdrMem.length_octets, List.length_drop]
  omega

theorem hostOrder_append {b : List Byte} (hb : TCP_HLEN ≤ b.length) (l : List Byte) :
    hostOrder o (b ++ l) = hostOrder o b ++ l := by
  unfold hostOrder
  rw [ofOctets_append hb, List.drop_append_of_le_length hb, List.append_assoc]

/-- Hiding the header and converting it commute. -/
theorem drop_hostOrder (b : List Byte) (n : ℕ) : (hostOrder o b).drop n =
    (((TcpHdrMem.ofOctets o b).toHost o).octets o).drop n ++ (b.drop n).drop (TCP_HLEN - n) := by
  unfold hostOrder
  rw [List.drop_append, TcpHdrMem.length_octets, List.drop_drop, List.drop_drop]
  congr 2
  omega

/-- Behind the header nothing is converted. -/
theorem drop_hostOrder_of_le {w : List Byte} {n : ℕ} (hn : TCP_HLEN ≤ n) :
    (hostOrder o w).drop n = w.drop n := by
  rw [drop_hostOrder, Nat.sub_eq_zero_of_le hn, List.drop_zero,
    List.drop_of_length_le (by rw [TcpHdrMem.length_octets]; exact hn), List.nil_append]

theorem Buf.rewritten_of_le {h : TcpHdrMem} {n : ℕ} {p : Buf} (hn : TCP_HLEN ≤ n) :
    p.rewritten o h n = p := by
  unfold Buf.rewritten
  rw [List.drop_of_length_le (by rw [h.length_octets]; exact hn), Nat.sub_eq_zero_of_le hn]
  rfl

/-- `d` holds the datagram `w`. -/
structure Holds (o : Order) (w : List Byte) (d : Parsed) : Prop where
  tcphdr : d.tcphdr = (TcpHdrMem.ofOctets o w).toHost o
  hdrlen : d.hdrlen = tcphHdrlen o (.ofOctets o w)
  flags : d.flags = tcphFlags o (.ofOctets o w)
  payload : d.p.flatMap Buf.payload = (hostOrder o w).drop (headerLen o w)
  totLen : w.length < 65536 → d.p.head?.map Buf.totLen = some (w.length - headerLen o w)
  opts : ∀ behind i x, ((w.take (headerLen o w)).drop TCP_HLEN)[i]? = some x →
    tcpGetoptbyte behind d i = x

theorem pbufHeader_ok {n : ℕ} {p : Buf} (h : n ≤ p.payload.length) :
    ∃ p', pbufHeader n p = .ok p' ∧ p'.payload = p.payload.drop n ∧
      (n ≤ p.totLen → p.totLen < 65536 → p'.totLen = p.totLen - n) := by
  unfold pbufHeader lwipAssert
  by_cases h0 : n = 0
  · subst h0
    exact ⟨p, rfl, rfl, fun _ _ => rfl⟩
  · rw [if_neg h0, if_pos h]
    refine ⟨_, rfl, rfl, fun hn hlt => ?_⟩
    show u16 (p.totLen + 65536 - n) = _
    unfold u16
    omega

theorem pbufHeader_fault {n : ℕ} {p : Buf} (h : p.payload.length < n) :
    pbufHeader n p = .error (.assert "increment_magnitude <= p->len") := by
  unfold pbufHeader lwipAssert
  rw [if_neg (by omega), if_neg (by omega)]
  rfl

/-- The debug message reads behind a first pbuf that is too short for the header. -/
theorem tcpInputHeader_short {b : List Byte} {l : List (List Byte)} (hb : b.length < TCP_HLEN) :
    tcpInputHeader o (chain (b :: l)) = .error .outOfBounds := by
  show (if b.length < TCP_HLEN then _ else _) >>= _ = _
  rw [if_pos hb]
  rfl

/-- What follows the checks of the length of the first pbuf. -/
theorem tcpInputHeader_long {b : List Byte} {l : List (List Byte)} (hb : TCP_HLEN ≤ b.length) :
    tcpInputHeader o (chain (b :: l)) =
      (if b.length < headerLen o b then tcpInputOptions (u16 (headerLen o b + 65536 - TCP_HLEN))
          { payload := b, totLen := u16 (b ++ l.flatten).length } (chain l)
        else pbufHeader (headerLen o b) { payload := b, totLen := u16 (b ++ l.flatten).length } >>=
          fun p => .ok (u16 (headerLen o b + 65536 - TCP_HLEN), none, p :: chain l)) >>=
      fun x => .ok (some {
        tcphdr := (TcpHdrMem.ofOctets o b).toHost o
        hdrlen := tcphHdrlen o (.ofOctets o b)
        flags := tcphFlags o (.ofOctets o b)
        p := x.2.2.modifyHead (Buf.rewritten o ((TcpHdrMem.ofOctets o b).toHost o) (headerLen o b))
        opts := b.drop TCP_HLEN
        opt1len := x.1
        opt2 := x.2.1 }) := by
  show (if b.length < TCP_HLEN then _ else _) >>= _ = _
  rw [if_neg (by omega)]
  show (if b.length < TCP_HLEN then _ else _) = _
  rw [if_neg (by omega)]
  rfl

theorem chain_head_totLen (b : List Byte) (l : List (List Byte)) :
    (b ++ l.flatten).length < 65536 →
      u16 (b ++ l.flatten).length = (b ++ l.flatten).length := Nat.mod_eq_of_lt

theorem flatMap_chain (q : List (List Byte)) : (chain q).flatMap Buf.payload = q.flatten := by
  induction q with
  | nil => rfl
  | cons b l ih =>
    show b ++ (chain l).flatMap Buf.payload = b ++ l.flatten
    rw [ih]

/-- The header and its options are in the first pbuf. -/
theorem tcpInputHeader_first {b : List Byte} {l : List (List Byte)} (hb : TCP_HLEN ≤ b.length)
    (hh : headerLen o b ≤ b.length) :
    ∃ d, tcpInputHeader o (chain (b :: l)) = .ok (some d) ∧ Holds o (b :: l).flatten d := by
  obtain ⟨p, hp, hpay, htot⟩ := pbufHeader_ok
    (p := { payload := b, totLen := u16 (b ++ l.flatten).length }) hh
  have hof : TcpHdrMem.ofOctets o (b ++ l.flatten) = .ofOctets o b := ofOctets_append hb _
  have hlen : headerLen o (b ++ l.flatten) = headerLen o b := headerLen_append hb _
  refine ⟨{
    tcphdr := (TcpHdrMem.ofOctets o b).toHost o
    hdrlen := tcphHdrlen o (.ofOctets o b)
    flags := tcphFlags o (.ofOctets o b)
    p := p.rewritten o ((TcpHdrMem.ofOctets o b).toHost o) (headerLen o b) :: chain l
    opts := b.drop TCP_HLEN
    opt1len := u16 (headerLen o b + 65536 - TCP_HLEN)
    opt2 := none }, ?_, ?_⟩
  · rw [tcpInputHeader_long hb, if_neg (by omega), hp]
    rfl
  · refine ⟨by rw [List.flatten_cons, hof], by rw [List.flatten_cons, hof],
      by rw [List.flatten_cons, hof], ?_, ?_, ?_⟩
    · show ((TcpHdrMem.toHost o _).octets o).drop (headerLen o b) ++
        p.payload.drop (TCP_HLEN - headerLen o b) ++ (chain l).flatMap Buf.payload = _
      rw [hpay, flatMap_chain, List.flatten_cons, hlen, hostOrder_append hb,
        List.drop_append_of_le_length (by rw [length_hostOrder hb]; exact hh), drop_hostOrder]
    · intro hlt
      rw [List.flatten_cons] at hlt ⊢
      have hu := chain_head_totLen b l hlt
      have hle : headerLen o b ≤ (b ++ l.flatten).length := by
        rw [List.length_append]
        omega
      have ht : p.totLen = u16 (b ++ l.flatten).length - headerLen o b :=
        htot (by rwa [← hu] at hle) (by rwa [← hu] at hlt)
      show some p.totLen = _
      rw [hlen, ht, hu]
    · intro behind i x hi
      rw [List.flatten_cons, hlen, List.take_append_of_le_length hh] at hi
      show (b.drop TCP_HLEN).getD i (behind i) = x
      rw [List.getElem?_drop, List.getElem?_take] at hi
      split at hi
      · rw [List.getD_eq_getElem?_getD, List.getElem?_drop, hi]
        rfl
      · cases hi

/-- The options go on in the second pbuf. -/
theorem tcpInputOptions_eq (optlen : ℕ) {p : Buf} (q : Buf) (rest : List Buf)
    (hp : TCP_HLEN ≤ p.payload.length) (hlt : p.payload.length - TCP_HLEN < optlen) :
    ∃ n, (optlen + TCP_HLEN ≤ p.totLen → p.totLen < 65536 → n = p.totLen - TCP_HLEN - optlen) ∧
      tcpInputOptions optlen p (q :: rest) =
        pbufHeader (optlen - (p.payload.length - TCP_HLEN)) q >>= fun q' =>
          .ok (p.payload.length - TCP_HLEN, some q.payload,
            { payload := [], totLen := n } :: q' :: rest) := by
  obtain ⟨p₁, h₁, hpay₁, htot₁⟩ := pbufHeader_ok hp
  have hlen : p₁.payload.length = p.payload.length - TCP_HLEN := by rw [hpay₁, List.length_drop]
  obtain ⟨p₂, h₂, hpay₂, htot₂⟩ := pbufHeader_ok (p := p₁) (le_refl p₁.payload.length)
  have hnil : p₂.payload = [] := by rw [hpay₂, List.drop_length]
  have hge : optlen ≥ p₁.payload.length := by omega
  have hgt : optlen > p₁.payload.length := by omega
  refine ⟨u16 (p₂.totLen + 65536 - (optlen - p₁.payload.length)), fun hle hmax => ?_, ?_⟩
  · have ht₁ := htot₁ (by omega) hmax
    have ht₂ := htot₂ (by omega) (by omega)
    unfold u16
    omega
  · have ha {message : String} {P : Prop} [Decidable P] (hP : P) :
        lwipAssert message P = .ok () := if_pos hP
    have hzero : p₂.payload.length = 0 := by rw [hnil]; rfl
    unfold tcpInputOptions
    rw [h₁]
    show (lwipAssert _ _ >>= fun _ => _ : Except Fault (ℕ × Option (List Byte) × List Buf)) = _
    rw [ha hge]
    show (if optlen > p₁.payload.length then _ else _) = _
    rw [if_pos hgt, h₂, ← hlen]
    show (pbufHeader _ q >>= fun q' => lwipAssert _ _ >>= fun _ => _ :
      Except Fault (ℕ × Option (List Byte) × List Buf)) = _
    rw [ha hzero, hnil]
    rfl

/-- The options end in the second pbuf. -/
theorem tcpInputHeader_second {b c : List Byte} {l : List (List Byte)} (hb : TCP_HLEN ≤ b.length)
    (hlt : b.length < headerLen o b) (hle : headerLen o b ≤ b.length + c.length) :
    ∃ d, tcpInputHeader o (chain (b :: c :: l)) = .ok (some d) ∧
      Holds o (b :: c :: l).flatten d := by
  have h60 := headerLen_le o b
  have h20 : TCP_HLEN = 20 := rfl
  have hof : TcpHdrMem.ofOctets o (b ++ (c ++ l.flatten)) = .ofOctets o b := ofOctets_append hb _
  have hlen : headerLen o (b ++ (c ++ l.flatten)) = headerLen o b := headerLen_append hb _
  have hopt : u16 (headerLen o b + 65536 - TCP_HLEN) = headerLen o b - TCP_HLEN := by
    unfold u16
    omega
  have hsub : headerLen o b - TCP_HLEN - (b.length - TCP_HLEN) = headerLen o b - b.length := by
    omega
  have hfl : (b :: c :: l).flatten = b ++ (c ++ l.flatten) := rfl
  obtain ⟨n, hn, hopts⟩ := tcpInputOptions_eq (headerLen o b - TCP_HLEN)
    (p := { payload := b, totLen := u16 (b ++ (c :: l).flatten).length })
    { payload := c, totLen := u16 (c ++ l.flatten).length } (chain l) hb
    (by show b.length - TCP_HLEN < _; omega)
  obtain ⟨q, hq, hqpay, -⟩ := pbufHeader_ok (n := headerLen o b - b.length)
    (p := { payload := c, totLen := u16 (c ++ l.flatten).length }) (by show _ ≤ c.length; omega)
  refine ⟨{
    tcphdr := (TcpHdrMem.ofOctets o b).toHost o
    hdrlen := tcphHdrlen o (.ofOctets o b)
    flags := tcphFlags o (.ofOctets o b)
    p := { payload := [], totLen := n } :: q :: chain l
    opts := b.drop TCP_HLEN
    opt1len := b.length - TCP_HLEN
    opt2 := some c }, ?_, ?_⟩
  · rw [tcpInputHeader_long hb, if_pos hlt, hopt]
    show (tcpInputOptions _ _ (_ :: chain l)) >>= _ = _
    rw [hopts]
    show (pbufHeader (headerLen o b - TCP_HLEN - (b.length - TCP_HLEN)) _ >>= _) >>= _ = _
    rw [hsub, hq]
    show Except.ok (some (Parsed.mk _ _ _
      (Buf.rewritten o _ (headerLen o b) _ :: q :: chain l) _ _ _)) = _
    rw [Buf.rewritten_of_le (hb.trans hlt.le)]
  · rw [hfl]
    refine ⟨by rw [hof], by rw [hof], by rw [hof], ?_, fun hmax => ?_, fun behind i x hi => ?_⟩
    · show q.payload ++ (chain l).flatMap Buf.payload = _
      rw [hqpay, flatMap_chain, hlen, drop_hostOrder_of_le (hb.trans hlt.le), List.drop_append,
        List.drop_of_length_le hlt.le, List.drop_append_of_le_length (by omega), List.nil_append]
    · have hu : u16 (b ++ (c :: l).flatten).length = (b ++ (c ++ l.flatten)).length :=
        chain_head_totLen b (c :: l) hmax
      have hge : headerLen o b ≤ (b ++ (c ++ l.flatten)).length := by
        rw [List.length_append, List.length_append]
        omega
      have ht : n = u16 (b ++ (c :: l).flatten).length - TCP_HLEN - (headerLen o b - TCP_HLEN) :=
        hn (by show _ ≤ u16 _; rw [hu]; omega) (by show u16 _ < _; rw [hu]; exact hmax)
      show some n = _
      rw [hlen, ht, hu]
      exact congrArg some (by omega)
    · show (if i < b.length - TCP_HLEN then (b.drop TCP_HLEN).getD i (behind i)
        else c.getD (u8 (i - (b.length - TCP_HLEN))) (behind i)) = x
      rw [hlen, List.getElem?_drop, List.getElem?_take] at hi
      split at hi
      · next hi60 =>
        rw [List.getElem?_append] at hi
        split at hi
        · next hib =>
          rw [if_pos (by omega), List.getD_eq_getElem?_getD, List.getElem?_drop, hi]
          rfl
        · next hib =>
          have hu : u8 (i - (b.length - TCP_HLEN)) = TCP_HLEN + i - b.length := by
            unfold u8
            omega
          rw [List.getElem?_append_left (by omega)] at hi
          rw [if_neg (by omega), hu, List.getD_eq_getElem?_getD, hi]
          rfl
      · cases hi

/-- The options go on behind the second pbuf, or there is none. -/
theorem tcpInputHeader_fault {b : List Byte} {l : List (List Byte)} (hb : TCP_HLEN ≤ b.length)
    (hlt : b.length + (l.headD []).length < headerLen o b) :
    ∃ f, tcpInputHeader o (chain (b :: l)) = .error f := by
  have h60 := headerLen_le o b
  have h20 : TCP_HLEN = 20 := rfl
  have hopt : u16 (headerLen o b + 65536 - TCP_HLEN) = headerLen o b - TCP_HLEN := by
    unfold u16
    omega
  suffices h : ∃ f, tcpInputOptions (headerLen o b - TCP_HLEN)
      { payload := b, totLen := u16 (b ++ l.flatten).length } (chain l) = .error f by
    obtain ⟨f, hf⟩ := h
    refine ⟨f, ?_⟩
    rw [tcpInputHeader_long hb, if_pos (by omega), hopt, hf]
    rfl
  obtain ⟨p, hp, hpay, -⟩ := pbufHeader_ok
    (p := { payload := b, totLen := u16 (b ++ l.flatten).length }) hb
  cases l with
  | nil =>
    have hge : headerLen o b - TCP_HLEN ≥ p.payload.length := by
      rw [hpay, List.length_drop]
      show b.length - TCP_HLEN ≤ _
      omega
    refine ⟨.assert "p->next != NULL", ?_⟩
    unfold tcpInputOptions lwipAssert
    rw [hp]
    show ((if headerLen o b - TCP_HLEN ≥ p.payload.length then _ else _) >>= _ :
      Except Fault (ℕ × Option (List Byte) × List Buf)) = _
    rw [if_pos hge]
    rfl
  | cons c l =>
    rw [List.headD_cons] at hlt
    have hf := pbufHeader_fault (n := headerLen o b - TCP_HLEN - (b.length - TCP_HLEN))
      (p := { payload := c, totLen := u16 (c ++ l.flatten).length })
      (by show c.length < _; omega)
    obtain ⟨n, -, hopts⟩ := tcpInputOptions_eq (headerLen o b - TCP_HLEN)
      (p := { payload := b, totLen := u16 (b ++ (c :: l).flatten).length })
      { payload := c, totLen := u16 (c ++ l.flatten).length } (chain l) hb
      (by show b.length - TCP_HLEN < _; omega)
    refine ⟨.assert "increment_magnitude <= p->len", hopts.trans ?_⟩
    show (pbufHeader (headerLen o b - TCP_HLEN - (b.length - TCP_HLEN)) _ >>= _ :
      Except Fault (ℕ × Option (List Byte) × List Buf)) = _
    rw [hf]
    rfl

/-! ## Every datagram -/

/-- The header of a datagram is complete and at least as long as `struct tcp_hdr`. -/
def HeaderValid (o : Order) (w : List Byte) : Prop :=
  TCP_HLEN ≤ w.length ∧ TCP_HLEN ≤ headerLen o w ∧ headerLen o w ≤ w.length

/-- `tcp_input` drops and frees a datagram whose header is not valid, and leaves the state alone; it
    hands on every other one with the data behind the header, and `tcplen` as that data and flags
    have it. -/
def HeaderRobust (o : Order) (q : List (List Byte)) : Prop :=
  ∀ (σ : Type) (next : Parsed → σ → Except Fault σ) (s : σ),
    (¬ HeaderValid o q.flatten → tcpInputDatagram o next s (chain q) = .ok (.freed (chain q) s)) ∧
    (HeaderValid o q.flatten → ∃ d,
      tcpInputDatagram o next s (chain q) = .processed <$> next d s ∧
      d.p.flatMap Buf.payload = q.flatten.drop (headerLen o q.flatten) ∧
      d.tcplen = q.flatten.length - headerLen o q.flatten +
        if tcphFlags o (.ofOctets o q.flatten) &&& 3 ≠ 0 then 1 else 0)

/-- The first pbuf has room for a header, and the header is valid and ends in the second pbuf. -/
structure HeaderPlaced (o : Order) (q : List (List Byte)) : Prop where
  first : TCP_HLEN ≤ (q.headD []).length
  valid : HeaderValid o q.flatten
  ends : headerLen o q.flatten ≤ (q.headD []).length + (q.tail.headD []).length

theorem tcpInputHeader_ok {b : List Byte} {l : List (List Byte)} (hb : TCP_HLEN ≤ b.length)
    (hle : headerLen o b ≤ b.length + (l.headD []).length) :
    ∃ d, tcpInputHeader o (chain (b :: l)) = .ok (some d) ∧ Holds o (b :: l).flatten d := by
  by_cases hh : headerLen o b ≤ b.length
  · exact tcpInputHeader_first hb hh
  · cases l with
    | nil =>
      rw [List.headD_nil, List.length_nil] at hle
      omega
    | cons c l => exact tcpInputHeader_second hb (by omega) hle

/-- What the code computes for a chain whose first pbuf has room for the header. -/
theorem tcpInputHeader_eq {b : List Byte} {l : List (List Byte)} (hb : TCP_HLEN ≤ b.length) :
    (∃ d, tcpInputHeader o (chain (b :: l)) = .ok (some d)) ↔
      headerLen o b ≤ b.length + (l.headD []).length := by
  constructor
  · rintro ⟨d, hd⟩
    by_contra hlt
    obtain ⟨f, hf⟩ := tcpInputHeader_fault (o := o) (l := l) hb (by omega)
    rw [hf] at hd
    cases hd
  · intro hle
    obtain ⟨d, hd, -⟩ := tcpInputHeader_ok hb hle
    exact ⟨d, hd⟩

theorem Holds.tcplen {w : List Byte} {d : Parsed} (h : Holds o w d) (hv : HeaderValid o w)
    (hl : w.length < 65536) : d.tcplen = w.length - headerLen o w +
      if tcphFlags o (.ofOctets o w) &&& 3 ≠ 0 then 1 else 0 := by
  obtain ⟨-, h20, -⟩ := hv
  have hhl : TCP_HLEN = 20 := rfl
  unfold Parsed.tcplen u16
  rw [h.totLen hl, h.flags]
  show (w.length - headerLen o w + _) % 65536 = _
  apply Nat.mod_eq_of_lt
  split <;> omega

theorem tcpInputDatagram_ok {σ : Type} {q : List Buf} {d : Parsed}
    (hd : tcpInputHeader o q = .ok (some d)) (next : Parsed → σ → Except Fault σ) (s : σ) :
    tcpInputDatagram o next s q = .processed <$> next d s := by
  unfold tcpInputDatagram
  rw [hd]
  rfl

theorem tcpInputDatagram_fault {σ : Type} {q : List Buf} {f : Fault}
    (hf : tcpInputHeader o q = .error f) (next : Parsed → σ → Except Fault σ) (s : σ) :
    tcpInputDatagram o next s q = .error f := by
  unfold tcpInputDatagram
  rw [hf]
  rfl

theorem not_headerRobust {q : List (List Byte)} {f : Fault}
    (hf : tcpInputHeader o (chain q) = .error f) : ¬ HeaderRobust o q := by
  intro h
  obtain ⟨hdrop, hkeep⟩ := h Unit (fun _ s => .ok s) ()
  have hstop := tcpInputDatagram_fault hf (fun _ s => .ok s) ()
  by_cases hv : HeaderValid o q.flatten
  · obtain ⟨d, hd, -⟩ := hkeep hv
    rw [hstop] at hd
    cases hd
  · have hd := hdrop hv
    rw [hstop] at hd
    cases hd

theorem tcpInput_header_iff (o : Order) (q : List (List Byte)) (hq : q ≠ [])
    (hl : q.flatten.length < 65536) : HeaderRobust o q ↔ HeaderPlaced o q := by
  cases q with
  | nil => exact absurd rfl hq
  | cons b l =>
    by_cases hb : b.length < TCP_HLEN
    · refine iff_of_false (not_headerRobust (tcpInputHeader_short hb)) fun h => ?_
      have hb' : TCP_HLEN ≤ b.length := h.first
      omega
    · have hb' : TCP_HLEN ≤ b.length := by omega
      have hlen : headerLen o (b :: l).flatten = headerLen o b := headerLen_append hb' _
      constructor
      · intro h
        have hle : headerLen o b ≤ b.length + (l.headD []).length := by
          by_contra hlt
          obtain ⟨f, hf⟩ := tcpInputHeader_fault (o := o) (l := l) hb' (by omega)
          exact not_headerRobust hf h
        refine ⟨hb', ?_, by rw [hlen]; exact hle⟩
        by_contra hv
        obtain ⟨d, hd⟩ := (tcpInputHeader_eq (l := l) hb').mpr hle
        have hs := (h Unit (fun _ s => .ok s) ()).1 hv
        rw [tcpInputDatagram_ok hd] at hs
        cases hs
      · rintro ⟨-, hv, hle⟩ σ next s
        rw [hlen] at hle
        obtain ⟨d, hd, hh⟩ := tcpInputHeader_ok (l := l) hb' hle
        refine ⟨fun h => absurd hv h,
          fun _ => ⟨d, tcpInputDatagram_ok hd next s, ?_, hh.tcplen hv hl⟩⟩
        rw [hh.payload, drop_hostOrder_of_le hv.2.1]

/-- A header whose length field is `hdrlen`, with the flags SYN and ACK and the port 4000. -/
def rawHeader (hdrlen : UInt8) : List Byte :=
  [0, 0, 0x0f, 0xa0, 0, 0, 0, 0, 0, 0, 0, 1, 0, 0, 0, 0, hdrlen <<< 4, 0x12, 0x14, 0xf0]

/-- The header with half of the options in the first pbuf, and the other half with the data. -/
theorem tcpInput_header_split :
    HeaderRobust .little [rawHeader 6 ++ [2, 4], [2, 24, 65, 66], [67]] := by
  have hvalid : HeaderValid .little [rawHeader 6 ++ [2, 4], [2, 24, 65, 66], [67]].flatten :=
    ⟨by decide, by decide, by decide⟩
  exact (tcpInput_header_iff .little _ (by decide) (by decide)).mpr
    ⟨by decide, hvalid, by decide⟩

/-- A datagram of 20 bytes that says that its header has 24. -/
theorem tcpInput_header_aborts : tcpInputHeader .little (chain [rawHeader 6]) =
    .error (.assert "p->next != NULL") ∧
    ¬ ∀ (o : Order) (q : List (List Byte)), q ≠ [] → q.flatten.length < 65536 →
      HeaderRobust o q :=
  ⟨rfl, fun h => not_headerRobust (f := .assert "p->next != NULL") rfl
    (h .little [rawHeader 6] (by decide) (by decide))⟩

end Rudp
