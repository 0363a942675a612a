import Rudp.Tcp

/-!
# `src/tcp_in.c` on a single pcb

What `tcp_input` does with a segment once it has found the pcb: `tcp_process`, `tcp_receive`, the
reassembly queue, the callbacks, and `tcp_timewait_input`. The static variables `seqno`, `ackno`,
`flags` and `tcplen` are those of the arriving segment (`InSegment`) until `tcp_receive` changes
`seqno` and `tcplen`, which it hands on explicitly here.
-/

namespace Rudp

variable {W : Type}

/-! ## Options -/

/-- The option walk of `tcp_parseopt` (tcp_in.c:1613-1704) on the bytes behind `tcp_optidx`; the
    result is the new `pcb->mss`. Every turn reads at least one byte, so the number of option bytes
    is enough fuel. -/
def tcpParseMss : ℕ → List Byte → ℕ → ℕ
  | 0, _, mss => mss
  | fuel + 1, options, mss =>
    match options with
    | [] => mss
    -- LWIP_TCP_OPT_EOL, LWIP_TCP_OPT_NOP, LWIP_TCP_OPT_MSS
    | 0 :: _ => mss
    | 1 :: rest => tcpParseMss fuel rest mss
    | 2 :: 4 :: hi :: lo :: rest =>
      let new := hi.toNat * 256 + lo.toNat
      -- Limit the mss to the configured TCP_MSS and prevent division by zero
      tcpParseMss fuel rest (if new > TCP_MSS ∨ new = 0 then TCP_MSS else new)
    | 2 :: _ => mss
    | _ :: data :: rest =>
      if data.toNat < 2 then mss else tcpParseMss fuel (rest.drop (data.toNat - 2)) mss
    | [_] => mss

/-- `tcp_parseopt` (tcp_in.c:1603-1705). -/
def tcpParseopt (s : St W) (seg : InSegment) : St W :=
  { s with pcb.mss := tcpParseMss seg.options.length seg.options s.pcb.mss }

/-! ## `tcp_receive`: the acknowledgment -/

/-- The window update of `tcp_receive` (tcp_in.c:914-946). -/
def tcpReceiveWindow (pcb : Pcb) (seg : InSegment) : Pcb :=
  if tcpSeqLt pcb.sndWl1 seg.seqno ∨ (pcb.sndWl1 = seg.seqno ∧ tcpSeqLt pcb.sndWl2 seg.ackno) ∨
      (pcb.sndWl2 = seg.ackno ∧ seg.tcphdr.wnd > pcb.sndWnd) then
    { pcb with
      sndWnd := seg.tcphdr.wnd
      sndWndMax := max pcb.sndWndMax seg.tcphdr.wnd
      sndWl1 := seg.seqno
      sndWl2 := seg.ackno
      persistCnt := if seg.tcphdr.wnd = 0 ∧ pcb.persistBackoff = 0 then 0 else pcb.persistCnt
      persistBackoff :=
        if seg.tcphdr.wnd = 0 then
          -- start persist timer
          if pcb.persistBackoff = 0 then 1 else pcb.persistBackoff
        else 0 }
  else pcb

/-- `pcb->cwnd += pcb->mss`, but not if it means that the value overflows. -/
def cwndInflate (pcb : Pcb) : Pcb :=
  if u16 (pcb.cwnd + pcb.mss) > pcb.cwnd then { pcb with cwnd := u16 (pcb.cwnd + pcb.mss) } else pcb

/-- Clause 1 of `tcp_receive` (tcp_in.c:968-1001): the segment acknowledges nothing new.
    `rightWndEdge` is that before the window update. -/
def tcpReceiveDupack (s : St W) (seg : InSegment) (rightWndEdge : U32) : St W :=
  let s := { s with pcb.acked := 0 }
  if seg.tcplen = 0 ∧ s.pcb.sndWl2 + u32 s.pcb.sndWnd = rightWndEdge ∧ s.pcb.rtime ≥ 0 ∧
      s.pcb.lastack = seg.ackno then
    let s :=
      if u8 (s.pcb.dupacks + 1) > s.pcb.dupacks then { s with pcb.dupacks := s.pcb.dupacks + 1 }
      else s
    if s.pcb.dupacks > 3 then { s with pcb := cwndInflate s.pcb }
    else if s.pcb.dupacks = 3 then tcpRexmitFast s
    else s
  else { s with pcb.dupacks := 0 }

/-- A queued segment that the ACK covers leaves its queue (tcp_in.c:1062-1079 and 1111-1130). -/
def tcpReceiveFree (s : St W) (next : TcpSeg) : Except Fault (St W) := do
  lwipAssert "pcb->snd_queuelen >= pbuf_clen(next->p)" (s.pcb.sndQueuelen ≥ pbufClen next.p)
  let s := { s with
    -- Prevent ACK for FIN to generate a sent event
    pcb.acked :=
      if s.pcb.acked ≠ 0 ∧ next.tcphdr.flags.fin = true then s.pcb.acked - 1 else s.pcb.acked
    pcb.sndQueuelen := s.pcb.sndQueuelen - pbufClen next.p }
  lwipAssert "tcp_receive: valid queue length"
    (s.pcb.sndQueuelen ≠ 0 → s.pcb.unacked ≠ [] ∨ s.pcb.unsent ≠ [])
  .ok s

/-- The sequence number behind a segment. -/
def TcpSeg.endSeq (seg : TcpSeg) : U32 := seg.tcphdr.seqno + u32 seg.tcplen

/-- Remove segments from `unacked` if the incoming ACK acknowledges them (tcp_in.c:1052-1080). The
    list is `pcb->unacked`. -/
def tcpReceiveUnacked (ackno : U32) : List TcpSeg → St W → Except Fault (St W)
  | [], s => .ok s
  | next :: rest, s =>
    if tcpSeqLeq next.endSeq ackno then do
      let s ← tcpReceiveFree { s with pcb.unacked := rest } next
      tcpReceiveUnacked ackno rest s
    else .ok s

/-- Remove segments from `unsent` that were sent before and are now acknowledged
    (tcp_in.c:1098-1131). The list is `pcb->unsent`. -/
def tcpReceiveUnsent (ackno : U32) : List TcpSeg → St W → Except Fault (St W)
  | [], s => .ok s
  | next :: rest, s =>
    if tcpSeqBetween ackno next.endSeq s.pcb.sndNxt then do
      let s := { s with
        pcb.unsent := rest
        pcb.unsentOversize := if rest = [] then 0 else s.pcb.unsentOversize }
      let s ← tcpReceiveFree s next
      tcpReceiveUnsent ackno rest s
    else .ok s

/-- The congestion window after an ACK for new data (tcp_in.c:1029-1044). -/
def cwndAck (pcb : Pcb) : Pcb :=
  if pcb.cwnd < pcb.ssthresh then cwndInflate pcb
  else
    let newCwnd := u16 (pcb.cwnd + pcb.mss * pcb.mss / pcb.cwnd)
    if newCwnd > pcb.cwnd then { pcb with cwnd := newCwnd } else pcb

/-- The ACK acknowledges new data (tcp_in.c:1002-1091). -/
def tcpReceiveNewAck (s : St W) (ackno : U32) : Except Fault (St W) := do
  let pcb := s.pcb
  let pcb := if pcb.tfInfr then { pcb with tfInfr := false, cwnd := pcb.ssthresh } else pcb
  let acked := u16 (ackno - pcb.lastack).toNat
  let pcb := { pcb with
    nrtx := 0
    rto := s16 (pcb.sa / 8 + pcb.sv)
    acked := acked
    sndBuf := u16 (pcb.sndBuf + acked)
    dupacks := 0
    lastack := ackno }
  let s ← tcpReceiveUnacked ackno pcb.unacked { s with pcb := cwndAck pcb }
  .ok { s with pcb.rtime := if s.pcb.unacked = [] then -1 else 0, pcb.polltmr := 0 }

/-- The round trip estimation of `tcp_receive` (tcp_in.c:1137-1162). -/
def tcpReceiveRtt (s : St W) (ackno : U32) : St W :=
  if s.pcb.rttest ≠ 0 ∧ tcpSeqLt s.pcb.rtseq ackno then
    let m := s16 (s.ticks - s.pcb.rttest).toNat
    let m := s16 (m - s.pcb.sa / 8)
    let sa := s16 (s.pcb.sa + m)
    let m := if m < 0 then s16 (-m) else m
    let m := s16 (m - s.pcb.sv / 4)
    let sv := s16 (s.pcb.sv + m)
    { s with pcb.sa := sa, pcb.sv := sv, pcb.rto := s16 (sa / 8 + sv), pcb.rttest := 0 }
  else s

/-- What the ACK acknowledges (tcp_in.c:968-1096). -/
def tcpReceiveAckno (s : St W) (seg : InSegment) (rightWndEdge : U32) : Except Fault (St W) :=
  if tcpSeqLeq seg.ackno s.pcb.lastack then .ok (tcpReceiveDupack s seg rightWndEdge)
  else if tcpSeqBetween seg.ackno (s.pcb.lastack + 1) s.pcb.sndNxt then
    tcpReceiveNewAck s seg.ackno
  else
    -- Out of sequence ACK, didn't really ack anything
    .ok (tcpSendEmptyAck { s with pcb.acked := 0 }).2

/-- The part of `tcp_receive` under `flags & TCP_ACK` (tcp_in.c:911-1163). -/
def tcpReceiveAck (s : St W) (seg : InSegment) : Except Fault (St W) := do
  let rightWndEdge := u32 s.pcb.sndWnd + s.pcb.sndWl2
  let s ← tcpReceiveAckno { s with pcb := tcpReceiveWindow s.pcb seg } seg rightWndEdge
  let s ← tcpReceiveUnsent seg.ackno s.pcb.unsent s
  .ok (tcpReceiveRtt s seg.ackno)

/-! ## `tcp_receive`: the data -/

/-- The end of a segment moves to `len`: `seg->len = len; pbuf_realloc(seg->p, len)`. -/
def TcpSeg.cut (seg : TcpSeg) (len : ℕ) : TcpSeg :=
  { seg with len := len, p := pbufRealloc seg.p len }

/-- `TCPH_FLAGS_SET(seg->tcphdr, TCPH_FLAGS(seg->tcphdr) & ~TCP_FIN)`. -/
def TcpSeg.clearFin (seg : TcpSeg) : TcpSeg := { seg with tcphdr.flags.fin := false }

/-- The sequence number behind the data of a segment, as the reassembly code computes it. -/
def TcpSeg.dataEnd (seg : TcpSeg) : U32 := seg.tcphdr.seqno + u32 seg.len

/-- `inseg.len` at the end of a trim to `len` sequence numbers (tcp_in.c:1283-1286, 1331-1334): one
    of them is that of a SYN. -/
def trimLen (inseg : TcpSeg) (len : ℕ) : ℕ :=
  if inseg.tcphdr.flags.syn then u16 (len + 65535) else len

/-- The first-edge trimming (tcp_in.c:1221-1248): `off` bytes are behind `rcv_nxt`. -/
def tcpReceiveTrimFront (rcvNxt : U32) (inseg : TcpSeg) : Except Fault TcpSeg := do
  let off := Serial.dist rcvNxt inseg.tcphdr.seqno
  lwipAssert "insane offset!" (off < 0x7fff)
  lwipAssert "pbuf too short!"
    (((inseg.p.head?.map (·.payload.length)).getD 0 : ℤ) < off → (totLen inseg.p : ℤ) ≥ off)
  .ok { inseg with
    p := pbufSkip off.toNat inseg.p
    len := u16 (inseg.len + 65536 - u16 (rcvNxt - inseg.tcphdr.seqno).toNat)
    tcphdr.seqno := rcvNxt }

/-- The trimming of an in-sequence segment to the window (tcp_in.c:1269-1291). -/
def tcpReceiveTrimWnd (rcvNxt : U32) (rcvWnd : ℕ) (inseg : TcpSeg) : Except Fault TcpSeg :=
  if u16 inseg.tcplen > rcvWnd then do
    let inseg := inseg.clearFin.cut (trimLen inseg rcvWnd)
    lwipAssert "tcp_receive: segment not trimmed correctly to rcv_wnd\n"
      (inseg.tcphdr.seqno + u32 (u16 inseg.tcplen) = rcvNxt + u32 rcvWnd)
    .ok inseg
  else .ok inseg

/-- Remove all segments on ooseq that are covered by inseg already, FIN is copied
    (tcp_in.c:1310-1324). -/
def mergeCovered (inseg : TcpSeg) : List TcpSeg → TcpSeg × List TcpSeg
  | [] => (inseg, [])
  | next :: rest =>
    if tcpSeqGeq (inseg.tcphdr.seqno + u32 (u16 inseg.tcplen)) next.dataEnd then
      mergeCovered
        (if next.tcphdr.flags.fin && !inseg.tcphdr.flags.syn then inseg.setFin else inseg) rest
    else (inseg, next :: rest)

/-- Trim right side of inseg if it overlaps with the first segment on ooseq
    (tcp_in.c:1325-1339). -/
def mergeTrim (inseg : TcpSeg) (next : TcpSeg) : Except Fault TcpSeg :=
  if tcpSeqGt (inseg.tcphdr.seqno + u32 (u16 inseg.tcplen)) next.tcphdr.seqno then do
    let inseg :=
      inseg.cut (trimLen inseg (u16 (next.tcphdr.seqno - inseg.tcphdr.seqno).toNat))
    lwipAssert "tcp_receive: segment not trimmed correctly to ooseq queue\n"
      (inseg.tcphdr.seqno + u32 (u16 inseg.tcplen) = next.tcphdr.seqno)
    .ok inseg
  else .ok inseg

/-- Received in-sequence data, adjust ooseq data (tcp_in.c:1292-1342): the segment and the new
    ooseq. -/
def mergeOoseq (inseg : TcpSeg) (ooseq : List TcpSeg) : Except Fault (TcpSeg × List TcpSeg) :=
  if inseg.tcphdr.flags.fin then .ok (inseg, [])
  else
    match mergeCovered inseg ooseq with
    | (inseg, []) => .ok (inseg, [])
    | (inseg, next :: rest) => do
      let inseg ← mergeTrim inseg next
      .ok (inseg, next :: rest)

/-- The segment `seg` is next in sequence: `rcv_nxt` and the window move behind it and its data is
    chained to `recv_data` (tcp_in.c:1345-1372 and 1383-1409). -/
def tcpReceiveTake (s : St W) (message : String) (seg : TcpSeg) (tcplen : ℕ) :
    Except Fault (St W) := do
  lwipAssert message (s.pcb.rcvWnd ≥ tcplen)
  let (_, pcb) ← tcpUpdateRcvAnnWnd { s.pcb with
    rcvNxt := seg.tcphdr.seqno + u32 tcplen
    rcvWnd := s.pcb.rcvWnd - tcplen }
  .ok { s with
    pcb := pcb
    recvData := if totLen seg.p > 0 then some (s.recvData.getD [] ++ seg.p) else s.recvData
    recvGotFin := s.recvGotFin || seg.tcphdr.flags.fin }

/-- The segments on ooseq that are now in sequence (tcp_in.c:1375-1413). The list is
    `pcb->ooseq`. -/
def tcpReceiveDequeue : List TcpSeg → St W → Except Fault (St W)
  | [], s => .ok s
  | cseg :: rest, s =>
    if cseg.tcphdr.seqno = s.pcb.rcvNxt then do
      let s ← tcpReceiveTake s "tcp_receive: ooseq tcplen > rcv_wnd\n" cseg cseg.tcplen
      let s := { s with
        pcb.ooseq := rest
        pcb.state :=
          if cseg.tcphdr.flags.fin = true ∧ s.pcb.state = .ESTABLISHED then .CLOSE_WAIT
          else s.pcb.state }
      tcpReceiveDequeue rest s
    else .ok s

/-- The segment is next in sequence (tcp_in.c:1265-1418). -/
def tcpReceiveInseq (s : St W) (inseg : TcpSeg) : Except Fault (St W) := do
  let inseg ← tcpReceiveTrimWnd s.pcb.rcvNxt s.pcb.rcvWnd inseg
  let (inseg, ooseq) ← mergeOoseq inseg s.pcb.ooseq
  let s ← tcpReceiveTake { s with pcb.ooseq := ooseq } "tcp_receive: tcplen > rcv_wnd\n" inseg
    (u16 inseg.tcplen)
  let s ← tcpReceiveDequeue ooseq s
  .ok (tcpAck s)

/-- The loop of `tcp_oos_insert_segment` (tcp_in.c:857-867): following segments that `cseg` covers
    are deleted. -/
def oosCovered (cseg : TcpSeg) : List TcpSeg → TcpSeg × List TcpSeg
  | [] => (cseg, [])
  | next :: rest =>
    if tcpSeqGeq cseg.dataEnd next.dataEnd then
      oosCovered (if next.tcphdr.flags.fin then cseg.setFin else cseg) rest
    else (cseg, next :: rest)

/-- `tcp_oos_insert_segment` (tcp_in.c:844-876): the queue from `cseg` on. -/
def tcpOosInsertSegment (cseg : TcpSeg) (next : List TcpSeg) : List TcpSeg :=
  -- received segment overlaps all following segments
  if cseg.tcphdr.flags.fin then [cseg]
  else
    match oosCovered cseg next with
    | (cseg, []) => [cseg]
    | (cseg, next :: rest) =>
      if tcpSeqGt cseg.dataEnd next.tcphdr.seqno then
        -- We need to trim the incoming segment
        cseg.cut (u16 (next.tcphdr.seqno - cseg.tcphdr.seqno).toNat) :: next :: rest
      else cseg :: next :: rest

/-- The trimming of the segment in front of the inserted one (tcp_in.c:1492-1496 and 1514-1518). -/
def oosTrimPrev (prev : TcpSeg) (seqno : U32) : TcpSeg :=
  if tcpSeqGt prev.dataEnd seqno then prev.cut (u16 (seqno - prev.tcphdr.seqno).toNat) else prev

/-- The segment goes behind the last segment `next` of ooseq (tcp_in.c:1506-1539). -/
def oosAppend (rcvNxt : U32) (rcvWnd : ℕ) (inseg next : TcpSeg) :
    Option (Except Fault (List TcpSeg)) :=
  let seqno := inseg.tcphdr.seqno
  -- segment "next" already contains all data
  if next.tcphdr.flags.fin then none
  else
    let next := oosTrimPrev next seqno
    if tcpSeqGt (u32 (u16 inseg.tcplen) + seqno) (rcvNxt + u32 rcvWnd) then
      let cseg := inseg.clearFin.cut (u16 (rcvNxt + u32 rcvWnd - seqno).toNat)
      some (do
        lwipAssert "tcp_receive: segment not trimmed correctly to rcv_wnd\n"
          (seqno + u32 (u16 cseg.tcplen) = rcvNxt + u32 rcvWnd)
        .ok [next, cseg])
    else some (.ok [next, inseg])

/-- The loop over ooseq (tcp_in.c:1441-1542) behind its first turn: the queue from `prev` on as the
    segment leaves it, or `none` when no copy of the segment is made. -/
def oosWalk (rcvNxt : U32) (rcvWnd : ℕ) (inseg : TcpSeg) :
    TcpSeg → List TcpSeg → Option (Except Fault (List TcpSeg))
  | _, [] => none
  | prev, next :: rest =>
    let seqno := inseg.tcphdr.seqno
    if seqno = next.tcphdr.seqno then
      -- discard the segment that contains less data
      if inseg.len > next.len then
        some (.ok (prev :: tcpOosInsertSegment inseg (next :: rest)))
      else none
    else if tcpSeqBetween seqno (prev.tcphdr.seqno + 1) (next.tcphdr.seqno - 1) then
      some (.ok (oosTrimPrev prev seqno :: tcpOosInsertSegment inseg (next :: rest)))
    else if rest = [] ∧ tcpSeqGt seqno next.tcphdr.seqno then
      (oosAppend rcvNxt rcvWnd inseg next).map fun q => (prev :: ·) <$> q
    else (oosWalk rcvNxt rcvWnd inseg next rest).map fun q => (prev :: ·) <$> q

/-- Where an out-of-sequence segment goes on ooseq (tcp_in.c:1424-1543), the first turn of the loop
    with `prev == NULL` included. -/
def oosInsert (rcvNxt : U32) (rcvWnd : ℕ) (inseg : TcpSeg) :
    List TcpSeg → Option (Except Fault (List TcpSeg))
  | [] => some (.ok [inseg])
  | next :: rest =>
    let seqno := inseg.tcphdr.seqno
    if seqno = next.tcphdr.seqno then
      if inseg.len > next.len then some (.ok (tcpOosInsertSegment inseg (next :: rest))) else none
    else if tcpSeqLt seqno next.tcphdr.seqno then
      some (.ok (tcpOosInsertSegment inseg (next :: rest)))
    else if rest = [] ∧ tcpSeqGt seqno next.tcphdr.seqno then oosAppend rcvNxt rcvWnd inseg next
    else oosWalk rcvNxt rcvWnd inseg next rest

/-- The segment is out of sequence (tcp_in.c:1420-1569); `tcp_seg_copy` may fail. -/
def tcpReceiveOutseq (s : St W) (inseg : TcpSeg) : Except Fault (St W) :=
  let (_, s) := tcpSendEmptyAck s
  match oosInsert s.pcb.rcvNxt s.pcb.rcvWnd inseg s.pcb.ooseq with
  | none => .ok s
  | some queue =>
    let (fail, s) := s.pop
    if fail then .ok s
    else do
      let ooseq ← queue
      .ok { s with pcb.ooseq := ooseq }

/-- Is `seqno` in the receive window? (tcp_in.c:1263-1264 and 1578) -/
def inWindow (pcb : Pcb) (seqno : U32) : Prop :=
  tcpSeqBetween seqno pcb.rcvNxt (pcb.rcvNxt + u32 pcb.rcvWnd - 1)

instance (pcb : Pcb) (seqno : U32) : Decidable (inWindow pcb seqno) :=
  inferInstanceAs (Decidable (_ ∧ _))

/-- Does the segment start before `rcv_nxt` and reach behind it? (tcp_in.c:1200) -/
def overlaps (rcvNxt : U32) (seg : InSegment) : Prop :=
  tcpSeqBetween rcvNxt (seg.seqno + 1) (seg.seqno + u32 seg.tcplen - 1)

instance (rcvNxt : U32) (seg : InSegment) : Decidable (overlaps rcvNxt seg) :=
  inferInstanceAs (Decidable (_ ∧ _))

/-- First, we check if we must trim the first edge (tcp_in.c:1194-1249). -/
def tcpReceiveFirstEdge (rcvNxt : U32) (seg : InSegment) : Except Fault TcpSeg :=
  if overlaps rcvNxt seg then tcpReceiveTrimFront rcvNxt seg.inseg else .ok seg.inseg

/-- The whole segment is `< rcv_nxt`: a duplicate (tcp_in.c:1251-1257). -/
def tcpReceiveDup (s : St W) (seg : InSegment) : St W :=
  if ¬ overlaps s.pcb.rcvNxt seg ∧ tcpSeqLt seg.seqno s.pcb.rcvNxt then tcpAckNow s else s

/-- The segment with its first edge trimmed (tcp_in.c:1260-1574). -/
def tcpReceiveSegment (s : St W) (inseg : TcpSeg) : Except Fault (St W) :=
  if inWindow s.pcb inseg.tcphdr.seqno then
    if s.pcb.rcvNxt = inseg.tcphdr.seqno then tcpReceiveInseq s inseg
    else tcpReceiveOutseq s inseg
  else .ok (tcpSendEmptyAck s).2

/-- The part of `tcp_receive` behind the acknowledgment (tcp_in.c:1165-1581). -/
def tcpReceiveData (s : St W) (seg : InSegment) : Except Fault (St W) :=
  if seg.tcplen > 0 ∧ s.pcb.state.num < TcpState.CLOSE_WAIT.num then do
    let inseg ← tcpReceiveFirstEdge s.pcb.rcvNxt seg
    tcpReceiveSegment (tcpReceiveDup s seg) inseg
  else if ¬ inWindow s.pcb seg.seqno then .ok (tcpAckNow s)
  else .ok s

/-- `tcp_receive` (tcp_in.c:892-1582). -/
def tcpReceive (s : St W) (seg : InSegment) : Except Fault (St W) := do
  lwipAssert "tcp_receive: wrong state" (s.pcb.state.num ≥ TcpState.ESTABLISHED.num)
  let s ← (if seg.flags.ack then tcpReceiveAck s seg else .ok s)
  tcpReceiveData s seg

/-! ## `tcp_process` -/

/-- `LWIP_TCP_CALC_INITIAL_CWND(mss)` (tcp_in.c:64). -/
def initialCwnd (mss : ℕ) : ℕ := min (4 * mss) (max (2 * mss) 4380)

/-- `tcp_rst` as an answer to the segment (tcp_in.c:719, 767 and others). -/
def tcpRstReply (s : St W) (seg : InSegment) : St W :=
  tcpRst s seg.ackno (seg.seqno + u32 seg.tcplen) s.pcb.connId

/-- The pcb moves to the `TIME_WAIT` list (tcp_in.c:791-794 and others). -/
def toTimeWait (s : St W) : St W :=
  { s with pcb := { tcpPcbPurge s.pcb with state := .TIME_WAIT }, list := .tw, changed := true }

/-- The RST branch of `tcp_process` (tcp_in.c:619-646). -/
def tcpProcessRst (s : St W) (seg : InSegment) : Err × St W :=
  let acceptable :=
    if s.pcb.state = .SYN_SENT then decide (seg.ackno = s.pcb.sndNxt)
    else decide (tcpSeqBetween seg.seqno s.pcb.rcvNxt (s.pcb.rcvNxt + u32 s.pcb.rcvWnd))
  if acceptable then (.rst, { s with recvReset := true, pcb.tfAckDelay := false })
  else (.ok, s)

/-- The handshake ends on the active side (tcp_in.c:670-706): `rseg`, the SYN, is acknowledged. -/
def establish (pcb : Pcb) (seg : InSegment) (rest : List TcpSeg) : Pcb :=
  { pcb with
    sndBuf := u16 (pcb.sndBuf + 1)
    rcvNxt := seg.seqno + 1
    rcvAnnRightEdge := seg.seqno + 1
    lastack := seg.ackno
    sndWnd := seg.tcphdr.wnd
    sndWndMax := seg.tcphdr.wnd
    sndWl1 := seg.seqno - 1
    state := .ESTABLISHED
    connId := { pcb.connId with connid2 := seg.tcphdr.connid2 }
    ssthresh := seg.tcphdr.wnd
    cwnd := initialCwnd pcb.mss
    sndQueuelen := pcb.sndQueuelen - 1
    unacked := rest
    rtime := if rest = [] then -1 else 0
    nrtx := if rest = [] then pcb.nrtx else 0 }

/-- `tcp_process` in `SYN_SENT` (tcp_in.c:664-721). The debug message at its head reads the first
    unacknowledged segment. -/
def tcpProcessSynSent (app : App W) (s : St W) (seg : InSegment) : Except Fault (Err × St W) :=
  match s.pcb.unacked with
  | [] => .error .nullDeref
  | rseg :: rest =>
    if seg.flags.ack = true ∧ seg.flags.syn = true ∧ seg.ackno = rseg.tcphdr.seqno + 1 then do
      lwipAssert "pcb->snd_queuelen > 0" (s.pcb.sndQueuelen > 0)
      let (err, s) ← tcpEvent app .connected { s with pcb := establish s.pcb seg rest }
      if err = .abrt then .ok (.abrt, s)
      else do
        s.live
        .ok (.ok, tcpAckNow s)
    else if seg.flags.ack then
      -- received ACK? possibly a half-open connection
      .ok (.ok, tcpRstReply s seg)
    else .ok (.ok, s)

/-- `tcp_receive` with what `tcp_process` does behind it, and the entry in the log. -/
def tcpProcessReceive (s : St W) (seg : InSegment) (after : St W → St W) :
    Except Fault (St W) := do
  let s1 ← tcpReceive s seg
  let s2 := after s1
  .ok (s2.emit (.process seg s.pcb s1.pcb s2.pcb s2.recvClosed))

/-- What `tcp_process` does behind `tcp_receive` in `SYN_RCVD` (tcp_in.c:746-764). -/
def tcpProcessAcceptAfter (s : St W) : St W :=
  let s := { s with
    pcb.ssthresh := s.pcb.sndWnd
    -- Prevent ACK for SYN to generate a sent event
    pcb.acked := s.pcb.acked - 1
    pcb.cwnd := initialCwnd s.pcb.mss }
  if s.recvGotFin then { tcpAckNow s with pcb.state := .CLOSE_WAIT } else s

/-- The accept branch of `tcp_process` in `SYN_RCVD` (tcp_in.c:725-764). -/
def tcpProcessAccept (app : App W) (s : St W) (seg : InSegment) : Except Fault (Err × St W) := do
  let (err, s) ← tcpEvent app .accept { s with pcb.state := .ESTABLISHED }
  if err ≠ .ok then
    -- If the accept function returns with an error, we abort the connection
    if err ≠ .abrt then do
      s.live
      let s ← tcpAbort s
      .ok (.abrt, s)
    else .ok (.abrt, s)
  else do
    s.live
    let s ← tcpProcessReceive s seg tcpProcessAcceptAfter
    .ok (.ok, s)

/-- `tcp_process` in `SYN_RCVD` (tcp_in.c:722-773). -/
def tcpProcessSynRcvd (app : App W) (s : St W) (seg : InSegment) : Except Fault (Err × St W) :=
  if seg.flags.ack then
    if tcpSeqBetween seg.ackno (s.pcb.lastack + 1) s.pcb.sndNxt then tcpProcessAccept app s seg
    else .ok (.ok, tcpRstReply s seg)
  else if seg.flags.syn = true ∧ seg.seqno = s.pcb.rcvNxt - 1 then
    -- Looks like another copy of the SYN - retransmit our SYN-ACK
    .ok (.ok, tcpRexmit s)
  else .ok (.ok, s)

/-- What `tcp_process` does behind `tcp_receive` in the states from `ESTABLISHED` on
    (tcp_in.c:774-834); `state` is the state before. -/
def tcpProcessAfter (state : TcpState) (seg : InSegment) (s : St W) : St W :=
  let finAcked := seg.flags.ack = true ∧ seg.ackno = s.pcb.sndNxt
  match state with
  | .ESTABLISHED | .CLOSE_WAIT =>
    if s.recvGotFin then { tcpAckNow s with pcb.state := .CLOSE_WAIT } else s
  | .FIN_WAIT_1 =>
    if s.recvGotFin then
      if finAcked then toTimeWait (tcpAckNow s) else { tcpAckNow s with pcb.state := .CLOSING }
    else if finAcked then { s with pcb.state := .FIN_WAIT_2 }
    else s
  | .FIN_WAIT_2 => if s.recvGotFin then toTimeWait (tcpAckNow s) else s
  | .CLOSING => if finAcked then toTimeWait s else s
  | .LAST_ACK => if finAcked then { s with recvClosed := true } else s
  | _ => s

/-- What `tcp_process` does before it looks at the state (tcp_in.c:654-660). -/
def tcpProcessStart (s : St W) (seg : InSegment) : St W :=
  let s := if s.pcb.tfRxClosed then s else { s with pcb.tmr := s.ticks }
  tcpParseopt { s with pcb.keepCntSent := 0 } seg

/-- `tcp_process` in its states (tcp_in.c:663-834). -/
def tcpProcessState (app : App W) (s : St W) (seg : InSegment) : Except Fault (Err × St W) :=
  match s.pcb.state with
  | .SYN_SENT => tcpProcessSynSent app s seg
  | .SYN_RCVD => tcpProcessSynRcvd app s seg
  | .ESTABLISHED | .CLOSE_WAIT | .FIN_WAIT_1 | .FIN_WAIT_2 | .CLOSING | .LAST_ACK => do
    let s ← tcpProcessReceive s seg (tcpProcessAfter s.pcb.state seg)
    .ok (.ok, s)
  | _ => .ok (.ok, s)

/-- `tcp_process` (tcp_in.c:610-836). -/
def tcpProcess (app : App W) (s : St W) (seg : InSegment) : Except Fault (Err × St W) :=
  if seg.flags.rst then .ok (tcpProcessRst s seg)
  else if seg.flags.syn = true ∧ s.pcb.state ≠ .SYN_SENT ∧ s.pcb.state ≠ .SYN_RCVD then
    -- Cope with new connection attempt after remote end crashed
    .ok (.ok, tcpAckNow s)
  else tcpProcessState app (tcpProcessStart s seg) seg

/-! ## `tcp_listen_input` -/

/-- What `tcp_listen_input` makes of the pcb that `tcp_alloc` returns for a SYN (tcp_in.c:514-537). -/
def tcpListenPcb (s : St W) (seg : InSegment) (localPort : ℕ) (serverId : U32) : St W :=
  let s := tcpParseopt { s with
    pcb.localPort := localPort
    pcb.connId := { connid1 := seg.tcphdr.connid1, connid2 := serverId }
    pcb.state := .SYN_RCVD
    pcb.rcvNxt := seg.seqno + 1
    pcb.rcvAnnRightEdge := seg.seqno + 1
    -- initialise to seqno-1 to force window update
    pcb.sndWl1 := seg.seqno - 1
    list := .active
    changed := true } seg
  { s with
    pcb.sndWnd := seg.tcphdr.wnd
    pcb.sndWndMax := seg.tcphdr.wnd
    pcb.ssthresh := seg.tcphdr.wnd }

/-- The answer to the SYN (tcp_in.c:545-551). -/
def tcpListenSynAck (s : St W) : Except Fault (Err × St W) := do
  let (err, s) ← tcpEnqueueFlags s { syn := true, ack := true }
  if err ≠ .ok then
    let s ← tcpAbandon s false
    .ok (err, s)
  else tcpOutput s

/-! ## `tcp_input` -/

/-- The label `aborted` of `tcp_input` (tcp_in.c:429-438). -/
def tcpInputAborted (s : St W) : St W := { s with inputPcb := false, recvData := none }

/-- The pcb is removed and freed (tcp_in.c:307-309 and 341-344), the err callback before it. -/
def tcpInputRemove (s : St W) (err : Option Err) : Except Fault (St W) := do
  let s := match err with
    | some e => s.emit (.err e)
    | none => s
  let s ← tcpPcbRemove s
  .ok (tcpInputAborted s.free)

/-- The EOF part of `tcp_input` (tcp_in.c:398-415): with `true` when the callback aborted. -/
def tcpInputFin (app : App W) (s : St W) : Except Fault (Bool × St W) :=
  if s.recvGotFin then
    match s.pcb.refusedData with
    -- Delay this if we have refused data
    | some (refusedData, _) => .ok (false, { s with pcb.refusedData := some (refusedData, true) })
    | none => do
      let (err, s) ← tcpEventClosed app s
      .ok (decide (err = .abrt), s)
  else .ok (false, s)

/-- The delivery of `recv_data` (tcp_in.c:352-396): with `true` when the pcb is gone. -/
def tcpInputRecv (app : App W) (s : St W) : Except Fault (Bool × St W) :=
  match s.recvData with
  | none => .ok (false, s)
  | some recvData => do
    lwipAssert "pcb->refused_data == NULL" (s.pcb.refusedData = none)
    if s.pcb.tfRxClosed then
      -- received data although already closed -> abort (send RST)
      let s ← tcpAbort s
      .ok (true, s)
    else do
      let (err, s) ← tcpEvent app (.recv (bytes recvData)) s
      if err = .abrt then .ok (true, s)
      else do
        s.live
        if err ≠ .ok then .ok (false, { s with pcb.refusedData := some (recvData, false) })
        else .ok (false, s)

/-- The sent callback (tcp_in.c:315-333). -/
def tcpInputSent (app : App W) (s : St W) : Except Fault (Err × St W) :=
  if s.pcb.acked > 0 then tcpEvent app (.sent s.pcb.acked) s else .ok (.ok, s)

/-- `tcp_input` behind a `tcp_process` that did not reset the connection (tcp_in.c:310-425). -/
def tcpInputEvents (app : App W) (s : St W) : Except Fault (St W) := do
  let (err, s) ← tcpInputSent app s
  if err = .abrt then .ok (tcpInputAborted s)
  else do
    s.live
    if s.recvClosed then
      -- the application is told if it has only shut down the tx side
      tcpInputRemove s (if s.pcb.tfRxClosed then none else some .clsd)
    else do
      let (gone, s) ← tcpInputRecv app s
      if gone then .ok (tcpInputAborted s)
      else do
        let (aborted, s) ← tcpInputFin app s
        if aborted then .ok (tcpInputAborted s)
        else do
          s.live
          let (_, s) ← tcpOutput { s with inputPcb := false }
          .ok (tcpInputAborted s)

/-- The first step of `tcp_input` for the pcb (tcp_in.c:287-296): data that was refused before is
    offered again. With `true` when the segment is dropped. -/
def tcpInputRefused (app : App W) (s : St W) (seg : InSegment) : Except Fault (Bool × St W) :=
  if s.pcb.refusedData ≠ none then do
    let (err, s) ← tcpProcessRefusedData app s
    if err = .abrt then .ok (true, s)
    else do
      s.live
      .ok (decide (s.pcb.refusedData ≠ none ∧ seg.tcplen > 0), s)
  else .ok (false, s)

/-- `recv_data = NULL; recv_flags = 0;` (tcp_in.c:280-281). -/
def St.resetRecv (s : St W) : St W :=
  { s with recvData := none, recvReset := false, recvClosed := false, recvGotFin := false }

/-- `tcp_input` once the pcb is found on the active list (tcp_in.c:274-438). -/
def tcpInput (app : App W) (s : St W) (seg : InSegment) : Except Fault (St W) := do
  let (dropped, s) ← tcpInputRefused app s.resetRecv seg
  if dropped then .ok (tcpInputAborted s)
  else do
    let (err, s) ← tcpProcess app { s with inputPcb := true } seg
    if err = .abrt then .ok (tcpInputAborted s)
    else if s.recvReset then tcpInputRemove s (some .rst)
    else tcpInputEvents app s

/-- `tcp_timewait_input` (tcp_in.c:565-597). -/
def tcpTimewaitInput (s : St W) (seg : InSegment) : Except Fault (St W) :=
  if seg.flags.rst then .ok s
  else if seg.flags.syn = true ∧
      tcpSeqBetween seg.seqno s.pcb.rcvNxt (s.pcb.rcvNxt + u32 s.pcb.rcvWnd) then
    -- If the SYN is in the window it is an error, send a reset
    .ok (tcpRstReply s seg)
  else do
    let s :=
      if seg.flags.syn = false ∧ seg.flags.fin = true then { s with pcb.tmr := s.ticks } else s
    if seg.tcplen > 0 then Prod.snd <$> tcpOutput (tcpAckNow s) else .ok s

end Rudp
