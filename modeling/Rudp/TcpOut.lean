import Rudp.State

/-!
# `src/tcp_out.c`

The functions that create, queue and transmit segments. Each keeps the name it has in the source.
`tcp_seg` lists are Lean lists, head first; a loop over a list is a recursion over it.
-/

namespace Rudp

variable {W : Type}

/-- `ip_output_if` (test/udp/rudp.c:388-407): `sendto` succeeds or fails. -/
def ipOutputIf (s : St W) (packet : Packet) : Err × St W :=
  let (fail, s) := s.pop
  let s := s.emit (.ipOutputIf packet (!fail) s.pcb.state s.pcb.connId)
  (if fail then .mem else .ok, s)

/-- `tcp_output_alloc_header` (tcp_out.c:106-128); `none` when `pbuf_alloc` fails. -/
def tcpOutputAllocHeader (s : St W) (seqno : U32) : Option TcpHdr × St W :=
  let (fail, s) := s.pop
  if fail then (none, s)
  else
    let tcphdr : TcpHdr :=
      { connid1 := s.pcb.connId.connid1, connid2 := s.pcb.connId.connid2, seqno := seqno,
        ackno := s.pcb.rcvNxt, hdrlen := 5, flags := { ack := true }, wnd := s.pcb.rcvAnnWnd }
    -- If we're sending a packet, update the announced right window edge
    (some tcphdr, { s with pcb.rcvAnnRightEdge := s.pcb.rcvNxt + u32 s.pcb.rcvAnnWnd })

/-- `tcp_create_segment` (tcp_out.c:169-211). `pbuf_header(p, TCP_HLEN)` cannot fail: every caller
    allocates at layer `PBUF_TRANSPORT`, which leaves 20 bytes of headroom. -/
def tcpCreateSegment (s : St W) (p : List Pbuf) (flags : TcpFlags) (seqno : U32) (optsMss : Bool) :
    Option TcpSeg × St W :=
  let (fail, s) := s.pop
  if fail then (none, s)
  else
    let tcphdr : TcpHdr :=
      { connid1 := s.pcb.connId.connid1, connid2 := s.pcb.connId.connid2, seqno := seqno,
        ackno := 0, hdrlen := if optsMss then 6 else 5, flags := flags, wnd := 0 }
    (some { p := p, len := u16 (totLen p), optsMss := optsMss, tcphdr := tcphdr }, s)

/-- `tcp_pbuf_prealloc` (tcp_out.c:228-275) for the bytes `data`. The spare bytes of the result are
    what the function stores in `*oversize`. -/
def tcpPbufPrealloc (s : St W) (data : List Byte) (maxLength : ℕ) (more firstSeg : Bool) :
    Option Pbuf × St W :=
  let length := data.length
  let alloc :=
    if length < maxLength ∧
        (more = true ∨ (s.pcb.tfNoDelay = false ∧
          (firstSeg = false ∨ s.pcb.unsent ≠ [] ∨ s.pcb.unacked ≠ []))) then
      min maxLength (length + TCP_OVERSIZE)
    else length
  let (fail, s) := s.pop
  if fail then (none, s) else (some { payload := data, spare := alloc - length }, s)

/-- `tcp_write_checks` (tcp_out.c:304-346). -/
def tcpWriteChecks (s : St W) (len : ℕ) : Except Fault (Err × St W) :=
  if s.pcb.state ≠ .ESTABLISHED ∧ s.pcb.state ≠ .CLOSE_WAIT ∧ s.pcb.state ≠ .SYN_SENT ∧
      s.pcb.state ≠ .SYN_RCVD then .ok (.conn, s)
  else if len = 0 then .ok (.ok, s)
  else if len > s.pcb.sndBuf then .ok (.mem, { s with pcb.tfNagleMemErr := true })
  else if s.pcb.sndQueuelen ≥ TCP_SND_QUEUELEN ∨ s.pcb.sndQueuelen > TCP_SNDQUEUELEN_OVERFLOW then
    .ok (.mem, { s with pcb.tfNagleMemErr := true })
  else if s.pcb.sndQueuelen ≠ 0 then do
    lwipAssert "tcp_write: pbufs on queue => at least one queue non-empty"
      (s.pcb.unacked ≠ [] ∨ s.pcb.unsent ≠ [])
    .ok (.ok, s)
  else do
    lwipAssert "tcp_write: no pbufs on queue => both queues empty"
      (s.pcb.unacked = [] ∧ s.pcb.unsent = [])
    .ok (.ok, s)

/-- Apply `f` to the last element of a queue. -/
def modifyLast {α : Type} (f : α → α) : List α → List α
  | [] => []
  | [x] => [f x]
  | x :: y :: l => x :: modifyLast f (y :: l)

/-- The `memerr` exit of `tcp_write` (tcp_out.c:718-734). -/
def tcpWriteMemerr (s : St W) : Except Fault (Err × St W) := do
  lwipAssert "tcp_write: valid queue length"
    (s.pcb.sndQueuelen ≠ 0 → s.pcb.unacked ≠ [] ∨ s.pcb.unsent ≠ [])
  .ok (.mem, { s with pcb.tfNagleMemErr := true })

/-- What phases 1 and 2 of `tcp_write` (tcp_out.c:416-531) hand to the later phases: the bytes that
    go into the spare room of the last unsent segment, the pbuf to chain to it, and the running
    values of `oversize`, `queuelen` and whether `seg` is `last_unsent`. -/
structure TailPlan where
  oversizeUsed : ℕ := 0
  concatP : Option Pbuf := none
  oversize : ℕ := 0
  queuelen : ℕ
  touched : Bool := false

/-- How many bytes `tcp_write` has placed after phases 1 and 2. -/
def TailPlan.pos (t : TailPlan) : ℕ := t.oversizeUsed + ((t.concatP.map (·.payload.length)).getD 0)

/-- Phases 1 and 2 of `tcp_write` (tcp_out.c:416-538); `none` is the jump to `memerr`. -/
def tcpWriteTail (s : St W) (arg : List Byte) (copy more : Bool) (mssLocal : ℕ) :
    Except Fault (Option TailPlan × St W) :=
  match s.pcb.unsent.getLast? with
  | none => do
    lwipAssert "unsent_oversize mismatch (pcb->unsent is NULL)" (s.pcb.unsentOversize = 0)
    .ok (some { queuelen := s.pcb.sndQueuelen }, s)
  | some lastUnsent => do
    lwipAssert "mss_local is too small" (mssLocal ≥ lastUnsent.len + lastUnsent.optlen)
    let space := mssLocal - (lastUnsent.len + lastUnsent.optlen)
    lwipAssert "unsent_oversize mismatch (pcb vs. last_unsent)"
      (s.pcb.unsentOversize = lastUnsent.oversizeLeft)
    -- Phase 1: copy data directly into an oversized pbuf
    let oversizeUsed := min s.pcb.unsentOversize arg.length
    let oversize := s.pcb.unsentOversize - oversizeUsed
    let space := u16 (space + 65536 - oversizeUsed)
    let touched := decide (s.pcb.unsentOversize > 0)
    lwipAssert "inconsistend oversize vs. len" (oversize = 0 ∨ oversizeUsed = arg.length)
    -- Phase 2: chain a new pbuf to the end of pcb->unsent
    if oversizeUsed < arg.length ∧ space > 0 ∧ lastUnsent.len > 0 then
      let data := (arg.drop oversizeUsed).take space
      if copy then
        match tcpPbufPrealloc s data space more true with
        | (none, s) => .ok (none, s)
        | (some concatP, s) =>
          -- oversize_left is bumped before it is known whether the write goes through
          let s := { s with
            pcb.unsent := modifyLast
              (fun seg => { seg with oversizeLeft := u16 (seg.oversizeLeft + concatP.spare) })
              s.pcb.unsent }
          .ok (some { oversizeUsed := oversizeUsed, concatP := some concatP,
                      oversize := concatP.spare, queuelen := u16 (s.pcb.sndQueuelen + 1),
                      touched := true }, s)
      else
        let (fail, s) := s.pop
        if fail then .ok (none, s)
        else
          .ok (some { oversizeUsed := oversizeUsed, concatP := some { payload := data },
                      oversize := oversize, queuelen := u16 (s.pcb.sndQueuelen + 1),
                      touched := true }, s)
    else
      .ok (some { oversizeUsed := oversizeUsed, oversize := oversize,
                  queuelen := s.pcb.sndQueuelen, touched := touched }, s)

/-- The pbuf chain of one new segment of phase 3 (tcp_out.c:553-601) and the new value of
    `oversize`; `none` is the jump to `memerr`. -/
def tcpWriteChain (s : St W) (data : List Byte) (copy more : Bool) (mssLocal oversize : ℕ)
    (firstSeg : Bool) : Except Fault (Option (List Pbuf × ℕ) × St W) :=
  if copy then
    match tcpPbufPrealloc s data mssLocal more firstSeg with
    | (none, s) => .ok (none, s)
    | (some p, s) => .ok (some ([p], p.spare), s)
  else do
    lwipAssert "oversize == 0" (oversize = 0)
    let (fail, s) := s.pop
    if fail then .ok (none, s)
    else
      let (fail, s) := s.pop
      if fail then .ok (none, s)
      else .ok (some ([{ payload := [] }, { payload := data }], oversize), s)

/-- Phase 3 of `tcp_write` (tcp_out.c:546-650): new segments for `arg` from `pos` on. Every turn
    adds at least one pbuf to `queuelen`, and a turn that would bring it above `TCP_SND_QUEUELEN`
    takes the `memerr` exit, so `fuel = TCP_SND_QUEUELEN + 1` turns are never used up. -/
def tcpWriteQueue (arg : List Byte) (copy more : Bool) (mssLocal : ℕ) :
    ℕ → St W → (pos oversize queuelen : ℕ) → (queue : List TcpSeg) →
      Except Fault (Option (ℕ × ℕ × List TcpSeg) × St W)
  | 0, s, _, _, _, _ => .ok (none, s)
  | fuel + 1, s, pos, oversize, queuelen, queue =>
    if pos < arg.length then do
      let data := (arg.drop pos).take mssLocal
      match ← tcpWriteChain s data copy more mssLocal oversize queue.isEmpty with
      | (none, s) => .ok (none, s)
      | (some (p, oversize), s) =>
        let queuelen := u16 (queuelen + pbufClen p)
        if queuelen > TCP_SND_QUEUELEN ∨ queuelen > TCP_SNDQUEUELEN_OVERFLOW then .ok (none, s)
        else
          match tcpCreateSegment s p {} (s.pcb.sndLbb + u32 pos) false with
          | (none, s) => .ok (none, s)
          | (some seg, s) =>
            tcpWriteQueue arg copy more mssLocal fuel s (pos + data.length) oversize queuelen
              (queue ++ [{ seg with oversizeLeft := oversize }])
    else .ok (some (oversize, queuelen, queue), s)

/-- The commit of phase 1 (tcp_out.c:600-618): the bytes go behind the last pbuf of the chain. -/
def commitOversize (used : List Byte) (seg : TcpSeg) : TcpSeg :=
  { seg with
    p := modifyLast
      (fun q => { payload := q.payload ++ used, spare := q.spare - used.length }) seg.p
    len := u16 (seg.len + used.length)
    oversizeLeft := seg.oversizeLeft - used.length }

/-- The commit of phase 2 (tcp_out.c:625-641): `pbuf_cat(last_unsent->p, concat_p)`. -/
def commitConcat (concatP : Pbuf) (seg : TcpSeg) : TcpSeg :=
  { seg with p := seg.p ++ [concatP], len := u16 (seg.len + concatP.payload.length) }

/-- `TCPH_SET_FLAG(seg->tcphdr, TCP_PSH)`. -/
def TcpSeg.setPsh (seg : TcpSeg) : TcpSeg := { seg with tcphdr.flags.psh := true }

/-- `TCPH_SET_FLAG(seg->tcphdr, TCP_FIN)`. -/
def TcpSeg.setFin (seg : TcpSeg) : TcpSeg := { seg with tcphdr.flags.fin := true }

/-- The commit of `tcp_write` (tcp_out.c:652-716). -/
def tcpWriteCommit (s : St W) (arg : List Byte) (more : Bool) (t : TailPlan) (oversize queuelen : ℕ)
    (queue : List TcpSeg) : Except Fault (Err × St W) := do
  lwipAssert "last_unsent->oversize_left >= oversize_used"
    (t.oversizeUsed > 0 → ∀ seg ∈ s.pcb.unsent.getLast?, seg.oversizeLeft ≥ t.oversizeUsed)
  let unsent :=
    if t.oversizeUsed > 0 then modifyLast (commitOversize (arg.take t.oversizeUsed)) s.pcb.unsent
    else s.pcb.unsent
  let unsent :=
    match t.concatP with
    | some concatP => modifyLast (commitConcat concatP) unsent
    | none => unsent
  let unsent := unsent ++ queue
  let s := { s with
    pcb.unsentOversize := oversize
    pcb.unsent := unsent
    pcb.sndLbb := s.pcb.sndLbb + u32 arg.length
    pcb.sndBuf := u16 (s.pcb.sndBuf + 65536 - arg.length)
    pcb.sndQueuelen := queuelen }
  lwipAssert "tcp_write: valid queue length"
    (s.pcb.sndQueuelen ≠ 0 → s.pcb.unacked ≠ [] ∨ s.pcb.unsent ≠ [])
  -- Set the PSH flag in the last segment that we enqueued
  if more = false ∧ (t.touched = true ∨ queue ≠ []) then
    .ok (.ok, { s with pcb.unsent := modifyLast TcpSeg.setPsh s.pcb.unsent })
  else .ok (.ok, s)

/-- The segment size `tcp_write` uses (tcp_out.c:379-381): at most half the largest window the peer
    ever announced. -/
def mssLocalOf (pcb : Pcb) : ℕ :=
  let mssLocal := min pcb.mss (pcb.sndWndMax / 2)
  if mssLocal = 0 then pcb.mss else mssLocal

/-- `tcp_write` (tcp_out.c:364-734). `copy` and `more` are the two `apiflags`. -/
def tcpWrite (s : St W) (arg : List Byte) (copy more : Bool) : Except Fault (Err × St W) := do
  let mssLocal := mssLocalOf s.pcb
  let (err, s) ← tcpWriteChecks s arg.length
  if err ≠ .ok then .ok (err, s)
  else
    match ← tcpWriteTail s arg copy more mssLocal with
    | (none, s) => tcpWriteMemerr s
    | (some t, s) =>
      match ← tcpWriteQueue arg copy more mssLocal (TCP_SND_QUEUELEN + 1) s t.pos t.oversize
        t.queuelen [] with
      | (none, s) => tcpWriteMemerr s
      | (some (oversize, queuelen, queue), s) => tcpWriteCommit s arg more t oversize queuelen queue

/-- `tcp_enqueue_flags` (tcp_out.c:746-854). -/
def tcpEnqueueFlags (s : St W) (flags : TcpFlags) : Except Fault (Err × St W) := do
  lwipAssert "tcp_enqueue_flags: need either TCP_SYN or TCP_FIN in flags (programmer violates API)"
    (flags.syn = true ∨ flags.fin = true)
  if (s.pcb.sndQueuelen ≥ TCP_SND_QUEUELEN ∨ s.pcb.sndQueuelen > TCP_SNDQUEUELEN_OVERFLOW) ∧
      flags.fin = false then
    .ok (.mem, { s with pcb.tfNagleMemErr := true })
  else
    let optsMss := flags.syn
    if s.pcb.sndBuf = 0 then .ok (.mem, s)
    else
      let (fail, s) := s.pop
      if fail then .ok (.mem, { s with pcb.tfNagleMemErr := true })
      else
        match tcpCreateSegment s [{ payload := [] }] flags s.pcb.sndLbb optsMss with
        | (none, s) => .ok (.mem, { s with pcb.tfNagleMemErr := true })
        | (some seg, s) =>
          let s := { s with
            pcb.unsent := s.pcb.unsent ++ [seg]
            pcb.unsentOversize := 0
            -- SYN and FIN bump the sequence number
            pcb.sndLbb := s.pcb.sndLbb + 1
            pcb.sndBuf := s.pcb.sndBuf - 1
            pcb.tfFin := s.pcb.tfFin || flags.fin
            pcb.sndQueuelen := u16 (s.pcb.sndQueuelen + pbufClen seg.p) }
          lwipAssert "tcp_enqueue_flags: invalid queue length"
            (s.pcb.sndQueuelen = 0 ∨ s.pcb.unacked ≠ [] ∨ s.pcb.unsent ≠ [])
          .ok (.ok, s)

/-- No SYN, FIN or RST flag in the header. -/
def TcpFlags.plain (f : TcpFlags) : Bool := !f.syn && !f.fin && !f.rst

/-- `tcp_send_fin` (tcp_out.c:135-153): the FIN goes into the last unsent segment if it can. -/
def tcpSendFin (s : St W) : Except Fault (Err × St W) :=
  match s.pcb.unsent.getLast? with
  | some lastUnsent =>
    if lastUnsent.tcphdr.flags.plain then
      .ok (.ok, { s with
        pcb.unsent := modifyLast TcpSeg.setFin s.pcb.unsent
        pcb.tfFin := true })
    else tcpEnqueueFlags s { fin := true }
  | none => tcpEnqueueFlags s { fin := true }

/-- `tcp_send_empty_ack` (tcp_out.c:889-939). -/
def tcpSendEmptyAck (s : St W) : Err × St W :=
  match tcpOutputAllocHeader s s.pcb.sndNxt with
  | (none, s) => (.buf, { s with pcb.tfAckDelay := true, pcb.tfAckNow := true })
  | (some tcphdr, s) =>
    let (err, s) := ipOutputIf s { tcphdr := tcphdr, p := [{ payload := [] }] }
    if err ≠ .ok then (err, { s with pcb.tfAckDelay := true, pcb.tfAckNow := true })
    else (err, { s with pcb.tfAckDelay := false, pcb.tfAckNow := false })

/-- `TCP_BUILD_MSS_OPTION(TCP_MSS)` as the four bytes on the wire. -/
def mssOption : List Byte := [2, 4, UInt8.ofNat (TCP_MSS / 256), UInt8.ofNat (TCP_MSS % 256)]

/-- The header `tcp_output_segment` sends (tcp_out.c:1118-1132). -/
def TcpSeg.stamp (seg : TcpSeg) (pcb : Pcb) : TcpSeg :=
  { seg with tcphdr.ackno := pcb.rcvNxt, tcphdr.wnd := pcb.rcvAnnWnd }

/-- `tcp_output_segment` (tcp_out.c:1109-1195), with the segment as it is left behind. -/
def tcpOutputSegment (s : St W) (seg : TcpSeg) : Err × TcpSeg × St W :=
  let seg := seg.stamp s.pcb
  let s := { s with pcb.rcvAnnRightEdge := s.pcb.rcvNxt + u32 s.pcb.rcvAnnWnd }
  let options := if seg.optsMss then mssOption else []
  let s := if s.pcb.rtime = -1 then { s with pcb.rtime := 0 } else s
  let s :=
    if s.pcb.rttest = 0 then { s with pcb.rttest := s.ticks, pcb.rtseq := seg.tcphdr.seqno } else s
  let (err, s) := ipOutputIf s { tcphdr := seg.tcphdr, options := options, p := seg.p }
  (err, seg, s)

/-- `tcp_do_output_nagle` (tcp_impl.h:92-99): may a segment be sent now? -/
def tcpDoOutputNagle (pcb : Pcb) : Bool :=
  decide (pcb.unacked = []) || pcb.tfNoDelay || pcb.tfInfr ||
    (match pcb.unsent with
     | [] => false
     | seg :: rest => !rest.isEmpty || decide (seg.len ≥ pcb.mss)) ||
    decide (pcb.sndBuf = 0) || decide (pcb.sndQueuelen ≥ TCP_SND_QUEUELEN)

/-- The list walk of `tcp_output` (tcp_out.c:1074-1079) and `tcp_rexmit` (tcp_out.c:1316-1322): `seg`
    goes before the first segment that is not before it. -/
def insertSeg (seg : TcpSeg) : List TcpSeg → List TcpSeg
  | [] => [seg]
  | cur :: rest =>
    if tcpSeqLt cur.tcphdr.seqno seg.tcphdr.seqno then cur :: insertSeg seg rest
    else seg :: cur :: rest

/-- Put a transmitted segment on `unacked` (tcp_out.c:1061-1086). `useg` is the last segment of the
    list throughout the loop of `tcp_output`. -/
def putUnacked (seg : TcpSeg) (unacked : List TcpSeg) : List TcpSeg :=
  match unacked.getLast? with
  | none => [seg]
  | some useg =>
    if tcpSeqLt seg.tcphdr.seqno useg.tcphdr.seqno then insertSeg seg unacked
    else unacked ++ [seg]

/-- The part of the loop body of `tcp_output` behind a successful transmission of the head of
    `unsent` (tcp_out.c:1051-1090). -/
def tcpOutputSent (s : St W) (seg : TcpSeg) (rest : List TcpSeg) : St W :=
  let s := { s with pcb.unsent := rest }
  let s :=
    if s.pcb.state ≠ .SYN_SENT then { s with pcb.tfAckDelay := false, pcb.tfAckNow := false } else s
  let sndNxt := seg.tcphdr.seqno + u32 seg.tcplen
  let s := if tcpSeqLt s.pcb.sndNxt sndNxt then { s with pcb.sndNxt := sndNxt } else s
  if seg.tcplen > 0 then { s with pcb.unacked := putUnacked seg s.pcb.unacked } else s

/-- Does the send window allow `seg`? (tcp_out.c:984 and 1014) -/
def fitsWindow (pcb : Pcb) (seg : TcpSeg) : Prop :=
  (seg.tcphdr.seqno - pcb.lastack + u32 seg.len).toNat ≤ min pcb.sndWnd pcb.cwnd

instance (pcb : Pcb) (seg : TcpSeg) : Decidable (fitsWindow pcb seg) :=
  inferInstanceAs (Decidable (_ ≤ _))

/-- The header changes of `tcp_output` before a transmission (tcp_out.c:1038-1044). -/
def TcpSeg.prepare (seg : TcpSeg) (pcb : Pcb) : TcpSeg :=
  { seg with
    oversizeLeft := 0
    tcphdr.flags.ack := seg.tcphdr.flags.ack || decide (pcb.state ≠ .SYN_SENT) }

/-- The `while` loop of `tcp_output` (tcp_out.c:1013-1091) over `unsent`, the value of
    `pcb->unsent` on entry of each turn. `wnd` does not change during the loop. -/
def tcpOutputLoop : (unsent : List TcpSeg) → St W → Except Fault (Err × St W)
  | [], s => .ok (.ok, s)
  | seg :: rest, s =>
    if fitsWindow s.pcb seg then do
      lwipAssert "RST not expected here!" (seg.tcphdr.flags.rst = false)
      if tcpDoOutputNagle s.pcb = false ∧ s.pcb.tfNagleMemErr = false ∧ s.pcb.tfFin = false then
        .ok (.ok, s)
      else
        match tcpOutputSegment s (seg.prepare s.pcb) with
        | (err, seg, s) =>
          if err ≠ .ok then
            .ok (err, { s with pcb.unsent := seg :: rest, pcb.tfNagleMemErr := true })
          else tcpOutputLoop rest (tcpOutputSent s seg rest)
    else .ok (.ok, s)

/-- `tcp_output` (tcp_out.c:948-1101). -/
def tcpOutput (s : St W) : Except Fault (Err × St W) :=
  if s.inputPcb then .ok (.ok, s)
  else if s.pcb.tfAckNow = true ∧ (∀ seg ∈ s.pcb.unsent.head?, ¬ fitsWindow s.pcb seg) then
    .ok (tcpSendEmptyAck s)
  else do
    let (err, s) ← tcpOutputLoop s.pcb.unsent s
    if err ≠ .ok then .ok (err, s)
    else
      let s := if s.pcb.unsent = [] then { s with pcb.unsentOversize := 0 } else s
      .ok (.ok, { s with pcb.tfNagleMemErr := false })

/-- `tcp_rst` (tcp_out.c:1217-1250). -/
def tcpRst (s : St W) (seqno ackno : U32) (connId : ConnectId) : St W :=
  let (fail, s) := s.pop
  if fail then s
  else
    let tcphdr : TcpHdr :=
      { connid1 := connId.connid1, connid2 := connId.connid2, seqno := seqno, ackno := ackno,
        hdrlen := 5, flags := { rst := true, ack := true }, wnd := TCP_WND }
    (ipOutputIf s { tcphdr := tcphdr, p := [{ payload := [] }] }).2

/-- `tcp_rexmit_rto` (tcp_out.c:1259-1291): all of `unacked` goes back in front of `unsent`. -/
def tcpRexmitRto (s : St W) : Except Fault (St W) :=
  match s.pcb.unacked.getLast? with
  | none => .ok s
  | some seg => do
    let s := { s with
      pcb.unsentOversize := if s.pcb.unsent = [] then seg.oversizeLeft else s.pcb.unsentOversize
      pcb.unsent := s.pcb.unacked ++ s.pcb.unsent
      pcb.unacked := []
      pcb.nrtx := u8 (s.pcb.nrtx + 1)
      pcb.rttest := 0 }
    let (_, s) ← tcpOutput s
    .ok s

/-- `tcp_rexmit` (tcp_out.c:1300-1336): the first unacked segment goes back to `unsent`. -/
def tcpRexmit (s : St W) : St W :=
  match s.pcb.unacked with
  | [] => s
  | seg :: rest =>
    let unsent := insertSeg seg s.pcb.unsent
    { s with
      pcb.unacked := rest
      pcb.unsent := unsent
      pcb.unsentOversize :=
        -- seg->next == NULL: the retransmitted segment is last in unsent
        if (∀ cur ∈ s.pcb.unsent, tcpSeqLt cur.tcphdr.seqno seg.tcphdr.seqno) then 0
        else s.pcb.unsentOversize
      pcb.nrtx := u8 (s.pcb.nrtx + 1)
      pcb.rttest := 0 }

/-- `tcp_rexmit_fast` (tcp_out.c:1344-1382). -/
def tcpRexmitFast (s : St W) : St W :=
  if s.pcb.unacked ≠ [] ∧ s.pcb.tfInfr = false then
    let s := tcpRexmit s
    let ssthresh := if s.pcb.cwnd > s.pcb.sndWnd then s.pcb.sndWnd / 2 else s.pcb.cwnd / 2
    -- The minimum value for ssthresh should be 2 MSS
    let ssthresh := if ssthresh < 2 * s.pcb.mss then u16 (2 * s.pcb.mss) else ssthresh
    { s with
      pcb.ssthresh := ssthresh
      pcb.cwnd := u16 (ssthresh + 3 * s.pcb.mss)
      pcb.tfInfr := true }
  else s

/-- `tcp_keepalive` (tcp_out.c:1394-1421). -/
def tcpKeepalive (s : St W) : Err × St W :=
  match tcpOutputAllocHeader s (s.pcb.sndNxt - 1) with
  | (none, s) => (.mem, s)
  | (some tcphdr, s) => ipOutputIf s { tcphdr := tcphdr, p := [{ payload := [] }] }

/-- `tcp_zero_window_probe` (tcp_out.c:1432-1495). `pbuf_copy_partial` copies the first data byte of
    the segment, or leaves the allocated byte as it is (written as `0`) when the segment has none. -/
def tcpZeroWindowProbe (s : St W) : Err × St W :=
  match s.pcb.unacked.head?.or s.pcb.unsent.head? with
  | none => (.ok, s)
  | some seg =>
    let isFin := seg.tcphdr.flags.fin && decide (seg.len = 0)
    match tcpOutputAllocHeader s seg.tcphdr.seqno with
    | (none, s) => (.mem, s)
    | (some tcphdr, s) =>
      if isFin then
        ipOutputIf s { tcphdr := { tcphdr with flags := { ack := true, fin := true } },
                       p := [{ payload := [] }] }
      else
        let d := (bytes seg.p).headD 0
        ipOutputIf s { tcphdr := tcphdr, p := [{ payload := [d] }] }

end Rudp
