import Rudp.Micro
import Rudp.Atomic

/-!
# `rudp_send`

`rudp_send` takes a `size_t` and hands it to `tcp_write`, whose `len` is a `u16_t`. A run of
`rudp_send` calls keeps a ledger: what the caller was told has been accepted, and what `tcp_write`
put on the queue.

Results:
* `tcpWrite_payload`: `tcp_write` queues all of its argument or nothing.
* `sendRun_of_reach`: every run of a connection keeps a ledger.
* `send_all_or_nothing`: the two sides of the ledger agree as long as no buffer has 65536 bytes.
* `send_all_or_nothing_fails`: a buffer of 65536 bytes is accepted, and nothing is queued.
-/

namespace Rudp

variable {W : Type} {s s' s₀ : St W}

open Relation (ReflTransGen)

/-! ## The function -/

/-- The value of an `err_t` (err.h). -/
def Err.num : Err → ℤ
  | ok => 0 | mem => -1 | buf => -2 | timeout => -3 | rte => -4 | inProgress => -5 | val => -6
  | wouldBlock => -7 | use => -8 | already => -9 | isConn => -10 | conn => -11 | abrt => -12
  | rst => -13 | clsd => -14 | arg => -15 | netif => -16

theorem Err.num_eq_zero {err : Err} : err.num = 0 ↔ err = .ok := by
  cases err <;> decide

/-- `rudp_send` (test/udp/rudp.c:378-386), with `fd->is_closing`. The `size_t` becomes the `u16_t` of
    `tcp_write`. A write that is accepted is logged. -/
def rudpSend (isClosing : Bool) (s : St W) (buf : List Byte) : Except Fault (ℤ × St W) :=
  if isClosing then .ok (-1, s)
  else do
    let arg := buf.take (u16 buf.length)
    let (err, s) ← tcpWrite s arg true false
    .ok (err.num, if err = .ok then s.emit (.wrote arg) else s)

/-- The length fits into the `u16_t`. -/
def Short (buf : List Byte) : Prop := buf.length < 65536

instance (buf : List Byte) : Decidable (Short buf) :=
  inferInstanceAs (Decidable (buf.length < 65536))

theorem Short.take {buf : List Byte} (h : Short buf) : buf.take (u16 buf.length) = buf := by
  rw [u16_of_lt h, List.take_length]

/-! ## The ledger -/

/-- What the callers of `rudp_send` were told has been accepted, and what was queued. -/
structure Ledger where
  accepted : List Byte
  queued : List Byte

/-- The bytes of `q'` behind those of `q`. -/
def newBytes (q q' : List TcpSeg) : List Byte := (payload q').drop (payload q).length

theorem newBytes_of_eq {q q' : List TcpSeg} {data : List Byte}
    (h : payload q' = payload q ++ data) : newBytes q q' = data := by
  unfold newBytes
  rw [h, List.drop_left]

/-- The ledger behind a call. -/
def Ledger.record (l : Ledger) (s s' : St W) (buf : List Byte) (ret : ℤ) : Ledger where
  accepted := l.accepted ++ (if ret = 0 then buf else [])
  queued := l.queued ++ newBytes s.pcb.unsent s'.pcb.unsent

/-- What is written is written by `rudp_send`. -/
def NoWrite (_ : Core) : Api → Prop
  | .write .. => False
  | _ => True

/-- A run: calls of `rudp_send` whose buffers meet `C`, and whatever else the stack and the
    application do in between. -/
inductive SendRun (C : List Byte → Prop) (s₀ : St W) : Ledger → St W → Prop
  | start : SendRun C s₀ ⟨[], []⟩ s₀
  | send {l : Ledger} {s s' : St W} {isClosing : Bool} {buf : List Byte} {ret : ℤ} :
    SendRun C s₀ l s → C buf → rudpSend isClosing s buf = .ok (ret, s') →
      SendRun C s₀ (l.record s s' buf ret) s'
  | turn {l : Ledger} {s s' : St W} :
    SendRun C s₀ l s → Micro NoWrite (fun _ _ => True) s s' → SendRun C s₀ l s'

/-- A call that returns 0 queues the buffer behind what is queued, any other call queues nothing, and
    a buffer for which there is no room is refused. -/
structure AllOrNothing (s s' : St W) (buf : List Byte) (ret : ℤ) : Prop where
  accepted : ret = 0 → payload s'.pcb.unsent = payload s.pcb.unsent ++ buf
  refused : ret ≠ 0 → payload s'.pcb.unsent = payload s.pcb.unsent
  room : s.pcb.sndBuf < buf.length → ret ≠ 0
  sent : s'.pcb.unacked = s.pcb.unacked

/-! ## Every segment has a pbuf -/

/-- A segment without a pbuf has no place for the bytes that `tcp_write` adds. -/
structure PbufInv (c : Core) : Prop where
  mss : 0 < c.mss ∧ c.mss ≤ TCP_MSS
  segs : ∀ seg ∈ c.segs, seg.p ≠ []

/-- The new segments of `tcp_write`. -/
theorem Segmented.ne_nil {id : ConnectId} {copy : Bool} {mssLocal : ℕ} (hm : 0 < mssLocal)
    {seqno : U32} {data : List Byte} {q : List TcpSeg} (h : Segmented id copy mssLocal seqno data q) :
    ∀ seg ∈ q, seg.p ≠ [] := by
  induction q generalizing seqno data with
  | nil => simp
  | cons seg rest ih =>
    obtain ⟨-, -, -, -, hl, -, hpos, -, data', -, hrest⟩ := h
    intro x hx
    rcases List.mem_cons.mp hx with rfl | hx
    · intro hnil
      have h0 := hpos hm
      rw [hl, hnil] at h0
      exact absurd h0 (lt_irrefl 0)
    · exact ih hrest x hx

namespace PbufInv

variable {c c' : Core}

theorem congr (h : PbufInv c) (hmss : c'.mss = c.mss)
    (hq : ∀ seg ∈ c'.segs, seg ∈ c.segs ∨ seg.p ≠ []) : PbufInv c' where
  mss := hmss ▸ h.mss
  segs seg hs := (hq seg hs).elim (h.segs seg) id

theorem moves (h : PbufInv c) (hm : Moves c c') : PbufInv c' where
  mss := hm.mss ▸ h.mss
  segs := by
    intro seg hs
    obtain ⟨seg₀, h₀, hr, -⟩ := hm.segs seg hs
    have hp : seg.p = seg₀.p := (congrArg TcpSeg.p hr :)
    rw [hp]
    exact h.segs seg₀ h₀

theorem emit {o : Out} (hI : PbufInv s.core) (ho : o.Silent) : PbufInv (s.emit o).core := by
  rw [core_emit ho]
  exact ⟨hI.mss, hI.segs⟩

/-- Queueing changes `unsent` only. -/
theorem queues (hI : PbufInv s.core) (hs : SameConn s.core s'.core)
    (hq : ∀ seg ∈ s'.pcb.unsent, seg ∈ s.pcb.unsent ∨ seg.p ≠ []) : PbufInv s'.core := by
  apply hI.congr hs.mss
  intro seg hm
  rcases List.mem_append.mp hm with hm | hm
  · exact (hq seg hm).imp_left (List.mem_append_left _)
  · exact .inl (List.mem_append_right _ (hs.unacked ▸ hm))

/-- The last segment of `unsent`. -/
theorem last (hI : PbufInv s.core) {init : List TcpSeg} {last : TcpSeg}
    (hu : s.pcb.unsent = init ++ [last]) : last.p ≠ [] := by
  apply hI.segs last
  apply List.mem_append_left
  show last ∈ s.pcb.unsent
  rw [hu]
  simp

/-- The last segment of `unsent` is replaced, and others are put behind it. -/
theorem replace (hI : PbufInv s.core) (hs : SameConn s.core s'.core) {init queue : List TcpSeg}
    {last last' : TcpSeg} (hu : s.pcb.unsent = init ++ [last])
    (hu' : s'.pcb.unsent = init ++ last' :: queue) (hl : last'.p ≠ [])
    (hq : ∀ seg ∈ queue, seg.p ≠ []) : PbufInv s'.core := by
  apply hI.queues hs
  intro seg hm
  rw [hu'] at hm
  rw [hu]
  simp only [List.mem_append, List.mem_cons, List.not_mem_nil, or_false] at hm ⊢
  rcases hm with hm | rfl | hm
  · exact .inl (.inl hm)
  · exact .inr hl
  · exact .inr (hq seg hm)

theorem write {arg : List Byte} {copy more : Bool} {err : Err} (hI : PbufInv s.core)
    (h : tcpWrite s arg copy more = .ok (err, s')) : PbufInv s'.core := by
  have hs := (tcpWrite_queues h).sameConn
  rcases tcpWrite_spec hI.mss.2 h with ⟨-, -, -, -, e | ⟨init, last, bump, e, e', -⟩⟩ |
    ⟨-, -, -, -, ext, queue, hw⟩
  · apply hI.queues hs
    intro seg hm
    exact .inl (e ▸ hm)
  · have hl : last.p ≠ [] := hI.last e
    exact hI.replace hs e e' hl (by simp)
  · obtain ⟨rest, -, hseg⟩ := hw.data
    have hnew := hseg.ne_nil (mssLocalOf_pos hI.mss.1)
    rcases hw.unsent with ⟨-, -, e'⟩ | ⟨init, last, last', e, e', hx, -, -⟩
    · apply hI.queues hs
      intro seg hm
      exact .inr (hnew seg (e' ▸ hm))
    · exact hI.replace hs e e' (hx.chain (hI.last e)) hnew

theorem fin {err : Err} (hI : PbufInv s.core) (h : tcpSendFin s = .ok (err, s')) :
    PbufInv s'.core := by
  have hs := (tcpSendFin_queues h).sameConn
  rcases tcpSendFin_spec h with ⟨-, -, -, -, e⟩ | ⟨-, -, ⟨init, last, e, -, e', -⟩ | ⟨e', -⟩⟩
  · apply hI.queues hs
    intro seg hm
    exact .inl (e ▸ hm)
  · have hl : last.p ≠ [] := hI.last e
    exact hI.replace hs e e' hl (by simp)
  · apply hI.queues hs
    intro seg hm
    rw [e'] at hm
    rcases List.mem_append.mp hm with hm | hm
    · exact .inl hm
    · obtain rfl := List.mem_singleton.mp hm
      exact .inr (List.cons_ne_nil _ _)

theorem enqueueFlags {flags : TcpFlags} {err : Err} (hI : PbufInv s.core)
    (h : tcpEnqueueFlags s flags = .ok (err, s')) : PbufInv s'.core := by
  apply hI.queues (tcpEnqueueFlags_queues h).sameConn
  intro seg hm
  rcases tcpEnqueueFlags_spec h with ⟨-, -, -, -, e⟩ | ⟨-, -, -, -, -, e⟩
  · exact .inl (e ▸ hm)
  · rw [e] at hm
    rcases List.mem_append.mp hm with hm | hm
    · exact .inl hm
    · obtain rfl := List.mem_singleton.mp hm
      exact .inr (List.cons_ne_nil _ _)

theorem connect {newPort : ℕ} {iss : U32} {err : Err} (hI : PbufInv s.core)
    (h : tcpConnectSyn s newPort iss = .ok (err, s')) : PbufInv s'.core := by
  obtain ⟨-, ⟨-, ht, hp⟩ | ⟨port, -, s₁, h₁, ht, hp⟩⟩ := tcpConnectSyn_spec h
  · have hc : s'.core = s.core := by
      simp only [St.core, St.sndView, ht, hp]
    rw [hc]
    exact hI
  · have hI₀ : PbufInv ({ s with pcb := s.pcb.connecting port iss } : St W).core :=
      ⟨⟨Nat.succ_pos 535, le_rfl⟩, hI.segs⟩
    have hI₁ := hI₀.enqueueFlags h₁
    constructor
    · show 0 < s'.pcb.mss ∧ s'.pcb.mss ≤ _
      rw [hp]
      split <;> exact hI₁.mss
    · show ∀ seg ∈ s'.pcb.unsent ++ s'.pcb.unacked, seg.p ≠ []
      rw [hp]
      split <;> exact hI₁.segs

theorem process {seg : InSegment} {after : St W → St W} (hI : PbufInv s.core)
    (hafter : ∀ t, Settles t.core (after t).core)
    (h : tcpProcessReceive s seg after = .ok s') : PbufInv s'.core := by
  obtain ⟨c, s₁, hm, hv, -, c', hs, o, -, -, hc⟩ := processReceive_core hafter h
  have e2 : s₁.core.mss = c.mss := congrArg SndView.mss hv
  have e3 : s₁.core.unsent = c.unsent := congrArg SndView.unsent hv
  have e4 : s₁.core.unacked = c.unacked := congrArg SndView.unacked hv
  rw [hc]
  refine (hI.moves hm).congr (hs.mss.trans e2) fun x hx => .inl ?_
  change x ∈ c'.unsent ++ c'.unacked at hx
  rcases hs.queues with ⟨h1, h2⟩ | ⟨h1, h2, -⟩
  · rw [h1, h2, e3, e4] at hx
    exact hx
  · rw [h1, h2] at hx
    cases hx

end PbufInv

variable {P : Core → Api → Prop} {Q : Core → InSegment → Prop}

theorem preserved_pbufInv : Preserved P Q fun s : St W => PbufInv s.core where
  frame hI he _ := by
    rw [he]
    exact hI
  callback ho hI := hI.emit (Out.silent_of_isCallback ho)
  connect _ hr hI := hI.connect hr
  write _ hr hI := by
    have h := hI.write hr
    split
    · exact h.emit (Out.silent_wrote _)
    · exact h
  recved _ _ hI := ⟨hI.mss, hI.segs⟩
  fin _ _ _ hr hI := by
    have h := hI.fin hr
    split
    · exact ⟨h.mss, h.segs⟩
    · exact h
  output hr hI := hI.moves (moves_tcpOutput hr)
  rexmitRto hr hI := hI.moves (moves_tcpRexmitRto hr)
  probe {s} hI := by
    obtain ⟨log, hc, -⟩ := probe_core s
    rw [hc]
    exact ⟨hI.mss, hI.segs⟩
  rexmit {s} _ hI := hI.moves (moves_tcpRexmit s)
  rcvWndFin {s} hI := by
    unfold Rudp.rcvWndFin
    split
    · exact ⟨hI.mss, hI.segs⟩
    · exact hI
  mss h0 h1 hI := ⟨⟨h0, h1⟩, hI.segs⟩
  establish {s _ _ rest} _ hq _ _ hI := by
    refine hI.congr rfl fun seg h => .inl ?_
    change seg ∈ s.pcb.unsent ++ rest at h
    show seg ∈ s.pcb.unsent ++ s.pcb.unacked
    rw [hq]
    rcases List.mem_append.mp h with h | h
    · exact List.mem_append_left _ h
    · exact List.mem_append_right _ (List.mem_cons_of_mem _ h)
  accept _ _ hI := ⟨hI.mss, hI.segs⟩
  receive _ _ hr hI := hI.process (settles_tcpProcessAfter _ _) hr
  receiveAccept _ _ _ _ _ _ hr hI := hI.process settles_tcpProcessAcceptAfter hr
  purge {s} _ hI := by
    unfold tcpPcbPurge
    split
    · exact ⟨hI.mss, fun _ h => (List.not_mem_nil h).elim⟩
    · exact hI
  timeWait _ _ _ _ _ _ hI := ⟨hI.mss, hI.segs⟩
  closed _ _ _ _ hI := ⟨hI.mss, hI.segs⟩
  clear _ _ hI := ⟨hI.mss, fun _ h => (List.not_mem_nil h).elim⟩
  ooseq hI := ⟨hI.mss, hI.segs⟩

theorem Fresh.pbufInv (h : Fresh s₀) : PbufInv s₀.core := by
  have hk : Kept (fun _ _ => True) (fun _ _ => True) (fun _ _ => True) (fun _ s => .ok (.ok, s))
      fun s : St W => PbufInv s.core :=
    (preserved_pbufInv (Q := fun _ _ => True)).toKept
  refine hk.fresh (fun s hs => ?_) (fun {s s' err} seg localPort serverId hs hr => ?_) h
  · obtain ⟨⟨prio, iss, ticks, port, hp⟩, -⟩ := hs
    constructor
    · show 0 < s.pcb.mss ∧ s.pcb.mss ≤ _
      rw [hp]
      exact ⟨Nat.succ_pos 535, le_rfl⟩
    · intro seg h
      change seg ∈ s.pcb.unsent ++ s.pcb.unacked at h
      rw [hp] at h
      cases h
  · obtain ⟨-, prio, iss, ticks, mss, h0, hl, hp⟩ := tcpListenPcb_spec hs seg localPort serverId
    refine PbufInv.enqueueFlags ⟨?_, fun x h => ?_⟩ hr
    · show 0 < (tcpListenPcb s seg localPort serverId).pcb.mss ∧
        (tcpListenPcb s seg localPort serverId).pcb.mss ≤ _
      rw [hp]
      exact ⟨h0, hl⟩
    · change x ∈ (tcpListenPcb s seg localPort serverId).pcb.unsent ++
        (tcpListenPcb s seg localPort serverId).pcb.unacked at h
      rw [hp] at h
      cases h

/-! ## One call -/

/-- `tcp_write` queues all of its argument or nothing. -/
theorem tcpWrite_payload {arg : List Byte} {copy more : Bool} {err : Err} (hI : PbufInv s.core)
    (h : tcpWrite s arg copy more = .ok (err, s')) :
    (err = .ok ∧ arg.length ≤ s.pcb.sndBuf ∧
        payload s'.pcb.unsent = payload s.pcb.unsent ++ arg) ∨
      (err ≠ .ok ∧ payload s'.pcb.unsent = payload s.pcb.unsent) := by
  rcases tcpWrite_spec hI.mss.2 h with ⟨hne, -, -, -, e | ⟨init, last, bump, e, e', -⟩⟩ |
    ⟨hok, hlen, -, -, ext, queue, hw⟩
  · exact .inr ⟨hne, congrArg payload e⟩
  · refine .inr ⟨hne, ?_⟩
    rw [e, e', payload_append, payload_append]
    rfl
  · refine .inl ⟨hok, hlen, ?_⟩
    obtain ⟨rest, rfl, hseg⟩ := hw.data
    have hrest := hseg.contiguous.2
    rcases hw.unsent with ⟨e, rfl, e'⟩ | ⟨init, last, last', e, e', hx, -, -⟩
    · rw [e, e', hrest]
      rfl
    · rw [e, e', payload_append, payload_append, payload_cons, payload_cons, hrest,
        hx.data (hI.last e), payload_nil, List.append_nil, List.append_assoc, List.append_assoc]

/-- What a call does to the queue: it queues what is left of the buffer in the `u16_t`. -/
theorem rudpSend_spec {isClosing : Bool} {buf : List Byte} {ret : ℤ} (hI : PbufInv s.core)
    (h : rudpSend isClosing s buf = .ok (ret, s')) :
    PbufInv s'.core ∧ s'.pcb.unacked = s.pcb.unacked ∧
      ((ret = 0 ∧ u16 buf.length ≤ s.pcb.sndBuf ∧
          payload s'.pcb.unsent = payload s.pcb.unsent ++ buf.take (u16 buf.length)) ∨
        (ret ≠ 0 ∧ payload s'.pcb.unsent = payload s.pcb.unsent)) := by
  unfold rudpSend at h
  split at h
  · cases h
    exact ⟨hI, rfl, .inr ⟨by decide, rfl⟩⟩
  · obtain ⟨⟨err, s₁⟩, h₁, h⟩ := Run.bind_eq_ok.mp h
    have hu : s₁.pcb.unacked = s.pcb.unacked := (tcpWrite_queues h₁).sameConn.unacked
    have hI₁ := hI.write h₁
    have hlen : (buf.take (u16 buf.length)).length = u16 buf.length := by
      rw [List.length_take]
      exact min_eq_left (Nat.mod_le _ _)
    have hp : (if err = .ok then s₁.emit (.wrote (buf.take (u16 buf.length))) else s₁).pcb =
        s₁.pcb := by
      split <;> rfl
    have hI₂ : PbufInv (if err = .ok then s₁.emit (.wrote (buf.take (u16 buf.length)))
        else s₁).core := by
      split
      · exact hI₁.emit (Out.silent_wrote _)
      · exact hI₁
    cases h
    rw [hp]
    refine ⟨hI₂, hu, ?_⟩
    rcases tcpWrite_payload hI h₁ with ⟨hok, hroom, he⟩ | ⟨hne, he⟩
    · exact .inl ⟨Err.num_eq_zero.mpr hok, hlen ▸ hroom, he⟩
    · exact .inr ⟨fun h0 => hne (Err.num_eq_zero.mp h0), he⟩

/-- A buffer whose length fits is taken as a whole. -/
theorem rudpSend_allOrNothing {isClosing : Bool} {buf : List Byte} {ret : ℤ} (hI : PbufInv s.core)
    (hC : Short buf) (h : rudpSend isClosing s buf = .ok (ret, s')) : AllOrNothing s s' buf ret := by
  obtain ⟨-, hu, hr⟩ := rudpSend_spec hI h
  rw [hC.take, u16_of_lt hC] at hr
  rcases hr with ⟨h0, hroom, he⟩ | ⟨h0, he⟩
  · exact ⟨fun _ => he, fun hne => absurd h0 hne, fun hlt => absurd hroom (not_le.mpr hlt), hu⟩
  · exact ⟨fun e => absurd e h0, fun _ => he, fun _ => h0, hu⟩

/-- A longer one that is accepted is cut. -/
theorem rudpSend_cuts {isClosing : Bool} {buf : List Byte} (hI : PbufInv s.core)
    (hC : ¬ Short buf) (h : rudpSend isClosing s buf = .ok (0, s')) :
    ¬ AllOrNothing s s' buf 0 := by
  intro ha
  obtain ⟨-, -, ⟨-, -, he⟩ | ⟨hne, -⟩⟩ := rudpSend_spec hI h
  · have hb := List.append_cancel_left (he.symm.trans (ha.accepted rfl))
    have hlen := congrArg List.length hb
    rw [List.length_take, u16] at hlen
    unfold Short at hC
    omega
  · exact hne rfl

/-! ## Runs -/

/-- Every queued segment has a pbuf, in every run. -/
theorem SendRun.pbufInv {C : List Byte → Prop} {l : Ledger} (hr : SendRun C s₀ l s)
    (h₀ : PbufInv s₀.core) : PbufInv s.core := by
  induction hr with
  | start => exact h₀
  | send _ _ h ih => exact (rudpSend_spec ih h).1
  | turn _ hm ih =>
    apply hm.keeps preserved_pbufInv _ ih
    intro s s' seg _ hr hI
    exact hI.process settles_tcpProcessAcceptAfter hr

/-- The two sides of the ledger agree. -/
theorem SendRun.balanced {l : Ledger} (hr : SendRun Short s₀ l s) (h₀ : PbufInv s₀.core) :
    l.queued = l.accepted := by
  induction hr with
  | start => rfl
  | turn _ _ ih => exact ih
  | @send l s s' isClosing buf ret hrun hC h ih =>
    have ha := rudpSend_allOrNothing (hrun.pbufInv h₀) hC h
    show l.queued ++ _ = l.accepted ++ _
    rw [ih]
    by_cases h0 : ret = 0
    · rw [if_pos h0, newBytes_of_eq (ha.accepted h0)]
    · rw [if_neg h0, newBytes_of_eq ((ha.refused h0).trans (List.append_nil _).symm)]

/-! ### Runs of a connection -/

/-- What an application of the rudp layer writes, in a callback or outside. -/
def RudpCall (_ : Core) : Api → Prop
  | .write arg copy more => copy = true ∧ more = false ∧ Short arg
  | _ => True

/-- A turn is a `rudp_send` or none. -/
theorem Micro.send_or_turn (hm : Micro RudpCall Q s s') :
    (∃ arg ret, Short arg ∧ rudpSend false s arg = .ok (ret, s')) ∨ Micro NoWrite Q s s' := by
  cases hm with
  | @write s₁ arg copy more err hP hw =>
    obtain ⟨rfl, rfl, hC⟩ := hP
    left
    refine ⟨arg, err.num, hC, ?_⟩
    unfold rudpSend
    rw [if_neg Bool.false_ne_true, hC.take]
    exact Run.bind_eq_ok.mpr ⟨_, hw, rfl⟩
  | fin _ ha hst hr =>
    right
    exact .fin (a := .close) trivial (.inl rfl) hst hr
  | connect _ hr => exact .inr (.connect trivial hr)
  | recved _ hw => exact .inr (.recved trivial hw)
  | frame hc hl => exact .inr (.frame hc hl)
  | callback ho => exact .inr (.callback ho)
  | output hr => exact .inr (.output hr)
  | rexmit hst => exact .inr (.rexmit hst)
  | rcvWndFin => exact .inr .rcvWndFin
  | mss h0 hl => exact .inr (.mss h0 hl)
  | establish hst hu hq ha => exact .inr (.establish hst hu hq ha)
  | accept hst hb => exact .inr (.accept hst hb)
  | receive hs hQ hr => exact .inr (.receive hs hQ hr)
  | receiveAccept hQ hr => exact .inr (.receiveAccept hQ hr)
  | purge hl => exact .inr (.purge hl)
  | timeWait hr hl hst hu hk ho => exact .inr (.timeWait hr hl hst hu hk ho)
  | closed hl hu hk ho => exact .inr (.closed hl hu hk ho)
  | clear hl hst => exact .inr (.clear hl hst)
  | ooseq => exact .inr .ooseq
  | rexmitRto hr => exact .inr (.rexmitRto hr)
  | probe => exact .inr .probe

/-- Every run of a connection keeps a ledger. -/
theorem sendRun_of_reach {app : App W} (happ : AppOk RudpCall app)
    (hr : Run.Reach (connStep app) (Preserved.StepOk RudpCall (fun _ _ => True) app) s₀ s) :
    ∃ l, SendRun Short s₀ l s := by
  replace hr := micro_of_reach happ hr
  induction hr with
  | refl => exact ⟨_, .start⟩
  | tail _ hm ih =>
    obtain ⟨l, hl⟩ := ih
    rcases hm.send_or_turn with ⟨arg, ret, hC, h⟩ | hm
    · exact ⟨_, hl.send hC h⟩
    · exact ⟨l, hl.turn hm⟩

/-! ## All or nothing -/

/-- In every run of `rudp_send` calls with buffers whose length fits into the `u16_t`, whatever the
    stack and the application do in between: what is queued is what was accepted, and each further
    such call queues all of its buffer or nothing. Of a longer buffer that is accepted a part is
    missing. -/
theorem send_all_or_nothing {l : Ledger} (h₀ : Fresh s₀) (hr : SendRun Short s₀ l s) :
    l.queued = l.accepted ∧ ∀ isClosing buf ret s', rudpSend isClosing s buf = .ok (ret, s') →
      (Short buf → AllOrNothing s s' buf ret) ∧
        (¬ Short buf → ret = 0 → ¬ AllOrNothing s s' buf ret) := by
  refine ⟨hr.balanced h₀.pbufInv, fun isClosing buf ret s' h => ?_⟩
  have hI := hr.pbufInv h₀.pbufInv
  refine ⟨fun hC => rudpSend_allOrNothing hI hC h, fun hC h0 => ?_⟩
  subst h0
  exact rudpSend_cuts hI hC h

/-- The client behind its `tcp_connect`, with the SYN queued. -/
def synSent : St Unit :=
  match tcpConnectSyn client 4000 1000 with
  | .ok (_, s) => s
  | .error _ => client

theorem sendRun_synSent {C : List Byte → Prop} : SendRun C client ⟨[], []⟩ synSent :=
  have h : tcpConnectSyn client 4000 1000 = .ok (.ok, synSent) := rfl
  .turn .start (.connect trivial h)

/-- Two buffers are accepted in `SYN_SENT`. -/
theorem send_all_or_nothing_synSent : ∃ s s' : St Unit, rudpSend false synSent [7] = .ok (0, s) ∧
    rudpSend false s [8, 9] = .ok (0, s') ∧ AllOrNothing s s' [8, 9] 0 := by
  have h : rudpSend false synSent [7] = .ok (0, _) := rfl
  have hC : Short [7] := by decide
  have hrun := sendRun_synSent.send hC h
  refine ⟨_, _, rfl, rfl, ?_⟩
  exact ((send_all_or_nothing fresh_client hrun).2 false [8, 9] 0 _ rfl).1
    (by decide)

/-- `rudp_send` returns 0 for a buffer of 65536 bytes, and no byte is queued. -/
theorem send_all_or_nothing_fails : ∃ (l : Ledger) (s : St Unit), Fresh client ∧
    SendRun (fun _ => True) client l s ∧ l.accepted = List.replicate 65536 0 ∧ l.queued = [] := by
  have htake : (List.replicate 65536 (0 : Byte)).take
      (u16 (List.replicate 65536 (0 : Byte)).length) = [] := by
    rw [List.length_replicate]
    rfl
  obtain ⟨s, hw, hp, hp'⟩ : ∃ s, tcpWrite synSent [] true false = .ok (.ok, s) ∧
    payload synSent.pcb.unsent = [] ∧ payload s.pcb.unsent = [] := ⟨_, rfl, rfl, rfl⟩
  have h : rudpSend false synSent (List.replicate 65536 0) = .ok (0, s.emit (.wrote [])) := by
    unfold rudpSend
    rw [if_neg Bool.false_ne_true, htake]
    exact Run.bind_eq_ok.mpr ⟨_, hw, rfl⟩
  refine ⟨_, _, fresh_client, sendRun_synSent.send trivial h, ?_, ?_⟩
  · show [] ++ (if (0 : ℤ) = 0 then _ else _) = _
    rw [if_pos rfl, List.nil_append]
  · show [] ++ (payload s.pcb.unsent).drop _ = []
    rw [hp']
    simp

end Rudp
