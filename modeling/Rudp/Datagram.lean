import Rudp.Ids

/-!
# Datagrams

`ip_output_if` hands `sendto` the first pbuf of the chain. A segment whose data lies in one pbuf,
behind header and options, goes out whole, and a longer chain is cut behind its first pbuf.

Results:
* `datagrams_complete`: in every run of `rudp_send` in which `tcp_write` chains no pbuf to a segment,
  each datagram holds all the data of its segment.
* `datagrams_complete_fails`: two writes in front of one `tcp_output`.
-/

namespace Rudp

variable {W : Type} {s s' : St W}

/-- The data bytes that `ip_output_if` (test/udp/rudp.c:401) hands to `sendto` behind the header and
    the options: those of the first pbuf. -/
def Packet.sendto (packet : Packet) : List Byte := (packet.p.head?.map (·.payload)).getD []

/-- The datagram holds all the data of the chain. -/
def Out.Complete : Out → Prop
  | .ipOutputIf packet _ _ _ => packet.sendto = bytes packet.p
  | _ => True

/-- `tcp_write` as `rudp_send` calls it (test/udp/rudp.c:385), with no pbuf to chain. -/
def DataCall (c : Core) : Api → Prop
  | .write arg copy more => copy = true ∧ more = false ∧ ¬ c.Chains arg.length
  | _ => True

instance (c : Core) (a : Api) : Decidable (DataCall c a) :=
  match a with
  | .write _ _ _ => inferInstanceAs (Decidable (_ ∧ _ ∧ ¬ _))
  | .connect _ _ | .output | .recved _ | .close | .shutdown _ _ | .abort | .nagle _ => .isTrue trivial

/-- The data of the segment lies in one pbuf. -/
structure OnePbuf (seg : TcpSeg) : Prop where
  single : ∃ q, seg.p = [q]
  len : seg.len = totLen seg.p
  room : seg.len + seg.oversizeLeft ≤ TCP_MSS

theorem OnePbuf.resent {a b : TcpSeg} (h : OnePbuf a) (hr : a.Resent b) : OnePbuf b := by
  obtain ⟨hb, ho⟩ := hr
  have h1 : b.p = a.p := (congrArg TcpSeg.p hb :)
  have h2 : b.len = a.len := (congrArg TcpSeg.len hb :)
  have hroom := h.room
  exact ⟨h1 ▸ h.single, by rw [h1, h2]; exact h.len, by omega⟩

theorem OnePbuf.complete {seg : TcpSeg} (h : OnePbuf seg) : seg.packet.sendto = bytes seg.p := by
  obtain ⟨q, hq⟩ := h.single
  unfold Packet.sendto TcpSeg.packet
  rw [hq]
  simp

/-- The new segments of a copying `tcp_write`. -/
theorem Segmented.onePbuf {id : ConnectId} {mssLocal : ℕ} (hm : mssLocal ≤ TCP_MSS) {seqno : U32}
    {data : List Byte} {q : List TcpSeg} (h : Segmented id true mssLocal seqno data q) :
    ∀ seg ∈ q, OnePbuf seg := by
  induction q generalizing seqno data with
  | nil => simp
  | cons seg rest ih =>
    obtain ⟨-, -, -, -, hl, hroom, -, hq, data', -, hrest⟩ := h
    intro x hx
    rcases List.mem_cons.mp hx with rfl | hx
    · exact ⟨hq rfl, hl, hroom.trans hm⟩
    · exact ih hrest x hx

theorem Fills.onePbuf {last last' : TcpSeg} {ext : List Byte} (h : Fills last last' ext)
    (hl : OnePbuf last) : OnePbuf last' := by
  obtain ⟨q, hq⟩ := hl.single
  have hroom := hl.room
  obtain ⟨h1, h2⟩ := h.spare
  have hlen := h.len (by unfold TCP_MSS at hroom; omega)
  have hc := h.count
  rw [hq] at hc
  refine ⟨List.length_eq_one_iff.mp hc, ?_, by omega⟩
  rw [hlen, hl.len, ← length_bytes, ← length_bytes, h.data (by rw [hq]; simp), List.length_append]

theorem onePbuf_flagSeg (pcb : Pcb) (flags : TcpFlags) : OnePbuf (pcb.flagSeg flags) :=
  ⟨⟨_, rfl⟩, rfl, Nat.zero_le _⟩

/-- Every queued segment lies in one pbuf, and every datagram was complete. -/
structure DataInv (c : Core) : Prop where
  mss : c.mss ≤ TCP_MSS
  segs : ∀ seg ∈ c.segs, OnePbuf seg
  log : ∀ o ∈ c.log, o.Complete

namespace DataInv

variable {c c' : Core}

theorem congr (h : DataInv c) (hmss : c'.mss = c.mss) (hq : ∀ seg ∈ c'.segs, seg ∈ c.segs ∨ OnePbuf seg)
    (hlog : ∀ o ∈ c'.log, o ∈ c.log ∨ o.Complete) : DataInv c' where
  mss := hmss ▸ h.mss
  segs seg hs := (hq seg hs).elim (h.segs seg) id
  log o ho := (hlog o ho).elim (h.log o) id

theorem moves (h : DataInv c) (hm : Moves c c') : DataInv c' where
  mss := hm.mss ▸ h.mss
  segs seg hs := by
    obtain ⟨seg₀, h₀, hr⟩ := hm.segs seg hs
    exact (h.segs seg₀ h₀).resent hr
  log o ho := by
    rcases hm.log o ho with ho | ⟨seg, sent, ⟨seg₀, h₀, hr⟩, rfl⟩
    · exact h.log o ho
    · exact ((h.segs seg₀ h₀).resent hr).complete

theorem emit {o : Out} (hI : DataInv s.core) (ho : o.Silent) : DataInv (s.emit o).core := by
  rw [core_emit ho]
  refine hI.congr rfl (fun _ h => .inl h) fun x hx => ?_
  rcases List.mem_append.mp hx with hx | hx
  · exact .inl hx
  · obtain rfl := List.mem_singleton.mp hx
    cases x with
    | ipOutputIf p b st id => exact ho.elim
    | _ => exact .inr trivial

/-- Queueing changes `unsent` only. -/
theorem queues (hI : DataInv s.core) (hs : SameConn s.core s'.core)
    (hq : ∀ seg ∈ s'.pcb.unsent, seg ∈ s.pcb.unsent ∨ OnePbuf seg) : DataInv s'.core := by
  refine hI.congr hs.mss (fun seg h => ?_) fun o ho => .inl (hs.log ▸ ho)
  rcases List.mem_append.mp h with h | h
  · rcases hq seg h with h | h
    · exact .inl (List.mem_append_left _ h)
    · exact .inr h
  · exact .inl (List.mem_append_right _ (hs.unacked ▸ h))

theorem write {arg : List Byte} {copy more : Bool} {err : Err} (hI : DataInv s.core)
    (hP : DataCall s.core (.write arg copy more)) (h : tcpWrite s arg copy more = .ok (err, s')) :
    DataInv s'.core := by
  obtain ⟨rfl, -, hn⟩ := hP
  refine hI.queues (tcpWrite_queues h).sameConn fun seg hs => ?_
  rcases tcpWrite_spec hI.mss h with ⟨-, -, -, -, e | ⟨-, -, -, -, -, hc⟩⟩ | ⟨-, -, -, -, ext, queue, hw⟩
  · exact .inl (e ▸ hs)
  · exact absurd hc hn
  · obtain ⟨rest, -, hseg⟩ := hw.data
    have hnew := hseg.onePbuf (mssLocalOf_le.trans hI.mss)
    rcases hw.unsent with ⟨-, -, e'⟩ | ⟨init, last, last', e, e', -, -, hf⟩
    · exact .inr (hnew seg (e' ▸ hs))
    · have hl : OnePbuf last :=
        hI.segs last (List.mem_append_left _ (show last ∈ s.pcb.unsent by rw [e]; simp))
      rw [e'] at hs
      rw [e]
      simp only [List.mem_append, List.mem_cons, List.not_mem_nil, or_false] at hs ⊢
      rcases hs with hs | rfl | hs
      · exact .inl (.inl hs)
      · exact .inr ((hf hn).onePbuf hl)
      · exact .inr (hnew seg hs)

theorem fin {err : Err} (hI : DataInv s.core) (h : tcpSendFin s = .ok (err, s')) :
    DataInv s'.core := by
  refine hI.queues (tcpSendFin_queues h).sameConn fun seg hs => ?_
  rcases tcpSendFin_spec h with ⟨-, -, -, -, e⟩ | ⟨-, -, ⟨init, last, e, -, e', -⟩ | ⟨e', -⟩⟩
  · exact .inl (e ▸ hs)
  · have hl : OnePbuf last :=
      hI.segs last (List.mem_append_left _ (show last ∈ s.pcb.unsent by rw [e]; simp))
    rw [e'] at hs
    rw [e]
    rcases List.mem_append.mp hs with hs | hs
    · exact .inl (List.mem_append_left _ hs)
    · obtain rfl := List.mem_singleton.mp hs
      exact .inr ⟨hl.single, hl.len, hl.room⟩
  · rw [e'] at hs
    rcases List.mem_append.mp hs with hs | hs
    · exact .inl hs
    · obtain rfl := List.mem_singleton.mp hs
      exact .inr (onePbuf_flagSeg _ _)

theorem enqueueFlags {flags : TcpFlags} {err : Err} (hI : DataInv s.core)
    (h : tcpEnqueueFlags s flags = .ok (err, s')) : DataInv s'.core := by
  refine hI.queues (tcpEnqueueFlags_queues h).sameConn fun seg hs => ?_
  rcases tcpEnqueueFlags_spec h with ⟨-, -, -, -, e⟩ | ⟨-, -, -, -, -, e⟩
  · exact .inl (e ▸ hs)
  · rw [e] at hs
    rcases List.mem_append.mp hs with hs | hs
    · exact .inl hs
    · obtain rfl := List.mem_singleton.mp hs
      exact .inr (onePbuf_flagSeg _ _)

theorem connect {newPort : ℕ} {iss : U32} {err : Err} (hI : DataInv s.core)
    (h : tcpConnectSyn s newPort iss = .ok (err, s')) : DataInv s'.core := by
  obtain ⟨-, ⟨-, ht, hp⟩ | ⟨port, -, s₁, h₁, ht, hp⟩⟩ := tcpConnectSyn_spec h
  · have hc : s'.core = s.core := by
      simp only [St.core, St.sndView, ht, hp]
    rw [hc]
    exact hI
  · have hI₀ : DataInv ({ s with pcb := s.pcb.connecting port iss } : St W).core :=
      ⟨le_rfl, hI.segs, hI.log⟩
    have hI₁ := hI₀.enqueueFlags h₁
    have hl : s'.core.log = s₁.core.log := congrArg (List.filter fun o : Out => !o.isCtl) ht
    refine ⟨?_, ?_, hl ▸ hI₁.log⟩
    · show s'.pcb.mss ≤ _
      rw [hp]
      split <;> exact hI₁.mss
    · show ∀ seg ∈ s'.pcb.unsent ++ s'.pcb.unacked, OnePbuf seg
      rw [hp]
      split <;> exact hI₁.segs

theorem process {seg : InSegment} {after : St W → St W} (hI : DataInv s.core)
    (hafter : ∀ t, Settles t.core (after t).core)
    (h : tcpProcessReceive s seg after = .ok s') : DataInv s'.core := by
  obtain ⟨c, s₁, hm, hv, -, c', hs, o, ho, -, hc⟩ := processReceive_core hafter h
  have hIc := hI.moves hm
  have e2 : s₁.core.mss = c.mss := congrArg SndView.mss hv
  have e3 : s₁.core.unsent = c.unsent := congrArg SndView.unsent hv
  have e4 : s₁.core.unacked = c.unacked := congrArg SndView.unacked hv
  have e5 : s₁.core.log = c.log := congrArg SndView.log hv
  rw [hc]
  refine hIc.congr (hs.mss.trans e2) (fun x hx => .inl ?_) fun x hx => ?_
  · change x ∈ c'.unsent ++ c'.unacked at hx
    rcases hs.queues with ⟨h1, h2⟩ | ⟨h1, h2, -⟩
    · rw [h1, h2, e3, e4] at hx
      exact hx
    · rw [h1, h2] at hx
      cases hx
  · rcases List.mem_append.mp hx with hx | hx
    · exact .inl (e5 ▸ hs.log ▸ hx)
    · obtain rfl := List.mem_singleton.mp hx
      cases x with
      | ipOutputIf p b st id => exact ho.elim
      | _ => exact .inr trivial

end DataInv

theorem preserved_dataInv : Preserved DataCall (fun _ _ => True) fun s : St W => DataInv s.core where
  frame hI he _ := by
    rw [he]
    exact hI
  callback ho hI := hI.emit (Out.silent_of_isCallback ho)
  connect _ hr hI := hI.connect hr
  write hP hr hI := by
    have h := hI.write hP hr
    split
    · exact h.emit (Out.silent_wrote _)
    · exact h
  recved _ _ hI := ⟨hI.mss, hI.segs, hI.log⟩
  fin _ _ _ hr hI := by
    have h := hI.fin hr
    split
    · exact ⟨h.mss, h.segs, h.log⟩
    · exact h
  output hr hI := hI.moves (moves_tcpOutput hr)
  rexmitRto hr hI := hI.moves (moves_tcpRexmitRto hr)
  probe {s} hI := by
    obtain ⟨log, hc, hlog⟩ := probe_core s
    rw [hc]
    refine hI.congr rfl (fun _ h => .inl h) fun o ho => ?_
    rcases hlog o ho with ho | ⟨seg, -, sent, rfl⟩
    · exact .inl ho
    · right
      show (s.pcb.probePacket seg).sendto = bytes (s.pcb.probePacket seg).p
      unfold Pcb.probePacket
      split <;> rfl
  rexmit {s} _ hI := hI.moves (moves_tcpRexmit s)
  rcvWndFin {s} hI := by
    unfold Rudp.rcvWndFin
    split
    · exact ⟨hI.mss, hI.segs, hI.log⟩
    · exact hI
  mss _ h1 hI := ⟨h1, hI.segs, hI.log⟩
  establish {s _ _ rest} _ hq _ _ hI := by
    refine hI.congr rfl (fun seg h => .inl ?_) fun _ h => .inl h
    change seg ∈ s.pcb.unsent ++ rest at h
    show seg ∈ s.pcb.unsent ++ s.pcb.unacked
    rw [hq]
    rcases List.mem_append.mp h with h | h
    · exact List.mem_append_left _ h
    · exact List.mem_append_right _ (List.mem_cons_of_mem _ h)
  accept _ _ hI := ⟨hI.mss, hI.segs, hI.log⟩
  receive _ _ hr hI := hI.process (settles_tcpProcessAfter _ _) hr
  receiveAccept _ _ _ _ _ _ hr hI := hI.process settles_tcpProcessAcceptAfter hr
  purge {s} _ hI := by
    unfold tcpPcbPurge
    split
    · exact ⟨hI.mss, fun _ h => (List.not_mem_nil h).elim, hI.log⟩
    · exact hI
  timeWait _ _ _ _ _ _ hI := ⟨hI.mss, hI.segs, hI.log⟩
  closed _ _ _ _ hI := ⟨hI.mss, hI.segs, hI.log⟩
  clear _ _ hI := ⟨hI.mss, fun _ h => (List.not_mem_nil h).elim, hI.log⟩
  ooseq hI := ⟨hI.mss, hI.segs, hI.log⟩

theorem Out.complete_of_isCtl {o : Out} (h : o.isCtl = true) : o.Complete := by
  cases o with
  | ipOutputIf packet sent st id =>
    simp only [Out.isCtl, Packet.isCtl, Bool.and_eq_true, decide_eq_true_eq] at h
    show packet.sendto = bytes packet.p
    unfold Packet.sendto
    rw [h.1.1.1.1]
    rfl
  | _ => trivial

theorem Fresh.dataInv {s₀ : St W} (h : Fresh s₀) : DataInv s₀.core := by
  have hk : Kept DataCall (fun _ _ => True) (fun _ _ => True) (fun _ s => .ok (.ok, s))
      fun s : St W => DataInv s.core := preserved_dataInv.toKept
  refine hk.fresh (fun s hs => ?_) (fun {s s' err} seg localPort serverId hs hr => ?_) h
  · obtain ⟨⟨prio, iss, ticks, port, hp⟩, ht⟩ := hs
    refine ⟨?_, fun seg h => ?_, fun o ho => ?_⟩
    · show s.pcb.mss ≤ _
      rw [hp]
      exact le_rfl
    · change seg ∈ s.pcb.unsent ++ s.pcb.unacked at h
      rw [hp] at h
      cases h
    · rw [show s.core.log = s.trace.filter _ from rfl, ht] at ho
      cases ho
  · obtain ⟨ht, prio, iss, ticks, mss, -, hl, hp⟩ := tcpListenPcb_spec hs seg localPort serverId
    refine DataInv.enqueueFlags ⟨?_, fun x h => ?_, fun o ho => ?_⟩ hr
    · show (tcpListenPcb s seg localPort serverId).pcb.mss ≤ _
      rw [hp]
      exact hl
    · change x ∈ (tcpListenPcb s seg localPort serverId).pcb.unsent ++
        (tcpListenPcb s seg localPort serverId).pcb.unacked at h
      rw [hp] at h
      cases h
    · rw [show (tcpListenPcb s seg localPort serverId).core.log =
        (tcpListenPcb s seg localPort serverId).trace.filter _ from rfl, ht] at ho
      cases ho

/-- In every run in which `tcp_write` chains no pbuf, each datagram holds the data of its segment,
    and the data of a segment are `seg->len` bytes. -/
theorem datagrams_complete {app : App W} {s₀ : St W} (happ : AppOk DataCall app) (h₀ : Fresh s₀)
    (hr : Run.Reach (connStep app) (Preserved.StepOk DataCall (fun _ _ => True) app) s₀ s) :
    (∀ o ∈ s.trace, o.Complete) ∧
      ∀ seg ∈ s.pcb.unsent ++ s.pcb.unacked, seg.packet.sendto.length = seg.len := by
  have hI : DataInv s.core := preserved_dataInv.reach happ h₀.dataInv hr
  refine ⟨fun o ho => ?_, fun seg hs => ?_⟩
  · by_cases hc : o.isCtl = true
    · exact Out.complete_of_isCtl hc
    · exact hI.log o (List.mem_filter.mpr ⟨ho, by simpa using hc⟩)
  · have h := hI.segs seg hs
    rw [h.complete, length_bytes, h.len]

/-! ### Two runs -/

theorem datagrams_complete_connected : ∃ s, Run.exec (connStep idleApp) client
    [connectOp, synAckOp TCP_WND, writeOp, outputOp] = .ok s ∧ (∀ o ∈ s.trace, o.Complete) ∧
      ∀ seg ∈ s.pcb.unsent ++ s.pcb.unacked, seg.packet.sendto.length = seg.len := by
  refine ⟨_, rfl, datagrams_complete appOk_idleApp fresh_client
    (.step outputOp (.step writeOp (.step (synAckOp TCP_WND) (.step connectOp .refl trivial rfl)
      (fun _ _ => trivial) rfl) ⟨rfl, rfl, ?_⟩ rfl) trivial rfl)⟩
  rintro ⟨last, h, -⟩
  cases h

/-- The second of two writes of one byte is chained to the first, and its byte does not leave. -/
theorem datagrams_complete_fails : ∃ s : St Unit, AppOk (fun _ _ => True) idleApp ∧ Fresh client ∧
    Run.exec (connStep idleApp) client
      [connectOp, synAckOp TCP_WND, writeOp, writeOp, outputOp] = .ok s ∧
      ∃ o ∈ s.trace, ¬ o.Complete := by
  refine ⟨_, appOk_idleApp, fresh_client, rfl, _, List.mem_of_getElem? (i := 5) rfl, fun h => ?_⟩
  exact absurd (congrArg List.length h) (by decide)

end Rudp
