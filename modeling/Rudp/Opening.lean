import Rudp.Write

/-!
# How a connection is opened

`tcp_connect` and `tcp_listen_input` make a pcb with the SYN on `unsent` and call `tcp_output`.
`Opening` is the state in between.

Results:
* `Begun.opening`: an open connection begins with `tcp_output` in such a state.
-/

namespace Rudp

variable {W : Type} {s s' : St W}

/-- The SYN is queued and nothing has been sent. -/
structure Opening (s : St W) : Prop where
  trace : s.trace = []
  state : s.pcb.state = .SYN_SENT ∨ s.pcb.state = .SYN_RCVD
  unacked : s.pcb.unacked = []
  unsent : ∃ seg, s.pcb.unsent = [seg] ∧ seg.tcphdr.seqno = s.pcb.lastack ∧ seg.len = 0 ∧
    seg.p = [{ payload := [] }] ∧ seg.optsMss = true ∧ seg.oversizeLeft = 0 ∧
    seg.tcphdr.flags = { syn := true, ack := decide (s.pcb.state = .SYN_RCVD) }
  sndLbb : s.pcb.sndLbb = s.pcb.lastack + 1
  sndNxt : s.pcb.sndNxt = s.pcb.lastack + (if s.pcb.state = .SYN_SENT then 1 else 0)
  sndBuf : s.pcb.sndBuf = TCP_SND_BUF - 1
  sndQueuelen : s.pcb.sndQueuelen = 1
  tfFin : s.pcb.tfFin = false
  acked : s.pcb.acked = 0
  mss : 0 < s.pcb.mss ∧ s.pcb.mss ≤ TCP_MSS
  rcvWnd : s.pcb.rcvWnd = TCP_WND
  rcvAnnWnd : s.pcb.rcvAnnWnd = TCP_WND
  rcvAnnRightEdge : s.pcb.rcvAnnRightEdge = s.pcb.rcvNxt
  ooseq : s.pcb.ooseq = []
  refusedData : s.pcb.refusedData = none
  persistBackoff : s.pcb.persistBackoff = 0
  dupacks : s.pcb.dupacks = 0

/-- The SYN of an idle pcb is queued. -/
theorem Opening.of_enqueue {t : St W} {flags : TcpFlags} (st : TcpState) (ht : s.trace = [])
    (hst : st = .SYN_SENT ∨ st = .SYN_RCVD)
    (hfl : flags = { syn := true, ack := decide (st = .SYN_RCVD) })
    (hq : s.pcb.unsent = [] ∧ s.pcb.unacked = [] ∧ s.pcb.ooseq = [] ∧ s.pcb.refusedData = none)
    (hs : s.pcb.sndLbb = s.pcb.lastack ∧
      s.pcb.sndNxt = s.pcb.lastack + (if st = .SYN_SENT then 1 else 0) ∧
      s.pcb.sndBuf = TCP_SND_BUF ∧ s.pcb.tfFin = false ∧ s.pcb.acked = 0 ∧
      s.pcb.sndQueuelen = 0)
    (hr : s.pcb.rcvWnd = TCP_WND ∧ s.pcb.rcvAnnWnd = TCP_WND ∧
      s.pcb.rcvAnnRightEdge = s.pcb.rcvNxt)
    (hm : 0 < s.pcb.mss ∧ s.pcb.mss ≤ TCP_MSS)
    (hb : s.pcb.persistBackoff = 0 ∧ s.pcb.dupacks = 0)
    (h : tcpEnqueueFlags s flags = .ok (.ok, t)) (hp : s'.pcb = { t.pcb with state := st })
    (ht' : s'.trace = t.trace) : Opening s' := by
  obtain ⟨hqu, htr⟩ := tcpEnqueueFlags_queues h
  have he {α : Type} (f : Pcb → α) (hf : ∀ p : Pcb, f p = f p.unqueued) (hst : ∀ p : Pcb,
      f { p with state := st } = f p) : f s'.pcb = f s.pcb := by
    rw [hp, hst, hf t.pcb, hf s.pcb, hqu]
  rcases tcpEnqueueFlags_spec h with ⟨hne, -⟩ | ⟨-, e1, e2, -, e4, e5⟩
  · exact absurd rfl hne
  have hla : s'.pcb.lastack = s.pcb.lastack := he Pcb.lastack (fun _ => rfl) (fun _ => rfl)
  have hnx : s'.pcb.sndNxt = s.pcb.sndNxt := he Pcb.sndNxt (fun _ => rfl) (fun _ => rfl)
  have hst' : s'.pcb.state = st := by rw [hp]
  have hms : s'.pcb.mss = s.pcb.mss := he Pcb.mss (fun _ => rfl) (fun _ => rfl)
  have hrn : s'.pcb.rcvNxt = s.pcb.rcvNxt := he Pcb.rcvNxt (fun _ => rfl) (fun _ => rfl)
  exact
    { trace := ht'.trans (htr.trans ht)
      state := by rw [hst']; exact hst
      unacked := (he Pcb.unacked (fun _ => rfl) (fun _ => rfl)).trans hq.2.1
      unsent := by
        refine ⟨s.pcb.flagSeg flags, ?_, ?_, rfl, rfl, by rw [hfl]; rfl, rfl, ?_⟩
        · rw [hp]
          show t.pcb.unsent = _
          rw [e5, hq.1]
          rfl
        · rw [hla, ← hs.1]
          rfl
        · rw [hst', ← hfl]
          rfl
      sndLbb := by
        rw [hla, ← hs.1, hp]
        exact e2
      sndNxt := by rw [hla, hnx, hst', hs.2.1]
      sndBuf := by
        rw [hp]
        show t.pcb.sndBuf = _
        rw [e4, hs.2.2.1]
      tfFin := by
        rw [hp]
        show t.pcb.tfFin = _
        rw [e1, hs.2.2.2.1, hfl]
        rfl
      sndQueuelen := by
        rw [hp]
        show t.pcb.sndQueuelen = _
        rw [tcpEnqueueFlags_queuelen h, hs.2.2.2.2.2]
        rfl
      acked := (he Pcb.acked (fun _ => rfl) (fun _ => rfl)).trans hs.2.2.2.2.1
      mss := by rw [hms]; exact hm
      rcvWnd := (he Pcb.rcvWnd (fun _ => rfl) (fun _ => rfl)).trans hr.1
      rcvAnnWnd := (he Pcb.rcvAnnWnd (fun _ => rfl) (fun _ => rfl)).trans hr.2.1
      rcvAnnRightEdge := by
        rw [hrn, ← hr.2.2]
        exact he Pcb.rcvAnnRightEdge (fun _ => rfl) (fun _ => rfl)
      ooseq := (he Pcb.ooseq (fun _ => rfl) (fun _ => rfl)).trans hq.2.2.1
      refusedData := (he Pcb.refusedData (fun _ => rfl) (fun _ => rfl)).trans hq.2.2.2
      persistBackoff := (he Pcb.persistBackoff (fun _ => rfl) (fun _ => rfl)).trans hb.1
      dupacks := (he Pcb.dupacks (fun _ => rfl) (fun _ => rfl)).trans hb.2 }

/-- An open connection begins with `tcp_output` for the SYN. -/
theorem Begun.opening (h : Begun s) : ∃ t err, Opening t ∧ tcpOutput t = .ok (err, s) := by
  cases h with
  | @connect a _ newPort iss ha hr =>
    obtain ⟨⟨prio, iss₀, ticks, port, hp⟩, htr⟩ := ha
    obtain ⟨port', s₂, t, err', h₃, hts, hps, h₂⟩ := tcpConnect_spec hr
    refine ⟨t, err', ?_, h₂⟩
    refine .of_enqueue (s := { a with pcb := a.pcb.connecting port' iss }) .SYN_SENT htr (.inl rfl)
      rfl ?_ ?_ ?_ ?_ ?_ h₃ hps hts
    all_goals simp only [hp]
    · exact ⟨rfl, rfl, rfl, rfl⟩
    · refine ⟨rfl, ?_, rfl, rfl, rfl, rfl⟩
      show iss = iss - 1 + 1
      rw [sub_add_cancel]
    · exact ⟨rfl, rfl, rfl⟩
    · exact ⟨Nat.succ_pos 535, le_rfl⟩
    · exact ⟨rfl, rfl⟩
  | @listen a _ err seg localPort serverId ha hr hf =>
    obtain ⟨t, h₁, h₂⟩ := tcpListenSynAck_spec hr hf
    refine ⟨t, err, ?_, h₂⟩
    obtain ⟨htr, prio, iss, ticks, mss, h0, hl, hp⟩ := tcpListenPcb_spec ha seg localPort serverId
    generalize tcpListenPcb a seg localPort serverId = a' at h₁ htr hp
    have hst : t.pcb.state = .SYN_RCVD := by
      obtain ⟨hqu, -⟩ := tcpEnqueueFlags_queues h₁
      have e : t.pcb.state = a'.pcb.state := (congrArg Pcb.state hqu :)
      rw [e, hp]
    refine .of_enqueue (s := a') .SYN_RCVD htr (.inr rfl) rfl ?_ ?_ ?_ ?_ ?_ h₁ ?_ rfl
    all_goals try simp only [hp]
    · exact ⟨rfl, rfl, rfl, rfl⟩
    · exact ⟨rfl, (add_zero iss).symm, rfl, rfl, rfl, rfl⟩
    · exact ⟨rfl, rfl, trivial⟩
    · exact ⟨h0, hl⟩
    · exact ⟨rfl, rfl⟩
    · rw [← hst]

/-! ### A client -/

/-- The client behind its `tcp_connect`. -/
def connecting : St Unit :=
  match tcpConnect client 4000 1000 with
  | .ok (_, s) => s
  | .error _ => client

theorem begun_connecting : Begun connecting :=
  .connect (s := client) 4000 1000 ⟨⟨_, _, _, 0, rfl⟩, rfl⟩ rfl

end Rudp
