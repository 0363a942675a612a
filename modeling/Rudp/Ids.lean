import Rudp.Write

/-!
# The connection id of outgoing segments

The id is written into the header of a segment when it is queued, and the server's half of it is
learned later, with the SYN-ACK. A segment that is queued in `SYN_SENT` keeps the half `0`.

Results:
* `segments_carry_id`: in every run without a `tcp_write` of data in `SYN_SENT`, each packet that a
  synchronized pcb hands to `ip_output_if` carries its id.
* `segments_carry_id_fails`: a run with such a `tcp_write`.
-/

namespace Rudp

variable {W : Type} {s s' : St W}

/-- A packet of a synchronized pcb carries the id of the pcb. -/
def Out.CarriesId : Out → Prop
  | .ipOutputIf packet _ state connId =>
    TcpState.ESTABLISHED.num ≤ state.num → packet.tcphdr.HasId connId
  | _ => True

/-- In `SYN_SENT` no data is accepted: `tcp_write` gets none, or more than there is room for. -/
def IdCall (c : Core) : Api → Prop
  | .write arg _ _ => c.state = .SYN_SENT → arg = [] ∨ c.sndBuf < arg.length
  | _ => True

instance (c : Core) (a : Api) : Decidable (IdCall c a) :=
  match a with
  | .write _ _ _ => inferInstanceAs (Decidable (_ → _ ∨ _))
  | .connect _ _ | .output | .recved _ | .close | .shutdown _ _ | .abort | .nagle _ => .isTrue trivial

/-- Every queued segment carries the id of the pcb, and until it is complete only the SYN is
    queued. -/
structure IdInv (c : Core) : Prop where
  mss : 0 < c.mss ∧ c.mss ≤ TCP_MSS
  closed : c.state = .CLOSED → c.segs = []
  synSent : c.state = .SYN_SENT → c.segs.length ≤ 1
  queued : c.state ≠ .SYN_SENT → ∀ seg ∈ c.segs, seg.tcphdr.HasId c.connId
  log : ∀ o ∈ c.log, o.CarriesId

namespace IdInv

variable {c c' : Core}

/-- Another state, other queues. -/
theorem congr (h : IdInv c) (hmss : c'.mss = c.mss) (hid : c'.connId = c.connId)
    (hst : c'.state = c.state ∨ (c.state ≠ .SYN_SENT ∧ c'.state ≠ .SYN_SENT ∧ c'.state ≠ .CLOSED))
    (hq : ∀ seg ∈ c'.segs, seg ∈ c.segs) (hlen : c'.segs.length ≤ c.segs.length)
    (hlog : ∀ o ∈ c'.log, o ∈ c.log ∨ o.CarriesId) : IdInv c' where
  mss := hmss ▸ h.mss
  closed he := by
    rcases hst with e | ⟨-, -, hn⟩
    · have hc := h.closed (e ▸ he)
      rw [hc] at hlen
      exact List.length_eq_zero_iff.mp (by simpa using hlen)
    · exact absurd he hn
  synSent he := by
    rcases hst with e | ⟨-, hn, -⟩
    · exact hlen.trans (h.synSent (e ▸ he))
    · exact absurd he hn
  queued hne seg hs := by
    rw [hid]
    refine h.queued ?_ seg (hq seg hs)
    rcases hst with e | ⟨hn, -, -⟩
    · exact e ▸ hne
    · exact hn
  log o ho := (hlog o ho).elim (h.log o) id

theorem moves (h : IdInv c) (hm : Moves c c') : IdInv c' where
  mss := hm.mss ▸ h.mss
  closed he := by
    have hlen := hm.length
    rw [h.closed (hm.state ▸ he)] at hlen
    exact List.length_eq_zero_iff.mp (by simpa using hlen)
  synSent he := hm.length.trans (h.synSent (hm.state ▸ he))
  queued hne seg hs := by
    obtain ⟨seg₀, h₀, hr⟩ := hm.segs seg hs
    have hid := h.queued (hm.state ▸ hne) seg₀ h₀
    have hb := congrArg (fun seg : TcpSeg => (seg.tcphdr.connid1, seg.tcphdr.connid2)) hr.1
    rw [hm.connId]
    exact ⟨(Prod.mk.inj hb).1.trans hid.1, (Prod.mk.inj hb).2.trans hid.2⟩
  log o ho := by
    rcases hm.log o ho with ho | ⟨seg, sent, ⟨seg₀, h₀, hr⟩, rfl⟩
    · exact h.log o ho
    · intro hst
      have hid := h.queued (fun e => by rw [e] at hst; exact absurd hst (by decide)) seg₀ h₀
      have hb := congrArg (fun seg : TcpSeg => (seg.tcphdr.connid1, seg.tcphdr.connid2)) hr.1
      exact ⟨(Prod.mk.inj hb).1.trans hid.1, (Prod.mk.inj hb).2.trans hid.2⟩

/-- One more segment that carries the id. -/
theorem snoc (h : IdInv c) {seg : TcpSeg} (hst : c.state ≠ .SYN_SENT) (hst' : c.state ≠ .CLOSED)
    (hid : seg.tcphdr.HasId c.connId) (hmss : c'.mss = c.mss) (hc : c'.connId = c.connId)
    (hs : c'.state = c.state) (hq : ∀ x ∈ c'.segs, x = seg ∨ x ∈ c.segs) (hlog : c'.log = c.log) :
    IdInv c' where
  mss := hmss ▸ h.mss
  closed he := absurd (hs ▸ he) hst'
  synSent he := absurd (hs ▸ he) hst
  queued hne x hx := by
    rw [hc]
    rcases hq x hx with rfl | hx
    · exact hid
    · exact h.queued hst x hx
  log := hlog ▸ h.log

end IdInv

theorem IdInv.emit {o : Out} (hI : IdInv s.core) (ho : o.Silent) : IdInv (s.emit o).core := by
  rw [core_emit ho]
  refine hI.congr rfl rfl (.inl rfl) (fun _ h => h) le_rfl fun x hx => ?_
  rcases List.mem_append.mp hx with hx | hx
  · exact .inl hx
  · obtain rfl := List.mem_singleton.mp hx
    cases x with
    | ipOutputIf p b st id => exact ho.elim
    | _ => exact .inr trivial

/-- The new segments of `tcp_write` carry the id. -/
theorem Segmented.hasId {id : ConnectId} {copy : Bool} {mssLocal : ℕ} {seqno : U32}
    {data : List Byte} {q : List TcpSeg} (h : Segmented id copy mssLocal seqno data q) :
    ∀ seg ∈ q, seg.tcphdr.HasId id := by
  induction q generalizing seqno data with
  | nil => simp
  | cons seg rest ih =>
    obtain ⟨h1, -, -, -, -, -, -, -, data', -, hrest⟩ := h
    intro x hx
    rcases List.mem_cons.mp hx with rfl | hx
    · exact h1
    · exact ih hrest x hx

/-- No data, no segments. -/
theorem Segmented.nil {id : ConnectId} {copy : Bool} {mssLocal : ℕ} {seqno : U32}
    {q : List TcpSeg} (hm : 0 < mssLocal) (h : Segmented id copy mssLocal seqno [] q) : q = [] := by
  cases q with
  | nil => rfl
  | cons seg rest =>
    obtain ⟨-, -, -, -, hl, -, hpos, -, data', hd, -⟩ := h
    have hb : bytes seg.p = [] := (List.append_eq_nil_iff.mp hd.symm).1
    rw [← length_bytes, hb] at hl
    exact absurd (hpos hm) (by rw [hl]; simp)

theorem Extends.hasId {last last' : TcpSeg} {ext : List Byte} {id : ConnectId}
    (h : Extends last last' ext) (hid : last.tcphdr.HasId id) : last'.tcphdr.HasId id := by
  rcases h.hdr with e | e <;> rw [e] <;> exact hid

theorem IdInv.write {arg : List Byte} {copy more : Bool} {err : Err} (hI : IdInv s.core)
    (hP : IdCall s.core (.write arg copy more)) (h : tcpWrite s arg copy more = .ok (err, s')) :
    IdInv s'.core := by
  obtain ⟨f1, f2, f3, -, -, f4, hlog⟩ := (tcpWrite_queues h).sameConn
  have hsegs : s.core.segs = s.pcb.unsent ++ s.pcb.unacked := rfl
  have hsegs' : s'.core.segs = s'.pcb.unsent ++ s.pcb.unacked :=
    congrArg (s'.pcb.unsent ++ ·) f4
  rcases tcpWrite_spec hI.mss.2 h with ⟨-, -, -, -, hu⟩ | ⟨-, hlen, hst, -, ext, queue, hw⟩
  · -- nothing was queued
    have hn : s'.core.segs.length = s.core.segs.length := by
      rw [hsegs, hsegs']
      rcases hu with e | ⟨init, last, bump, e, e', -⟩
      · rw [e]
      · rw [e, e']
        simp
    refine
      { mss := f3 ▸ hI.mss
        closed := fun he => ?_
        synSent := fun he => hn.le.trans (hI.synSent (f2 ▸ he))
        queued := fun hne seg hs => ?_
        log := hlog ▸ hI.log }
    · have hc := hI.closed (f2 ▸ he)
      rw [hc] at hn
      exact List.length_eq_zero_iff.mp hn
    · have hid := hI.queued (f2 ▸ hne)
      show seg.tcphdr.HasId s'.core.connId
      rw [f1]
      rw [hsegs'] at hs
      rw [hsegs] at hid
      rcases hu with e | ⟨init, last, bump, e, e', -⟩
      · exact hid seg (e ▸ hs)
      · rw [e'] at hs
        rw [e] at hid
        simp only [List.mem_append, List.mem_singleton] at hs hid
        rcases hs with (hs | rfl) | hs
        · exact hid seg (.inl (.inl hs))
        · exact hid last (.inl (.inr rfl))
        · exact hid seg (.inr hs)
  · obtain ⟨rest, harg, hseg⟩ := hw.data
    refine
      { mss := f3 ▸ hI.mss
        closed := fun he => ?_
        synSent := fun he => ?_
        queued := fun hne seg hs => ?_
        log := hlog ▸ hI.log }
    · rw [f2] at he
      change s.pcb.state = _ at he
      rcases hst with e | e | e | e <;> rw [e] at he <;> cases he
    · -- no data
      have harg' : arg = [] := (hP (f2 ▸ he)).resolve_right (not_lt.mpr hlen)
      obtain ⟨rfl, rfl⟩ := List.append_eq_nil_iff.mp (harg.symm.trans harg')
      obtain rfl := hseg.nil (mssLocalOf_pos hI.mss.1)
      have hn : s'.core.segs.length = s.core.segs.length := by
        rw [hsegs, hsegs']
        rcases hw.unsent with ⟨e, -, e'⟩ | ⟨init, last, last', e, e', -⟩
        · rw [e, e']
        · rw [e, e']
          simp
      exact hn.le.trans (hI.synSent (f2 ▸ he))
    · have hid := hI.queued (f2 ▸ hne)
      show seg.tcphdr.HasId s'.core.connId
      rw [f1]
      rw [hsegs'] at hs
      rw [hsegs] at hid
      rcases hw.unsent with ⟨e, -, e'⟩ | ⟨init, last, last', e, e', hext, -, -⟩
      · rw [e'] at hs
        rcases List.mem_append.mp hs with hs | hs
        · exact hseg.hasId seg hs
        · exact hid seg (List.mem_append_right _ hs)
      · rw [e'] at hs
        rw [e] at hid
        simp only [List.mem_append, List.mem_cons, List.not_mem_nil, or_false] at hs hid
        rcases hs with (hs | rfl | hs) | hs
        · exact hid seg (.inl (.inl hs))
        · exact hext.hasId (hid last (.inl (.inr rfl)))
        · exact hseg.hasId seg hs
        · exact hid seg (.inr hs)

theorem IdInv.fin {err : Err} {st : TcpState} (st' : TcpState) (hI : IdInv s.core)
    (hst : closeState s.pcb.state = some st) (h : tcpSendFin s = .ok (err, s'))
    (hst' : st' = s.pcb.state ∨ st' = st) : IdInv { s' with pcb.state := st' }.core := by
  obtain ⟨f1, f2, f3, -, -, f4, hlog⟩ := (tcpSendFin_queues h).sameConn
  have hs : s.pcb.state ≠ .SYN_SENT ∧ s.pcb.state ≠ .CLOSED ∧ st ≠ .SYN_SENT ∧ st ≠ .CLOSED := by
    unfold closeState at hst
    split at hst <;> cases hst <;> next e => rw [e]; decide
  have hn : st' ≠ .SYN_SENT ∧ st' ≠ .CLOSED := by
    rcases hst' with rfl | rfl
    · exact ⟨hs.1, hs.2.1⟩
    · exact ⟨hs.2.2.1, hs.2.2.2⟩
  have hid := hI.queued hs.1
  refine
    { mss := f3 ▸ hI.mss
      closed := fun he => absurd he hn.2
      synSent := fun he => absurd he hn.1
      queued := fun _ seg hseg => ?_
      log := hlog ▸ hI.log }
  show seg.tcphdr.HasId s'.core.connId
  rw [f1]
  have hseg' : seg ∈ s'.pcb.unsent ∨ seg ∈ s.pcb.unacked := by
    rcases List.mem_append.mp hseg with h | h
    · exact .inl h
    · exact .inr (show seg ∈ s.core.unacked from f4 ▸ h)
  rcases hseg' with hseg' | hseg'
  · rcases tcpSendFin_spec h with ⟨-, -, -, -, e⟩ | ⟨-, -, ⟨init, last, e, -, e', -⟩ | ⟨e', -⟩⟩
    · rw [e] at hseg'
      exact hid seg (List.mem_append_left _ hseg')
    · rw [e'] at hseg'
      rcases List.mem_append.mp hseg' with h | h
      · refine hid seg (List.mem_append_left _ ?_)
        rw [show s.core.unsent = s.pcb.unsent from rfl, e]
        exact List.mem_append_left _ h
      · obtain rfl := List.mem_singleton.mp h
        refine hid last (List.mem_append_left _ ?_)
        rw [show s.core.unsent = s.pcb.unsent from rfl, e]
        simp
    · rw [e'] at hseg'
      rcases List.mem_append.mp hseg' with h | h
      · exact hid seg (List.mem_append_left _ h)
      · obtain rfl := List.mem_singleton.mp h
        exact ⟨rfl, rfl⟩
  · exact hid seg (List.mem_append_right _ hseg')

theorem IdInv.connect {newPort : ℕ} {iss : U32} {err : Err} (hI : IdInv s.core)
    (h : tcpConnectSyn s newPort iss = .ok (err, s')) : IdInv s'.core := by
  obtain ⟨hst, ⟨-, ht, hp⟩ | ⟨port, -, s₁, h₁, ht, hp⟩⟩ := tcpConnectSyn_spec h
  · have hc : s'.core = s.core := by
      simp only [St.core, St.sndView, ht, hp]
    rw [hc]
    exact hI
  have hsegs : s.pcb.unsent ++ s.pcb.unacked = [] := hI.closed hst
  obtain ⟨-, f2, f3, -, -, f4, hlog⟩ := (tcpEnqueueFlags_queues h₁).sameConn
  have hmss : s'.pcb.mss = TCP_MSS := by
    rw [hp]
    split <;> exact f3
  have hl : s'.core.log = s.core.log :=
    (congrArg (List.filter fun o : Out => !o.isCtl) ht).trans hlog
  have hna : s'.pcb.unacked = [] := by
    have e : s₁.pcb.unacked = s.pcb.unacked := f4
    rw [hp]
    split <;> exact e.trans (List.append_eq_nil_iff.mp hsegs).2
  have hun : s.pcb.unsent = [] := (List.append_eq_nil_iff.mp hsegs).1
  rcases tcpEnqueueFlags_spec h₁ with ⟨hne, -, -, -, e⟩ | ⟨rfl, -, -, -, -, e⟩
  · have hq : s'.core.segs = [] := by
      show s'.pcb.unsent ++ s'.pcb.unacked = []
      rw [hna, hp, if_neg hne]
      exact List.append_eq_nil_iff.mpr ⟨e.trans hun, rfl⟩
    exact
      { mss := by rw [show s'.core.mss = _ from hmss]; decide
        closed := fun _ => hq
        synSent := fun _ => by rw [hq]; exact Nat.zero_le _
        queued := fun _ seg hs => by rw [hq] at hs; cases hs
        log := hl ▸ hI.log }
  · rw [if_pos rfl] at hp
    have hq : s'.core.segs = [(s.pcb.connecting port iss).flagSeg { syn := true }] := by
      show s'.pcb.unsent ++ s'.pcb.unacked = _
      rw [hna, hp, List.append_nil]
      refine e.trans ?_
      show s.pcb.unsent ++ _ = _
      rw [hun]
      rfl
    exact
      { mss := by rw [show s'.core.mss = _ from hmss]; decide
        closed := fun he => by
          have : s'.pcb.state = .SYN_SENT := by rw [hp]
          rw [show s'.core.state = _ from this] at he
          cases he
        synSent := fun _ => by rw [hq]; exact le_rfl
        queued := fun hne _ _ => absurd (show s'.pcb.state = .SYN_SENT by rw [hp]) hne
        log := hl ▸ hI.log }

/-- The end of the handshake. -/
theorem IdInv.establish {seg : InSegment} {rseg : TcpSeg} {rest : List TcpSeg}
    (hI : IdInv s.core) (hst : s.pcb.state = .SYN_SENT) (hq : s.pcb.unacked = rseg :: rest) :
    IdInv { s with pcb := establish s.pcb seg rest }.core := by
  have hlen : (s.pcb.unsent ++ s.pcb.unacked).length ≤ 1 := hI.synSent hst
  rw [hq] at hlen
  simp only [List.length_append, List.length_cons] at hlen
  have h₁ : s.pcb.unsent = [] := List.length_eq_zero_iff.mp (by omega)
  have h₂ : rest = [] := List.length_eq_zero_iff.mp (by omega)
  have hsegs : ({ s with pcb := Rudp.establish s.pcb seg rest } : St W).core.segs = [] := by
    show s.pcb.unsent ++ rest = []
    rw [h₁, h₂]
    rfl
  exact
    { mss := hI.mss
      closed := fun _ => hsegs
      synSent := fun _ => by rw [hsegs]; exact Nat.zero_le _
      queued := fun _ seg hs => by rw [hsegs] at hs; cases hs
      log := hI.log }

/-- A segment from `ESTABLISHED` on. -/
theorem IdInv.process {seg : InSegment} {after : St W → St W} (hI : IdInv s.core)
    (hafter : ∀ t, Settles t.core (after t).core)
    (h : tcpProcessReceive s seg after = .ok s') : IdInv s'.core := by
  have hst : s.pcb.state ≠ .SYN_SENT := by
    obtain ⟨s₁, h₁, -⟩ := Run.bind_eq_ok.mp h
    obtain ⟨_, ha, -⟩ := Run.bind_eq_ok.mp h₁
    intro e
    have := lwipAssert_ok ha
    rw [e] at this
    exact absurd this (by decide)
  obtain ⟨c, s₁, hm, hv, hs₁, c', hs, o, ho, -, hc⟩ := processReceive_core hafter h
  have hIc := hI.moves hm
  have hstc : c.state ≠ .SYN_SENT := by rw [hm.state]; exact hst
  have e1 : s₁.core.connId = c.connId := congrArg SndView.connId hv
  have e2 : s₁.core.mss = c.mss := congrArg SndView.mss hv
  have e3 : s₁.core.unsent = c.unsent := congrArg SndView.unsent hv
  have e4 : s₁.core.unacked = c.unacked := congrArg SndView.unacked hv
  have e5 : s₁.core.log = c.log := congrArg SndView.log hv
  have hsegs : s₁.core.segs = c.segs := by
    show s₁.core.unsent ++ s₁.core.unacked = _
    rw [e3, e4]
    rfl
  have hI₁ : IdInv s₁.core := by
    refine hIc.congr e2 e1 ?_ (fun x hx => hsegs ▸ hx) (by rw [hsegs]) fun x hx => .inl (e5 ▸ hx)
    rcases hs₁ with e | ⟨-, e⟩
    · exact .inl (show s₁.pcb.state = c.state by rw [e]; exact hm.state.symm)
    · refine .inr ⟨hstc, ?_⟩
      rw [show s₁.core.state = _ from e]
      decide
  have hsub : ∀ x ∈ c'.segs, x ∈ s₁.core.segs := by
    intro x hx
    change x ∈ c'.unsent ++ c'.unacked at hx
    rcases hs.queues with ⟨h1, h2⟩ | ⟨h1, h2, -⟩
    · rw [h1, h2] at hx
      exact hx
    · rw [h1, h2] at hx
      cases hx
  have hlen : c'.segs.length ≤ s₁.core.segs.length := by
    show (c'.unsent ++ c'.unacked).length ≤ _
    rcases hs.queues with ⟨h1, h2⟩ | ⟨h1, h2, -⟩
    · rw [h1, h2]
      exact le_rfl
    · rw [h1, h2]
      exact Nat.zero_le _
  have hst₁ : s₁.core.state ≠ .SYN_SENT := by
    rcases hs₁ with e | ⟨-, e⟩
    · exact fun he => hst (e.symm.trans he)
    · rw [show s₁.core.state = _ from e]
      decide
  rw [hc]
  refine hI₁.congr hs.mss hs.connId ?_ hsub hlen fun x hx => ?_
  · rcases hs.state with e | e
    · exact .inl e
    · refine .inr ⟨hst₁, ?_⟩
      rcases e with e | e | e | e <;> rw [show ({ c' with log := c'.log ++ [o] } : Core).state = _
        from e] <;> decide
  · rcases List.mem_append.mp hx with hx | hx
    · exact .inl (hs.log ▸ hx)
    · obtain rfl := List.mem_singleton.mp hx
      cases x with
      | ipOutputIf p b st id => exact ho.elim
      | _ => exact .inr trivial

/-- The queues are emptied. -/
theorem IdInv.empty {c c' : Core} (hI : IdInv c) (hmss : c'.mss = c.mss) (hlog : c'.log = c.log)
    (hun : c'.unsent = []) (hna : c'.unacked = []) : IdInv c' := by
  have hq : c'.segs = [] := by
    unfold Core.segs
    rw [hun, hna]
    rfl
  exact
    { mss := hmss ▸ hI.mss
      closed := fun _ => hq
      synSent := fun _ => by rw [hq]; exact Nat.zero_le _
      queued := fun _ seg hs => by rw [hq] at hs; cases hs
      log := hlog ▸ hI.log }

theorem preserved_idInv : Preserved IdCall (fun _ _ => True) fun s : St W => IdInv s.core where
  frame hI he _ := by
    rw [he]
    exact hI
  callback ho hI := hI.emit (Out.silent_of_isCallback ho)
  connect _ hr hI := hI.connect hr
  write hP hr hI := by
    have h := hI.write hP hr
    split
    · exact h.emit (Out.silent_wrote _)
    · exact h
  recved _ _ hI := hI.congr rfl rfl (.inl rfl) (fun _ h => h) le_rfl fun _ h => .inl h
  fin {s s' a st err} _ _ hst hr hI := by
    have hs : s'.pcb.state = s.pcb.state := (tcpSendFin_queues hr).sameConn.state
    split
    · exact hI.fin st hst hr (.inr rfl)
    · exact hI.fin s'.pcb.state hst hr (.inl hs)
  output hr hI := hI.moves (moves_tcpOutput hr)
  rexmitRto hr hI := hI.moves (moves_tcpRexmitRto hr)
  probe {s} hI := by
    obtain ⟨log, hc, hlog⟩ := probe_core s
    rw [hc]
    refine hI.congr rfl rfl (.inl rfl) (fun _ h => h) le_rfl fun o ho => ?_
    rcases hlog o ho with ho | ⟨seg, -, sent, rfl⟩
    · exact .inl ho
    · right
      intro _
      unfold Pcb.probePacket
      split <;> exact ⟨rfl, rfl⟩
  rexmit {s} _ hI := hI.moves (moves_tcpRexmit s)
  rcvWndFin {s} hI := by
    unfold Rudp.rcvWndFin
    split
    · exact hI.congr rfl rfl (.inl rfl) (fun _ h => h) le_rfl fun _ h => .inl h
    · exact hI
  mss h0 h1 hI :=
    { mss := ⟨h0, h1⟩, closed := hI.closed, synSent := hI.synSent, queued := hI.queued
      log := hI.log }
  establish hst hq _ _ hI := hI.establish hst hq
  accept {s _} hst _ hI := by
    refine hI.congr rfl rfl (.inr ⟨?_, ?_⟩) (fun _ h => h) le_rfl fun _ h => .inl h
    · show s.pcb.state ≠ _
      rw [hst]
      decide
    · exact ⟨TcpState.noConfusion, TcpState.noConfusion⟩
  receive _ _ hr hI := hI.process (settles_tcpProcessAfter _ _) hr
  receiveAccept _ _ _ _ _ _ hr hI := hI.process settles_tcpProcessAcceptAfter hr
  purge {s} _ hI := by
    unfold tcpPcbPurge
    split
    · exact hI.empty rfl rfl rfl rfl
    · exact hI
  timeWait _ _ _ hu ha _ hI := hI.empty rfl rfl hu ha
  closed _ hu ha _ hI := hI.empty rfl rfl hu ha
  clear _ _ hI := hI.empty rfl rfl rfl rfl
  ooseq hI := hI.congr rfl rfl (.inl rfl) (fun _ h => h) le_rfl fun _ h => .inl h

theorem Out.carriesId_of_isCtl {o : Out} (h : o.isCtl = true) : o.CarriesId := by
  cases o with
  | ipOutputIf packet sent st id =>
    intro _
    simp only [Out.isCtl, Packet.isCtl, Bool.and_eq_true, decide_eq_true_eq] at h
    exact h.2
  | _ => trivial

theorem Fresh.idInv {s₀ : St W} (h : Fresh s₀) : IdInv s₀.core := by
  have hk : Kept IdCall (fun _ _ => True) (fun _ _ => True) (fun _ s => .ok (.ok, s))
      fun s : St W => IdInv s.core := preserved_idInv.toKept
  refine hk.fresh (fun s hs => ?_) (fun {s s' err} seg localPort serverId hs hr => ?_) h
  · obtain ⟨⟨prio, iss, ticks, port, hp⟩, ht⟩ := hs
    have hq : s.core.segs = [] := by
      show s.pcb.unsent ++ s.pcb.unacked = []
      rw [hp]
      rfl
    exact
      { mss := by show 0 < s.pcb.mss ∧ s.pcb.mss ≤ _; rw [hp]; exact ⟨Nat.succ_pos 535, le_rfl⟩
        closed := fun _ => hq
        synSent := fun _ => by rw [hq]; exact Nat.zero_le _
        queued := fun _ seg hs => by rw [hq] at hs; cases hs
        log := fun o ho => by
          rw [show s.core.log = s.trace.filter _ from rfl, ht] at ho
          cases ho }
  · obtain ⟨ht, prio, iss, ticks, mss, h0, hl, hp⟩ := tcpListenPcb_spec hs seg localPort serverId
    generalize tcpListenPcb s seg localPort serverId = t at hr ht hp
    obtain ⟨f1, f2, f3, -, -, f4, hlog⟩ := (tcpEnqueueFlags_queues hr).sameConn
    have hst : t.pcb.state = .SYN_RCVD := by rw [hp]
    have hna : t.pcb.unacked = [] := by rw [hp]; rfl
    have hun : t.pcb.unsent = [] := by rw [hp]; rfl
    have hnr : s'.core.state = .SYN_RCVD := f2.trans hst
    refine
      { mss := ?_
        closed := fun he => absurd (hnr.symm.trans he) TcpState.noConfusion
        synSent := fun he => absurd (hnr.symm.trans he) TcpState.noConfusion
        queued := fun _ x hx => ?_
        log := fun o ho => ?_ }
    · rw [f3]
      show 0 < t.pcb.mss ∧ t.pcb.mss ≤ _
      rw [hp]
      exact ⟨h0, hl⟩
    · rw [f1]
      change x ∈ s'.pcb.unsent ++ s'.core.unacked at hx
      rw [f4, show t.core.unacked = [] from hna, List.append_nil] at hx
      rcases tcpEnqueueFlags_spec hr with ⟨-, -, -, -, e⟩ | ⟨-, -, -, -, -, e⟩
      · rw [e, hun] at hx
        cases hx
      · rw [e, hun] at hx
        obtain rfl := List.mem_singleton.mp hx
        exact ⟨rfl, rfl⟩
    · rw [hlog, show t.core.log = t.trace.filter _ from rfl, ht] at ho
      cases ho

/-- In every run in which no data is written in `SYN_SENT`, the packets of a synchronized pcb carry
    its id. -/
theorem segments_carry_id {app : App W} {s₀ : St W} (happ : AppOk IdCall app) (h₀ : Fresh s₀)
    (hr : Run.Reach (connStep app) (Preserved.StepOk IdCall (fun _ _ => True) app) s₀ s) :
    ∀ o ∈ s.trace, o.CarriesId := by
  have hI : IdInv s.core := preserved_idInv.reach happ h₀.idInv hr
  intro o ho
  by_cases hc : o.isCtl = true
  · exact Out.carriesId_of_isCtl hc
  · exact hI.log o (List.mem_filter.mpr ⟨ho, by simpa using hc⟩)

/-! ### Two runs -/

/-- One byte of data. -/
def writeOp : List Bool × Op := ([], .api (.write [7] true false))

/-- `tcp_output`. -/
def outputOp : List Bool × Op := ([], .api .output)

/-- The byte is sent behind the SYN-ACK, with the id of the connection. -/
theorem segments_carry_id_connected : ∃ s, Run.exec (connStep idleApp) client
    [connectOp, synAckOp TCP_WND, writeOp, outputOp] = .ok s ∧ s.pcb.state = .ESTABLISHED ∧
      (∃ packet id, Out.ipOutputIf packet true .ESTABLISHED id ∈ s.trace ∧ bytes packet.p = [7] ∧
        packet.tcphdr.HasId { connid1 := 4000, connid2 := 7 }) ∧
      ∀ o ∈ s.trace, o.CarriesId := by
  refine ⟨_, rfl, rfl, ⟨_, _, List.mem_of_getElem? (i := 4) rfl, rfl, rfl, rfl⟩,
    segments_carry_id appOk_idleApp fresh_client (.step outputOp (.step writeOp
      (.step (synAckOp TCP_WND) (.step connectOp .refl trivial rfl) (fun _ _ => trivial) rfl)
        ?_ rfl) trivial rfl)⟩
  intro h
  cases h

/-- A byte written before the SYN-ACK is sent behind it, with the server's half of the id missing. -/
theorem segments_carry_id_fails : ∃ s : St Unit, AppOk (fun _ _ => True) idleApp ∧ Fresh client ∧
    Run.exec (connStep idleApp) client [connectOp, writeOp, synAckOp TCP_WND] = .ok s ∧
      s.pcb.state = .ESTABLISHED ∧ ∃ o ∈ s.trace, ¬ o.CarriesId := by
  refine ⟨_, appOk_idleApp, fresh_client, rfl, rfl, _, List.mem_of_getElem? (i := 3) rfl, fun h => ?_⟩
  exact absurd (h (by decide)).2 (by decide)

end Rudp
