import Rudp.Effects

/-!
# The segments of a connection

A segment stays what it is while it moves between `unsent` and `unacked`, but for the fields that a
transmission writes. `Moves c c'` says that nothing else happened from `c` to `c'`: the segments of
`c'` are segments of `c`, and so are those in the packets of the log that are new.

Results:
* `moves_tcpOutput`, `moves_tcpRexmitRto`, `moves_tcpRexmit`, `moves_tcpReceive`: the functions that
  move segments.
* `processReceive_core`: `tcp_receive` with what `tcp_process` does behind it.
* `probe_core`: the packet of `tcp_zero_window_probe`.
-/

namespace Rudp

variable {W : Type} {s s' : St W}

/-! ## Segments -/

/-- A segment without what its transmission writes. -/
def TcpSeg.body (seg : TcpSeg) : TcpSeg :=
  { seg with oversizeLeft := 0, tcphdr.ackno := 0, tcphdr.wnd := 0, tcphdr.flags.ack := false }

/-- `seg` is `seg₀` after any number of transmissions. -/
def TcpSeg.Resent (seg₀ seg : TcpSeg) : Prop :=
  seg.body = seg₀.body ∧ seg.oversizeLeft ≤ seg₀.oversizeLeft

theorem TcpSeg.Resent.refl (seg : TcpSeg) : seg.Resent seg := ⟨rfl, le_rfl⟩

theorem TcpSeg.Resent.trans {a b c : TcpSeg} (h : a.Resent b) (h' : b.Resent c) : a.Resent c :=
  ⟨h'.1.trans h.1, h'.2.trans h.2⟩

/-- A transmission. -/
theorem TcpSeg.resent_stamp (seg : TcpSeg) (pcb pcb' : Pcb) :
    seg.Resent ((seg.prepare pcb).stamp pcb') :=
  ⟨rfl, Nat.zero_le _⟩

/-- The segments on the two queues. -/
def Core.segs (c : Core) : List TcpSeg := c.unsent ++ c.unacked

theorem perm_insertSeg (seg : TcpSeg) (q : List TcpSeg) : (insertSeg seg q).Perm (seg :: q) := by
  induction q with
  | nil => exact .refl _
  | cons cur rest ih =>
    unfold insertSeg
    split
    · exact (ih.cons cur).trans (.swap _ _ _)
    · exact .refl _

theorem perm_putUnacked (seg : TcpSeg) (q : List TcpSeg) : (putUnacked seg q).Perm (seg :: q) := by
  unfold putUnacked
  split
  · next h =>
    rw [List.getLast?_eq_none_iff.mp h]
  · split
    · exact perm_insertSeg seg q
    · exact List.perm_append_comm

/-! ## The log -/

/-- The entry is no packet and no call of `tcp_recved`. -/
def Out.Silent : Out → Prop
  | .ipOutputIf .. => False
  | .recved .. => False
  | _ => True

theorem Out.silent_of_isCallback {o : Out} (h : o.isCallback = true) : o.Silent := by
  cases o with
  | event e ret => trivial
  | err e => trivial
  | _ => cases h

theorem Out.silent_wrote (arg : List Byte) : (Out.wrote arg).Silent := trivial

theorem core_emit {o : Out} (h : o.Silent) (s : St W) :
    (s.emit o).core = { s.core with log := s.core.log ++ [o] } := by
  have hf : (s.trace ++ [o]).filter (fun o => !o.isCtl) =
      s.trace.filter (fun o => !o.isCtl) ++ [o] := by
    rw [List.filter_append]
    cases o with
    | ipOutputIf p b st id => exact h.elim
    | recved len pcb => exact h.elim
    | _ => rfl
  exact congrArg (fun l => ({ s.core with log := l } : Core)) hf

/-! ## Moves -/

theorem subperm_bodies {q q' : List TcpSeg} (h : q'.Subperm q) :
    (q'.map TcpSeg.body).Subperm (q.map TcpSeg.body) := by
  obtain ⟨l, hp, hs⟩ := h
  exact ⟨l.map TcpSeg.body, hp.map _, hs.map _⟩

/-- Segments moved or left, and were sent. -/
structure Moves (c c' : Core) : Prop where
  connId : c'.connId = c.connId
  state : c'.state = c.state
  tfFin : c'.tfFin = c.tfFin
  sndLbb : c'.sndLbb = c.sndLbb
  mss : c'.mss = c.mss
  segs : ∀ seg ∈ c'.segs, ∃ seg₀ ∈ c.segs, seg₀.Resent seg
  bodies : (c'.segs.map TcpSeg.body).Subperm (c.segs.map TcpSeg.body)
  log : ∀ o ∈ c'.log, o ∈ c.log ∨ ∃ seg sent, (∃ seg₀ ∈ c.segs, seg₀.Resent seg) ∧
    o = .ipOutputIf seg.packet sent c.state c.connId

theorem Moves.refl (c : Core) : Moves c c where
  connId := rfl
  state := rfl
  tfFin := rfl
  sndLbb := rfl
  mss := rfl
  segs seg h := ⟨seg, h, .refl seg⟩
  bodies := .refl _
  log _ h := .inl h

theorem Moves.trans {c c₁ c' : Core} (h : Moves c c₁) (h' : Moves c₁ c') : Moves c c' where
  connId := h'.connId.trans h.connId
  state := h'.state.trans h.state
  tfFin := h'.tfFin.trans h.tfFin
  sndLbb := h'.sndLbb.trans h.sndLbb
  mss := h'.mss.trans h.mss
  segs seg hs := by
    obtain ⟨seg₁, h₁, hr₁⟩ := h'.segs seg hs
    obtain ⟨seg₀, h₀, hr₀⟩ := h.segs seg₁ h₁
    exact ⟨seg₀, h₀, hr₀.trans hr₁⟩
  bodies := h'.bodies.trans h.bodies
  log o ho := by
    rcases h'.log o ho with ho | ⟨seg, sent, ⟨seg₁, h₁, hr₁⟩, rfl⟩
    · exact h.log o ho
    · obtain ⟨seg₀, h₀, hr₀⟩ := h.segs seg₁ h₁
      exact .inr ⟨seg, sent, ⟨seg₀, h₀, hr₀.trans hr₁⟩, by rw [h.state, h.connId]⟩

/-- The queues hold what they held, or less. -/
theorem Moves.of_subperm {c c' : Core} (hid : c'.connId = c.connId) (hst : c'.state = c.state)
    (hfin : c'.tfFin = c.tfFin) (hlbb : c'.sndLbb = c.sndLbb) (hmss : c'.mss = c.mss)
    (hlog : c'.log = c.log) (hq : c'.segs.Subperm c.segs) : Moves c c' where
  connId := hid
  state := hst
  tfFin := hfin
  sndLbb := hlbb
  mss := hmss
  segs seg h := ⟨seg, hq.subset h, .refl seg⟩
  bodies := subperm_bodies hq
  log _ h := .inl (hlog ▸ h)

theorem Moves.length {c c' : Core} (h : Moves c c') : c'.segs.length ≤ c.segs.length := by
  simpa using h.bodies.length_le

theorem Moves.of_core {c : Core} (h : s'.core = s.core) (hm : Moves c s.core) : Moves c s'.core := by
  rw [h]
  exact hm

/-! ## Functions that move segments -/

/-- The head of `unsent` was handed to `ip_output_if`. -/
theorem log_tcpOutputSegment {s₁ : St W} {seg seg' : TcpSeg} {err : Err}
    (h : tcpOutputSegment s (seg.prepare s.pcb) = (err, seg', s₁)) :
    ∀ o ∈ s₁.core.log, o ∈ s.core.log ∨
      ∃ sent, o = .ipOutputIf seg'.packet sent s.core.state s.core.connId := by
  obtain ⟨rfl, sent, -, -, ht, -⟩ := tcpOutputSegment_eq h
  intro o ho
  have ho' := List.mem_filter.mp ho
  rw [ht, List.mem_append, List.mem_singleton] at ho'
  rcases ho' with ⟨ho' | rfl, hc⟩
  · exact .inl (List.mem_filter.mpr ⟨ho', hc⟩)
  · exact .inr ⟨sent, rfl⟩

theorem moves_tcpOutputSent {s₁ : St W} {seg seg' : TcpSeg} {rest : List TcpSeg}
    (hq : s.pcb.unsent = seg :: rest)
    (h : tcpOutputSegment s (seg.prepare s.pcb) = (.ok, seg', s₁)) :
    Moves s.core (tcpOutputSent s₁ seg' rest).core := by
  have hlog := log_tcpOutputSegment h
  obtain ⟨rfl, sent, -, hp, -, -⟩ := tcpOutputSegment_eq h
  set seg' := (seg.prepare s.pcb).stamp s.pcb with hseg'
  have hr : seg.Resent seg' := seg.resent_stamp s.pcb s.pcb
  obtain ⟨hcore, hun, huna⟩ : (tcpOutputSent s₁ seg' rest).core.log = s₁.core.log ∧
      (tcpOutputSent s₁ seg' rest).pcb.unsent = rest ∧
      ((tcpOutputSent s₁ seg' rest).pcb.unacked = s₁.pcb.unacked ∨
        (tcpOutputSent s₁ seg' rest).pcb.unacked = putUnacked seg' s₁.pcb.unacked) := by
    unfold tcpOutputSent
    dsimp only
    split_ifs <;> exact ⟨rfl, rfl, by simp⟩
  have hfix : (tcpOutputSent s₁ seg' rest).pcb.connId = s₁.pcb.connId ∧
      (tcpOutputSent s₁ seg' rest).pcb.state = s₁.pcb.state ∧
      (tcpOutputSent s₁ seg' rest).pcb.tfFin = s₁.pcb.tfFin ∧
      (tcpOutputSent s₁ seg' rest).pcb.sndLbb = s₁.pcb.sndLbb ∧
      (tcpOutputSent s₁ seg' rest).pcb.mss = s₁.pcb.mss := by
    unfold tcpOutputSent
    dsimp only
    split_ifs <;> exact ⟨rfl, rfl, rfl, rfl, rfl⟩
  have hold : s₁.pcb.unacked = s.pcb.unacked := by rw [hp]; rfl
  have hsegs : s.core.segs = seg :: rest ++ s.pcb.unacked := by
    show s.pcb.unsent ++ s.pcb.unacked = _
    rw [hq]
  have hsegs' : (tcpOutputSent s₁ seg' rest).core.segs.Subperm (seg' :: rest ++ s.pcb.unacked) := by
    show ((tcpOutputSent s₁ seg' rest).pcb.unsent ++
      (tcpOutputSent s₁ seg' rest).pcb.unacked).Subperm _
    rcases huna with e | e
    · rw [hun, e, hold]
      exact (List.sublist_cons_self _ _).subperm
    · rw [hun, e, hold]
      exact (((perm_putUnacked seg' s.pcb.unacked).append_left rest).trans
        List.perm_middle).subperm
  exact
    { connId := hfix.1.trans (by rw [hp]; rfl)
      state := hfix.2.1.trans (by rw [hp]; rfl)
      tfFin := hfix.2.2.1.trans (by rw [hp]; rfl)
      sndLbb := hfix.2.2.2.1.trans (by rw [hp]; rfl)
      mss := hfix.2.2.2.2.trans (by rw [hp]; rfl)
      segs := by
        intro x hx
        rw [hsegs]
        rcases List.mem_cons.mp (hsegs'.subset hx) with rfl | hx
        · exact ⟨seg, List.mem_cons_self, hr⟩
        · exact ⟨x, List.mem_cons_of_mem _ hx, .refl x⟩
      bodies := by
        rw [hsegs]
        have h := subperm_bodies hsegs'
        rw [List.cons_append, List.map_cons, hr.1] at h
        exact h
      log := by
        intro o ho
        rw [hcore] at ho
        rcases hlog o ho with ho | ⟨sent, rfl⟩
        · exact .inl ho
        · exact .inr ⟨seg', sent, ⟨seg, by rw [hsegs]; exact List.mem_cons_self, hr⟩, rfl⟩ }

theorem moves_tcpOutputFail {s₁ : St W} {seg seg' : TcpSeg} {rest : List TcpSeg} {err : Err}
    (hq : s.pcb.unsent = seg :: rest)
    (h : tcpOutputSegment s (seg.prepare s.pcb) = (err, seg', s₁)) :
    Moves s.core { s₁ with pcb.unsent := seg' :: rest, pcb.tfNagleMemErr := true }.core := by
  have hlog := log_tcpOutputSegment h
  obtain ⟨rfl, sent, -, hp, -, -⟩ := tcpOutputSegment_eq h
  have hr : seg.Resent ((seg.prepare s.pcb).stamp s.pcb) := seg.resent_stamp s.pcb s.pcb
  have hsegs : s.core.segs = seg :: rest ++ s.pcb.unacked := by
    show s.pcb.unsent ++ s.pcb.unacked = _
    rw [hq]
  have hold : s₁.pcb.unacked = s.pcb.unacked := by rw [hp]; rfl
  have hsegs' : ({ s₁ with
      pcb.unsent := (seg.prepare s.pcb).stamp s.pcb :: rest, pcb.tfNagleMemErr := true } : St W).core.segs =
        (seg.prepare s.pcb).stamp s.pcb :: rest ++ s.pcb.unacked := by
    rw [← hold]
    rfl
  exact
    { connId := by show s₁.pcb.connId = _; rw [hp]; rfl
      state := by show s₁.pcb.state = _; rw [hp]; rfl
      tfFin := by show s₁.pcb.tfFin = _; rw [hp]; rfl
      sndLbb := by show s₁.pcb.sndLbb = _; rw [hp]; rfl
      mss := by show s₁.pcb.mss = _; rw [hp]; rfl
      segs := by
        intro x hx
        rw [hsegs'] at hx
        rw [hsegs]
        rcases List.mem_cons.mp hx with rfl | hx
        · exact ⟨seg, List.mem_cons_self, hr⟩
        · exact ⟨x, List.mem_cons_of_mem _ hx, .refl x⟩
      bodies := by
        rw [hsegs, hsegs', List.cons_append, List.map_cons, hr.1]
        exact .refl _
      log := by
        intro o ho
        rcases hlog o ho with ho | ⟨sent, rfl⟩
        · exact .inl ho
        · exact .inr ⟨_, sent, ⟨seg, by rw [hsegs]; exact List.mem_cons_self, hr⟩, rfl⟩ }

theorem moves_tcpOutput {err : Err} (h : tcpOutput s = .ok (err, s')) : Moves s.core s'.core :=
  tcpOutput_rule (I := fun t => Moves s.core t.core)
    (fun {s₁} hm => hm.of_core (core_tcpSendEmptyAck s₁))
    (fun hm hq _ _ he => hm.trans (moves_tcpOutputSent hq he))
    (fun hm hq _ _ he _ => hm.trans (moves_tcpOutputFail hq he))
    (fun hm => hm.trans (.of_subperm rfl rfl rfl rfl rfl rfl (.refl _))) h (.refl _)

theorem moves_tcpRexmit (s : St W) : Moves s.core (tcpRexmit s).core := by
  unfold tcpRexmit
  split
  · exact .refl _
  · next seg rest hq =>
    refine .of_subperm rfl rfl rfl rfl rfl rfl (List.Perm.subperm ?_)
    show (insertSeg seg s.pcb.unsent ++ rest).Perm (s.pcb.unsent ++ s.pcb.unacked)
    rw [hq]
    exact ((perm_insertSeg seg s.pcb.unsent).append_right rest).trans List.perm_middle.symm

theorem moves_tcpRexmitRto (h : tcpRexmitRto s = .ok s') : Moves s.core s'.core := by
  unfold tcpRexmitRto at h
  split at h
  · cases h
    exact .refl _
  · obtain ⟨⟨err, s₁⟩, h₁, h⟩ := Run.bind_eq_ok.mp h
    cases h
    refine Moves.trans ?_ (moves_tcpOutput h₁)
    refine .of_subperm rfl rfl rfl rfl rfl rfl (List.Perm.subperm ?_)
    show (s.pcb.unacked ++ s.pcb.unsent ++ []).Perm (s.pcb.unsent ++ s.pcb.unacked)
    rw [List.append_nil]
    exact List.perm_append_comm

/-! ### Receiving -/

/-- The queues after an ACK hold what they held, or less. -/
theorem Moves.of_views (he : s'.endView = s.endView) (hr : s'.rcvView = s.rcvView)
    (hq : s'.core.segs.Subperm s.core.segs) : Moves s.core s'.core :=
  .of_subperm (congrArg EndView.connId he) (congrArg RcvView.state hr) (congrArg EndView.tfFin he)
    (congrArg EndView.sndLbb he) (congrArg EndView.mss he) (congrArg EndView.log he) hq

theorem subperm_tcpRexmitFast (s : St W) : (tcpRexmitFast s).core.segs.Subperm s.core.segs := by
  unfold tcpRexmitFast
  split
  · show (tcpRexmit s).core.segs.Subperm s.core.segs
    unfold tcpRexmit
    split
    · exact .refl _
    · next seg rest hq =>
      show (insertSeg seg s.pcb.unsent ++ rest).Subperm (s.pcb.unsent ++ s.pcb.unacked)
      rw [hq]
      exact (((perm_insertSeg seg s.pcb.unsent).append_right rest).trans
        List.perm_middle.symm).subperm
  · exact .refl _

theorem subperm_tcpReceiveDupack (s : St W) (seg : InSegment) (rightWndEdge : U32) :
    (tcpReceiveDupack s seg rightWndEdge).core.segs.Subperm s.core.segs := by
  unfold tcpReceiveDupack cwndInflate
  dsimp only
  repeat' split
  all_goals first
    | exact .refl _
    | exact (subperm_tcpRexmitFast _).trans (.refl _)

theorem tcpReceiveFree_queues {next : TcpSeg} (h : tcpReceiveFree s next = .ok s') :
    s'.pcb.unsent = s.pcb.unsent ∧ s'.pcb.unacked = s.pcb.unacked := by
  obtain ⟨_, -, h⟩ := Run.bind_eq_ok.mp h
  obtain ⟨_, -, h⟩ := Run.bind_eq_ok.mp h
  cases h
  exact ⟨rfl, rfl⟩

/-- An ACK takes segments from the front of `unacked`. -/
theorem tcpReceiveUnacked_queues {ackno : U32} {q : List TcpSeg} (hq : s.pcb.unacked = q)
    (h : tcpReceiveUnacked ackno q s = .ok s') :
    s'.pcb.unsent = s.pcb.unsent ∧ s'.pcb.unacked <:+ q := by
  induction q generalizing s with
  | nil =>
    cases h
    exact ⟨rfl, by rw [hq]⟩
  | cons next rest ih =>
    rw [tcpReceiveUnacked] at h
    split at h
    · obtain ⟨s₁, h₁, h⟩ := Run.bind_eq_ok.mp h
      obtain ⟨e₁, e₂⟩ := tcpReceiveFree_queues h₁
      obtain ⟨i₁, i₂⟩ := ih e₂ h
      exact ⟨i₁.trans e₁, i₂.trans (List.suffix_cons _ _)⟩
    · cases h
      exact ⟨rfl, by rw [hq]⟩

/-- An ACK takes segments from the front of `unsent`. -/
theorem tcpReceiveUnsent_queues {ackno : U32} {q : List TcpSeg} (hq : s.pcb.unsent = q)
    (h : tcpReceiveUnsent ackno q s = .ok s') :
    s'.pcb.unacked = s.pcb.unacked ∧ s'.pcb.unsent <:+ q := by
  induction q generalizing s with
  | nil =>
    cases h
    exact ⟨rfl, by rw [hq]⟩
  | cons next rest ih =>
    rw [tcpReceiveUnsent] at h
    split at h
    · obtain ⟨s₁, h₁, h⟩ := Run.bind_eq_ok.mp h
      obtain ⟨e₁, e₂⟩ := tcpReceiveFree_queues h₁
      obtain ⟨i₁, i₂⟩ := ih e₁ h
      exact ⟨i₁.trans e₂, i₂.trans (List.suffix_cons _ _)⟩
    · cases h
      exact ⟨rfl, by rw [hq]⟩

theorem tcpReceiveNewAck_queues {ackno : U32} (h : tcpReceiveNewAck s ackno = .ok s') :
    s'.pcb.unsent = s.pcb.unsent ∧ s'.pcb.unacked <:+ s.pcb.unacked := by
  obtain ⟨s₁, h₁, h⟩ := Run.bind_eq_ok.mp h
  cases h
  have hc (pcb : Pcb) : (cwndAck pcb).unsent = pcb.unsent ∧ (cwndAck pcb).unacked = pcb.unacked := by
    unfold cwndAck cwndInflate
    dsimp only
    split_ifs <;> exact ⟨rfl, rfl⟩
  generalize hp : (if s.pcb.tfInfr then
    ({ s.pcb with tfInfr := false, cwnd := s.pcb.ssthresh } : Pcb) else s.pcb) = pcb at h₁
  have hpu : pcb.unsent = s.pcb.unsent ∧ pcb.unacked = s.pcb.unacked := by
    rw [← hp]
    split <;> exact ⟨rfl, rfl⟩
  dsimp only at h₁
  obtain ⟨e₁, e₂⟩ := tcpReceiveUnacked_queues (hc _).2 h₁
  rw [(hc _).1] at e₁
  exact ⟨e₁.trans hpu.1, hpu.2 ▸ e₂⟩

theorem moves_tcpReceiveAck {seg : InSegment} (h : tcpReceiveAck s seg = .ok s') :
    Moves s.core s'.core := by
  refine .of_views (endView_tcpReceiveAck h) (rcvView_tcpReceiveAck h) ?_
  obtain ⟨s₁, h₁, h⟩ := Run.bind_eq_ok.mp h
  obtain ⟨s₂, h₂, h⟩ := Run.bind_eq_ok.mp h
  cases h
  obtain ⟨hna, hun⟩ := tcpReceiveUnsent_queues rfl h₂
  have hrtt : (tcpReceiveRtt s₂ seg.ackno).core.segs = s₂.core.segs := by
    unfold tcpReceiveRtt
    split <;> rfl
  rw [hrtt]
  have h₂ : s₂.core.segs.Subperm s₁.core.segs := by
    show (s₂.pcb.unsent ++ s₂.pcb.unacked).Subperm (s₁.pcb.unsent ++ s₁.pcb.unacked)
    rw [hna]
    exact (hun.sublist.append_right _).subperm
  refine h₂.trans ?_
  have hw : ({ s with pcb := tcpReceiveWindow s.pcb seg } : St W).core.segs = s.core.segs := by
    unfold tcpReceiveWindow
    split <;> rfl
  rw [← hw]
  unfold tcpReceiveAckno at h₁
  split at h₁
  · cases h₁
    exact subperm_tcpReceiveDupack _ _ _
  split at h₁
  · obtain ⟨e₁, e₂⟩ := tcpReceiveNewAck_queues h₁
    show (s₁.pcb.unsent ++ s₁.pcb.unacked).Subperm _
    rw [e₁]
    exact (e₂.sublist.append_left _).subperm
  · cases h₁
    rw [core_tcpSendEmptyAck]
    exact .refl _

/-- Behind the acknowledgment `tcp_receive` leaves the sending side alone. -/
theorem moves_tcpReceive {seg : InSegment} (h : tcpReceive s seg = .ok s') :
    ∃ c, Moves s.core c ∧ s'.core.toSndView = c.toSndView := by
  obtain ⟨_, -, h⟩ := Run.bind_eq_ok.mp h
  obtain ⟨s₁, h₁, h⟩ := Run.bind_eq_ok.mp h
  refine ⟨s₁.core, ?_, sndView_tcpReceiveData h⟩
  split at h₁
  · exact moves_tcpReceiveAck h₁
  · cases h₁
    exact .refl _

/-- What `tcp_process` does to the sending side behind `tcp_receive`: nothing, or it purges. -/
structure Settles (c c' : Core) : Prop where
  connId : c'.connId = c.connId
  tfFin : c'.tfFin = c.tfFin
  sndLbb : c'.sndLbb = c.sndLbb
  sndNxt : c'.sndNxt = c.sndNxt
  lastack : c'.lastack = c.lastack
  sndBuf : c'.sndBuf = c.sndBuf
  mss : c'.mss = c.mss
  queues : (c'.unsent = c.unsent ∧ c'.unacked = c.unacked) ∨
    (c'.unsent = [] ∧ c'.unacked = [] ∧ c'.state = .TIME_WAIT)
  state : c'.state = c.state ∨ c'.state = .CLOSE_WAIT ∨ c'.state = .CLOSING ∨
    c'.state = .FIN_WAIT_2 ∨ c'.state = .TIME_WAIT
  log : c'.log = c.log

theorem Settles.of_state {c c' : Core} (st : TcpState) (hc : c' = { c with state := st })
    (hst : st = c.state ∨ st = .CLOSE_WAIT ∨ st = .CLOSING ∨ st = .FIN_WAIT_2 ∨ st = .TIME_WAIT) :
    Settles c c' := by
  subst hc
  exact ⟨rfl, rfl, rfl, rfl, rfl, rfl, rfl, .inl ⟨rfl, rfl⟩, hst, rfl⟩

theorem settles_toTimeWait (s : St W) : Settles s.core (toTimeWait s).core := by
  by_cases hp : s.pcb.state ≠ .CLOSED ∧ s.pcb.state ≠ .TIME_WAIT
  · have hc : (toTimeWait s).core = { s.core with
        state := .TIME_WAIT, unsent := [], unacked := [], ooseq := [], unsentOversize := 0 } := by
      unfold toTimeWait tcpPcbPurge
      rw [if_pos hp]
      rfl
    rw [hc]
    exact ⟨rfl, rfl, rfl, rfl, rfl, rfl, rfl, .inr ⟨rfl, rfl, rfl⟩,
      .inr (.inr (.inr (.inr rfl))), rfl⟩
  · refine .of_state .TIME_WAIT ?_ (.inr (.inr (.inr (.inr rfl))))
    unfold toTimeWait tcpPcbPurge
    rw [if_neg hp]
    rfl

theorem settles_tcpProcessAfter (state : TcpState) (seg : InSegment) (s : St W) :
    Settles s.core (tcpProcessAfter state seg s).core := by
  have hrefl : Settles s.core s.core := .of_state s.core.state rfl (.inl rfl)
  unfold tcpProcessAfter
  dsimp only
  split
  · split
    · exact .of_state _ rfl (.inr (.inl rfl))
    · exact hrefl
  · split
    · exact .of_state _ rfl (.inr (.inl rfl))
    · exact hrefl
  · split
    · split
      · exact settles_toTimeWait (tcpAckNow s)
      · exact .of_state _ rfl (.inr (.inr (.inl rfl)))
    · split
      · exact .of_state _ rfl (.inr (.inr (.inr (.inl rfl))))
      · exact hrefl
  · split
    · exact settles_toTimeWait (tcpAckNow s)
    · exact hrefl
  · split
    · exact settles_toTimeWait s
    · exact hrefl
  · split
    · exact hrefl
    · exact hrefl
  · exact hrefl

theorem settles_tcpProcessAcceptAfter (s : St W) :
    Settles s.core (tcpProcessAcceptAfter s).core := by
  unfold tcpProcessAcceptAfter
  dsimp only
  split
  · exact .of_state _ rfl (.inr (.inl rfl))
  · exact .of_state s.core.state rfl (.inl rfl)

/-- `tcp_receive` and what `tcp_process` does behind it. -/
theorem processReceive_core {seg : InSegment} {after : St W → St W}
    (hafter : ∀ t, Settles t.core (after t).core)
    (h : tcpProcessReceive s seg after = .ok s') :
    ∃ c s₁, Moves s.core c ∧ (s₁ : St W).core.toSndView = c.toSndView ∧
      (s₁.pcb.state = s.pcb.state ∨
        (s.pcb.state = .ESTABLISHED ∧ s₁.pcb.state = .CLOSE_WAIT)) ∧
      ∃ c', Settles s₁.core c' ∧ ∃ o : Out, o.Silent ∧
        (∀ arg, o ≠ .wrote arg) ∧ s'.core = { c' with log := c'.log ++ [o] } := by
  obtain ⟨s₁, h₁, h⟩ := Run.bind_eq_ok.mp h
  obtain ⟨c, hm, hv⟩ := moves_tcpReceive h₁
  cases h
  refine ⟨c, s₁, hm, hv, state_tcpReceive h₁, (after s₁).core, hafter s₁,
    .process seg s.pcb s₁.pcb (after s₁).pcb (after s₁).recvClosed, ?_, ?_, ?_⟩
  · trivial
  · rintro arg ⟨⟩
  · exact core_emit (by trivial) _

/-! ## Probes -/

/-- `tcp_zero_window_probe` sends a part of a queued segment. -/
theorem probe_core (s : St W) : ∃ log, (tcpZeroWindowProbe s).2.core = { s.core with log := log } ∧
    ∀ o ∈ log, o ∈ s.core.log ∨ ∃ seg ∈ s.core.segs, ∃ sent,
      o = .ipOutputIf (s.pcb.probePacket seg) sent s.core.state s.core.connId := by
  rcases tcpZeroWindowProbe_cases s with ⟨hp, ht⟩ | ⟨seg, hseg, sent, hp, ht⟩
  · refine ⟨s.core.log, ?_, fun o ho => .inl ho⟩
    simp only [St.core, St.sndView, hp, ht]
  · have hmem : seg ∈ s.core.segs := by
      show seg ∈ s.pcb.unsent ++ s.pcb.unacked
      rw [Option.or_eq_some_iff] at hseg
      rcases hseg with h | ⟨-, h⟩
      · exact List.mem_append_right _ (List.mem_of_mem_head? h)
      · exact List.mem_append_left _ (List.mem_of_mem_head? h)
    refine ⟨(tcpZeroWindowProbe s).2.core.log, ?_, fun o ho => ?_⟩
    · simp only [St.core, St.sndView, hp]
      rfl
    · obtain ⟨ho, hc⟩ := List.mem_filter.mp ho
      rw [ht, List.mem_append, List.mem_singleton] at ho
      rcases ho with ho | rfl
      · exact .inl (List.mem_filter.mpr ⟨ho, hc⟩)
      · exact .inr ⟨seg, hmem, sent, rfl⟩

end Rudp
