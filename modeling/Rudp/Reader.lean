import Rudp.Stream
import Rudp.Acked
import Rudp.Victim
import Rudp.Micro

/-!
# A reader

The application of the receiving side only reads: it calls `tcp_recved`, from outside or in a callback,
and refuses data when it likes. Its connection begins with `tcp_listen_input`, in `SYN_RCVD`, and the
peer sends slices of the stream, the SYN and what else has its number, and resets.

Results:
* `Open.input`, `Reading.step`: what one operation preserves.
* `Reading.told`: what the application has been given is a prefix of the stream.
-/

namespace Rudp

open Serial

variable {W : Type} {s s' : St W} {S : List Byte} {r₀ : U32} {app : App W}

/-! ## The application -/

/-- The application calls nothing but `tcp_recved`. -/
def Reads (_ : Core) : Api → Prop
  | .recved _ => True
  | _ => False

/-- An application that reads. Each callback may return any value but `ERR_ABRT`. -/
structure ReadsOnly (app : App W) : Prop where
  calls : AppOk Reads app
  ret : ∀ e s ret s', app e s = .ok (ret, s') → ret ≠ .abrt

theorem recved_of_apiCall {a : Api} {err : Err} (ha : Reads s.core a)
    (h : apiCall s a = .ok (err, s')) :
    s.freed = false ∧ ∃ len ≤ 65535, tcpRecved s len = .ok s' := by
  obtain ⟨_, hl, h⟩ := Run.bind_eq_ok.mp h
  unfold St.live at hl
  split at hl
  · cases hl
  · next hf =>
    refine ⟨by simpa using hf, ?_⟩
    cases a with
    | recved len =>
      obtain ⟨s₁, h₁, h⟩ := Run.bind_eq_ok.mp h
      cases h
      exact ⟨len, by omega, h₁⟩
    | _ => exact ha.elim

theorem ReadsOnly.readerApp (h : ReadsOnly app) : ReaderApp app := by
  intro e s ret s' hr
  refine ⟨h.ret e s ret s' hr, ?_⟩
  refine Relation.ReflTransGen.mono ?_ _ _ (h.calls e s ret s' hr)
  rintro t t' (hw | ⟨a, err, ha, hc⟩)
  · exact .inl hw
  · exact .inr (recved_of_apiCall ha hc).2

theorem ReadsOnly.noConnect (h : ReadsOnly app) : AppOk NoConnect app := by
  intro e s ret s' hr
  refine Relation.ReflTransGen.mono ?_ _ _ (h.calls e s ret s' hr)
  rintro t t' (hw | ⟨a, err, ha, hc⟩)
  · exact .inl hw
  · refine .inr ⟨a, err, ?_, hc⟩
    cases a with
    | connect => exact ha.elim
    | _ => trivial

/-! ## The segments -/

/-- The segment has the number in front of the stream, like the SYN. -/
structure Front (r₀ : U32) (seg : InSegment) : Prop where
  seqno : seg.seqno + 1 = r₀
  tcplen : seg.tcplen = 1
  fin : seg.flags.fin = false

/-- A reset, or what the peer sends. -/
def FromPeer (S : List Byte) (r₀ : U32) (seg : InSegment) : Prop :=
  seg.flags.rst = false → Front r₀ seg ∨ ∃ k, Honest S r₀ k seg

/-- What lies in front of the stream changes nothing. -/
theorem Front.tcpReceiveData {seg : InSegment} {n : ℕ} (hf : Front r₀ seg)
    (hr : s.pcb.rcvNxt = r₀ + u32 n) (hn : n < 2147483646) (hw : s.pcb.rcvWnd ≤ 65535)
    (h : tcpReceiveData s seg = .ok s') : s'.rcvView = s.rcvView := by
  have hd : dist seg.seqno s.pcb.rcvNxt = -n - 1 := by
    have h0 : dist s.pcb.rcvNxt r₀ = n := by
      rw [hr, dist_add_u32 _ _ _ (by rw [dist_self]; omega), dist_self, zero_add]
    have h1 : dist r₀ s.pcb.rcvNxt = -n := by
      rw [dist_neg (by omega), h0]
    rw [eq_sub_of_add_eq hf.seqno, dist_sub_one _ _ (by omega), h1]
  rcases tcpReceiveData_cases h with h | ⟨-, -, c, -, hc, -, hin, -⟩
  · exact h
  · exfalso
    have hno : ¬ overlaps s.pcb.rcvNxt seg := by
      unfold overlaps
      rw [overlap_iff (by omega) (by rw [hf.tcplen]; decide) (by rw [hf.tcplen]; decide), hf.tcplen]
      omega
    unfold tcpReceiveFirstEdge at hc
    rw [if_neg hno] at hc
    cases hc
    have hdist : dist seg.inseg.tcphdr.seqno s.pcb.rcvNxt = -n - 1 := hd
    rw [inWindow_iff hw (.inl (by omega)), hdist] at hin
    omega

theorem Front.tcpReceive {seg : InSegment} {n : ℕ} (hf : Front r₀ seg)
    (hr : s.pcb.rcvNxt = r₀ + u32 n) (hn : n < 2147483646) (hw : s.pcb.rcvWnd ≤ 65535)
    (h : tcpReceive s seg = .ok s') : s'.rcvView = s.rcvView := by
  obtain ⟨-, s₁, -, hv, h⟩ := tcpReceive_parts h
  rw [← hv]
  apply hf.tcpReceiveData _ hn _ h
  · rw [← hr]
    exact congrArg RcvView.rcvNxt hv
  · rw [show s₁.pcb.rcvWnd = s.pcb.rcvWnd from congrArg RcvView.rcvWnd hv]
    exact hw

/-- In a short stream no number is taken for another. -/
theorem Honest.unaliased {k pos : ℕ} {seg : InSegment} (h : Honest S r₀ pos seg)
    (hS : S.length < 1073741824) (hk : k ≤ S.length) (pcb : Pcb) : Unaliased pcb k pos seg := by
  intro hl _
  have := (h.slice hl).le
  omega

/-! ## The pcb is gone -/

/-- The pcb has been freed, behind the same callbacks. -/
structure Removed (s s' : St W) : Prop where
  freed : s'.freed = true
  list : s'.list = .none
  same : events s'.trace = events s.trace

theorem events_of_rcvView (h : s'.rcvView = s.rcvView) : events s'.trace = events s.trace := by
  rw [← events_filter s'.trace, ← events_filter s.trace]
  exact congrArg (fun v => events v.log) h

theorem events_tcpPcbRemove (h : tcpPcbRemove s = .ok s') :
    s'.list = .none ∧ events s'.trace = events s.trace := by
  have hv := rcvView_tcpPcbRemove h
  exact ⟨(list_of_rcvView hv).trans rfl, (events_of_rcvView hv).trans rfl⟩

theorem events_emit (s : St W) {o : Out} (h : events [o] = []) :
    events (s.emit o).trace = events s.trace := by
  unfold St.emit
  rw [events_append, h, List.append_nil]

theorem removed_tcpAbandon {reset : Bool} (h : tcpAbandon s reset = .ok s') : Removed s s' := by
  obtain ⟨pcb, changed, outs, hv, ho⟩ := rcvView_tcpAbandon h
  refine ⟨congrArg (fun v => v.freed) hv, congrArg (fun v => v.list) hv, (events_of_rcvView hv).trans ?_⟩
  show events (s.trace ++ outs) = events s.trace
  rw [events_append]
  rcases ho with rfl | rfl <;> exact List.append_nil _

theorem removed_tcpInputRemove {err : Option Err} (h : tcpInputRemove s err = .ok s') :
    Removed s s' := by
  unfold tcpInputRemove at h
  obtain ⟨s₁, h₁, h⟩ := Run.bind_eq_ok.mp h
  cases h
  obtain ⟨hl, he⟩ := events_tcpPcbRemove h₁
  refine ⟨rfl, hl, he.trans ?_⟩
  cases err with
  | none => rfl
  | some e => exact events_emit s rfl

theorem removed_tcpSlowtmrRemove (s : St W) (reset : Bool) : Removed s (tcpSlowtmrRemove s reset) := by
  refine ⟨rfl, ?_, ?_⟩
  · show (if _ then _ else _ : St W).list = _
    split
    · exact (list_of_rcvView (rcvView_tcpRst _ _ _ _)).trans rfl
    · rfl
  · unfold tcpSlowtmrRemove
    rw [events_emit _ rfl]
    show events (if _ then _ else _ : St W).trace = _
    split
    · exact (events_of_rcvView (rcvView_tcpRst _ _ _ _)).trans rfl
    · rfl

/-! ## The connection -/

/-- What the application has been given is a prefix of the stream, and EOF has come behind all of
    it. -/
structure Told (S : List Byte) (es : List (Event × Err)) : Prop where
  acc_prefix : accepted es <+: S
  eof_once : eofs es ≤ 1
  eof_last : EofLast S es

/-- The view as it is when the handshake ends. -/
def RcvView.established (v : RcvView W) : RcvView W := { v with state := .ESTABLISHED }

/-- The pcb receives, or will when the handshake ends. -/
def Open (S : List Byte) (r₀ : U32) (v : RcvView W) : Prop :=
  StreamInv S r₀ false v ∨
    (v.state = .SYN_RCVD ∧ v.refusedData = none ∧ StreamInv S r₀ false v.established)

/-- The invariant of a reader. -/
def Reading (S : List Byte) (r₀ : U32) (s : St W) : Prop :=
  (s.freed = true ∧ s.list = .none ∧ Told S (events s.trace)) ∨ Open S r₀ s.rcvView.fresh

namespace Open

variable {v : RcvView W}

theorem reread {w : ℕ} (h : Open S r₀ v) (hw : w ≤ TCP_WND) (x : W) : Open S r₀ (v.reread w x) := by
  rcases h with h | ⟨hst, hr, h⟩
  · exact .inl (h.reread hw x)
  · exact .inr ⟨hst, hr, h.reread hw x⟩

theorem event {e : Event} {ret : Err} (h : Open S r₀ v) (ha : accepted [(e, ret)] = [])
    (he : e ≠ .closed) : Open S r₀ (v.event e ret) := by
  rcases h with h | ⟨hst, hr, h⟩
  · exact .inl (h.event ha he)
  · exact .inr ⟨hst, hr, h.event ha he⟩

theorem inputPcb (h : Open S r₀ v) (b : Bool) : Open S r₀ { v with inputPcb := b } := by
  rcases h with h | ⟨hst, hr, h⟩
  · exact .inl (h.inputPcb b)
  · exact .inr ⟨hst, hr, h.inputPcb b⟩

theorem noticed (h : Open S r₀ v) (b : Bool) : Open S r₀ { v with changed := b } := by
  rcases h with h | ⟨hst, hr, h⟩
  · exact .inl (h.noticed b)
  · exact .inr ⟨hst, hr, h.noticed b⟩

theorem ooseq (h : Open S r₀ v) : Open S r₀ { v with ooseq := [] } := by
  rcases h with h | ⟨hst, hr, h⟩
  · exact .inl { h with recv := h.recv.imp fun _ hk => { hk with chain := fun _ => trivial } }
  · exact .inr ⟨hst, hr,
      { h with recv := h.recv.imp fun _ hk => { hk with chain := fun _ => trivial } }⟩

/-- Nothing is pending outside of `tcp_input`. -/
theorem live (h : Open S r₀ v) : v.freed = false ∧ v.recvReset = false ∧ v.recvClosed = false := by
  rcases h with h | ⟨-, -, h⟩
  · exact ⟨h.live, h.noReset, h.noClosed⟩
  · exact ⟨h.live, h.noReset, h.noClosed⟩

/-- All that has been received has been accepted or is parked, and the window moved as far. -/
theorem received (h : Open S r₀ v) (hd : v.recvData = none) :
    v.rcvWnd ≤ TCP_WND ∧ v.received ≤ S.length ∧
      accepted (events v.log) ++ parked v.refusedData = S.take v.received ∧
      v.rcvNxt = r₀ + u32 (v.received + v.state.finTaken.toNat) ∧
      (v.state.finTaken = true → v.received = S.length) := by
  rcases h with h | ⟨hst, -, h⟩
  · obtain ⟨k, hk⟩ := h.recv
    obtain rfl := hk.eq_received hd
    have hdata := hk.data
    rw [RcvView.data, hd, Option.getD_none, bytes_nil, List.append_nil] at hdata
    exact ⟨hk.rcvWnd, hk.le, hdata, hk.rcvNxt, hk.fin_end⟩
  · obtain ⟨k, hk⟩ := h.recv
    obtain rfl := hk.eq_received hd
    have hdata := hk.data
    rw [RcvView.data, show v.established.recvData = none from hd, Option.getD_none, bytes_nil,
      List.append_nil] at hdata
    have hnxt := hk.rcvNxt
    rw [hst]
    exact ⟨hk.rcvWnd, hk.le, hdata, hnxt, fun hf => by cases hf⟩

theorem told (h : Open S r₀ s.rcvView.fresh) : Told S (events s.trace) := by
  rcases h with h | ⟨-, -, h⟩
  · exact ⟨h.intact.acc_prefix, h.intact.eof_once, h.intact.eof_last⟩
  · have hi : StreamIntact S r₀ ({ s with pcb.state := .ESTABLISHED } : St W) := StreamInv.intact h
    exact ⟨hi.acc_prefix, hi.eof_once, hi.eof_last⟩

/-- A callback that takes no data. -/
theorem tcpEvent (happ : ReaderApp app) {e : Event} {ret : Err} (ha : accepted [(e, ret)] = [])
    (he : e ≠ .closed) (h : tcpEvent app e s = .ok (ret, s')) (hI : Open S r₀ s.rcvView.fresh) :
    ret ≠ .abrt ∧ Open S r₀ s'.rcvView.fresh ∧ s'.pcb.state = s.pcb.state ∧
      s'.recvGotFin = s.recvGotFin ∧ s'.recvData = s.recvData := by
  obtain ⟨hret, w, hw, x, hv⟩ := rcvView_tcpEvent happ (hI.received rfl).1 h
  refine ⟨hret, ?_, congrArg RcvView.state hv, congrArg RcvView.recvGotFin hv,
    congrArg RcvView.recvData hv⟩
  rw [hv]
  exact (hI.reread hw x).event ha he

end Open

theorem Removed.reading (h : Removed s s') (hI : Told S (events s.trace)) : Reading S r₀ s' :=
  .inl ⟨h.freed, h.list, h.same ▸ hI⟩

/-! ## The timers -/

theorem rcvView_tcpSlowtmrPersist (h : tcpSlowtmrPersist s = .ok s') : s'.rcvView = s.rcvView := by
  unfold tcpSlowtmrPersist at h
  split at h
  · cases h
  · next backoffCnt _ =>
    dsimp only at h
    have hv : (if s.pcb.persistCnt < backoffCnt then
        ({ s with pcb.persistCnt := s.pcb.persistCnt + 1 } : St W) else s).rcvView = s.rcvView := by
      split <;> rfl
    generalize (if s.pcb.persistCnt < backoffCnt then
      ({ s with pcb.persistCnt := s.pcb.persistCnt + 1 } : St W) else s) = t at h hv
    split at h
    · have hp := rcvView_tcpZeroWindowProbe t
      generalize tcpZeroWindowProbe t = x at h hp
      obtain ⟨err, t₁⟩ := x
      dsimp only at h hp
      split at h
      · cases h
        exact hp.trans hv
      · cases h
        exact hp.trans hv
    · cases h
      exact hv

theorem rcvView_tcpSlowtmrRexmit (h : tcpSlowtmrRexmit s = .ok s') : s'.rcvView = s.rcvView := by
  unfold tcpSlowtmrRexmit at h
  dsimp only at h
  have hv : (if s.pcb.rtime ≥ 0 then
      ({ s with pcb.rtime := s16 (s.pcb.rtime + 1) } : St W) else s).rcvView = s.rcvView := by
    split <;> rfl
  generalize (if s.pcb.rtime ≥ 0 then
    ({ s with pcb.rtime := s16 (s.pcb.rtime + 1) } : St W) else s) = t at h hv
  split at h
  · obtain ⟨rto, -, h⟩ := Run.bind_eq_ok.mp h
    exact ((rcvView_tcpRexmitRto h).trans rfl).trans hv
  · cases h
    exact hv

theorem rcvView_tcpSlowtmrSend (h : tcpSlowtmrSend s = .ok s') : s'.rcvView = s.rcvView := by
  unfold tcpSlowtmrSend at h
  split at h
  · cases h
    rfl
  · split at h
    · exact rcvView_tcpSlowtmrPersist h
    · exact rcvView_tcpSlowtmrRexmit h

theorem rcvView_tcpSlowtmrKeepalive (s : St W) :
    (tcpSlowtmrKeepalive s).2.rcvView = s.rcvView := by
  unfold tcpSlowtmrKeepalive
  split
  · split
    · rfl
    · split
      · have hk := rcvView_tcpKeepalive s
        generalize tcpKeepalive s = x at hk ⊢
        obtain ⟨err, t⟩ := x
        dsimp only at hk ⊢
        split
        · exact hk
        · exact hk
      · rfl
  · rfl

/-- The timers of `tcp_slowtmr` leave the receiver alone, but for ooseq. Then the pcb is removed, or
    the poll callback is called when it is time. -/
theorem tcpSlowtmr_parts {app : App W} (h : tcpSlowtmr app s = .ok s') : ∃ t : St W,
    (t.rcvView = s.rcvView ∨ t.rcvView = ({ s with pcb.ooseq := [] } : St W).rcvView) ∧
      ((∃ reset, s' = tcpSlowtmrRemove t reset) ∨ s'.rcvView = t.rcvView ∨
        ∃ err u, tcpEvent app .poll { t with pcb.polltmr := 0, changed := false } = .ok (err, u) ∧
          s'.rcvView = u.rcvView) := by
  obtain ⟨s₁, h₁, h⟩ := Run.bind_eq_ok.mp h
  have hv : (tcpSlowtmrKeepalive s₁).2.rcvView = s.rcvView :=
    (rcvView_tcpSlowtmrKeepalive s₁).trans (rcvView_tcpSlowtmrSend h₁)
  generalize tcpSlowtmrKeepalive s₁ = x at h hv
  obtain ⟨reset, s₂⟩ := x
  dsimp only at h hv
  refine ⟨tcpSlowtmrOoseq s₂, ?_, ?_⟩
  · unfold tcpSlowtmrOoseq
    split
    · exact .inr (congrArg (fun v => { v with ooseq := [] }) hv)
    · exact .inl hv
  generalize tcpSlowtmrOoseq s₂ = t at h ⊢
  split at h
  · cases h
    exact .inl ⟨reset, rfl⟩
  right
  unfold tcpSlowtmrPoll at h
  dsimp only at h
  split at h
  · obtain ⟨⟨err, u⟩, hu, h⟩ := Run.bind_eq_ok.mp h
    refine .inr ⟨err, u, hu, ?_⟩
    dsimp only at h
    split at h
    · obtain ⟨_, -, h⟩ := Run.bind_eq_ok.mp h
      obtain ⟨⟨err', u'⟩, hu', rfl⟩ := Run.map_eq_ok.mp h
      exact rcvView_tcpOutput hu'
    · cases h
      rfl
  · cases h
    exact .inl rfl

/-- The slow timer keeps the connection open or removes it. -/
theorem Open.slowtmr (happ : ReaderApp app) (hI : Open S r₀ s.rcvView.fresh)
    (h : tcpSlowtmr app s = .ok s') : Reading S r₀ s' := by
  obtain ⟨t, ht, h⟩ := tcpSlowtmr_parts h
  have hI₁ : Open S r₀ t.rcvView.fresh := by
    rcases ht with ht | ht <;> rw [ht]
    · exact hI
    · exact hI.ooseq
  rcases h with ⟨reset, rfl⟩ | hs' | ⟨err, u, hu, hs'⟩
  · exact (removed_tcpSlowtmrRemove t reset).reading hI₁.told
  · right
    rw [hs']
    exact hI₁
  · right
    rw [hs']
    exact (Open.tcpEvent happ rfl (by simp) hu (hI₁.noticed false)).2.1

/-- The fast timer offers refused data again. -/
theorem Open.fasttmr (happ : ReaderApp app) (hI : Open S r₀ s.rcvView.fresh)
    (h : tcpFasttmr app s = .ok s') : Open S r₀ s'.rcvView.fresh := by
  obtain ⟨s₁, h₁, h⟩ := Run.bind_eq_ok.mp h
  have hv := rcvView_tcpFasttmrAck h₁
  rw [← hv] at hI
  split at h
  · next hr =>
    obtain ⟨⟨err, s₂⟩, h₂, rfl⟩ := Run.map_eq_ok.mp h
    rcases hI with hI | ⟨-, hr', -⟩
    · exact .inl (StreamInv.processRefusedData happ (hI.noticed false) h₂).2.1
    · exact absurd hr' hr
  · cases h
    exact hI

/-! ## Segments -/

/-- Nothing is set of what `tcp_input` keeps between its parts. -/
def RcvView.Idle (v : RcvView W) : Prop := v.fresh = v

theorem RcvView.Idle.of_rcvView (h : s.rcvView.Idle) (hv : s'.rcvView = s.rcvView) :
    s'.rcvView.Idle := by
  rw [hv]
  exact h

/-- The application is offered what it refused. -/
theorem Open.refused (happ : ReaderApp app) {seg : InSegment} {dropped : Bool}
    (hI : Open S r₀ s.rcvView.fresh)
    (h : tcpInputRefused app s.resetRecv seg = .ok (dropped, s')) :
    Open S r₀ s'.rcvView ∧ s'.rcvView.Idle ∧ s'.pcb.state = s.pcb.state ∧
      (dropped = false → s'.pcb.refusedData ≠ none → seg.tcplen = 0) := by
  unfold tcpInputRefused at h
  split at h
  · next hr =>
    obtain ⟨⟨err, s₁⟩, h₁, h⟩ := Run.bind_eq_ok.mp h
    rcases hI with hI | ⟨-, hr', -⟩
    · obtain ⟨hne, hI₁, ⟨w, -, x, log, r, hv, -⟩, -⟩ :=
        StreamInv.processRefusedData happ (by exact hI) h₁
      dsimp only at h
      rw [if_neg hne] at h
      obtain ⟨_, -, h⟩ := Run.bind_eq_ok.mp h
      cases h
      have hidle : s'.rcvView.Idle := by
        rw [hv]
        rfl
      refine ⟨.inl (hidle ▸ hI₁), hidle, congrArg RcvView.state hv, fun hd hne => ?_⟩
      by_contra hl
      simp only [decide_eq_false_iff_not, not_and] at hd
      exact hd hne (by omega)
    · exact absurd hr' hr
  · next hr =>
    cases h
    exact ⟨hI, rfl, rfl, fun _ hne => absurd hne hr⟩

/-- `tcp_receive` and the state behind it, for a reader. -/
theorem StreamInv.received {seg : InSegment} (hI : StreamInv S r₀ false s.rcvView)
    (hidle : s.rcvView.Idle) (hst : s.pcb.state = .ESTABLISHED ∨ s.pcb.state = .CLOSE_WAIT)
    (hS : S.length < 1073741824) (hseg : Front r₀ seg ∨ ∃ k, Honest S r₀ k seg)
    (hr : s.pcb.refusedData ≠ none → seg.tcplen = 0) (h : tcpReceive s seg = .ok s') :
    StreamInv S r₀ s'.recvGotFin (tcpProcessAfter s.pcb.state seg s').rcvView := by
  obtain ⟨k, hk⟩ := hI.recv
  have hgot : s.recvGotFin = false := (congrArg RcvView.recvGotFin hidle).symm
  have hdat : s.recvData = none := (congrArg RcvView.recvData hidle).symm
  have hle := hk.le
  rcases hseg with hf | ⟨pos, hs⟩
  · have hb : s.rcvView.state.finTaken.toNat ≤ 1 := Bool.toNat_le _
    have hv := hf.tcpReceive hk.rcvNxt (by omega) (hk.rcvWnd.trans (by decide)) h
    have hg : s'.recvGotFin = false := (congrArg RcvView.recvGotFin hv).trans hgot
    rw [hg]
    rw [← hv] at hI
    rcases hst with e | e <;> rw [e] <;> unfold tcpProcessAfter <;>
      simp only [hg, Bool.false_eq_true, if_false] <;> exact hI
  · obtain ⟨k', r1, r2, r3, r4⟩ := Receiving.tcpReceive hk rfl hgot hs
      (fun _ => hs.unaliased hS hle _) h
    refine StreamInv.after hI (ctlView_tcpReceive h) r1 (fun hf => ⟨(r2 hf).1, ?_⟩)
      (fun hne => (r3 hne).resolve_left fun hne' => hne' hdat) r4 ?_ fun hc => ?_
    · by_contra hne
      have h0 := hr hne
      have h1 := (r2 hf).2
      omega
    · rcases hst with e | e <;> rw [e] <;> decide
    · rcases hst with e | e <;> rw [e] at hc <;> cases hc

/-- The same with the entry in the log. -/
theorem StreamInv.processed {seg : InSegment} {after : St W → St W}
    (hI : StreamInv S r₀ false s.rcvView) (hidle : s.rcvView.Idle)
    (hst : s.pcb.state = .ESTABLISHED ∨ s.pcb.state = .CLOSE_WAIT) (hS : S.length < 1073741824)
    (hseg : Front r₀ seg ∨ ∃ k, Honest S r₀ k seg)
    (hr : s.pcb.refusedData ≠ none → seg.tcplen = 0)
    (hafter : ∀ t : St W, (after t).rcvView = (tcpProcessAfter s.pcb.state seg t).rcvView)
    (h : tcpProcessReceive s seg after = .ok s') : StreamInv S r₀ s'.recvGotFin s'.rcvView := by
  obtain ⟨s₁, h₁, h⟩ := Run.bind_eq_ok.mp h
  cases h
  have hI₁ := hI.received hidle hst hS hseg hr h₁
  rw [← hafter] at hI₁
  have hg : (after s₁).recvGotFin = s₁.recvGotFin := by
    rw [show (after s₁).recvGotFin = (tcpProcessAfter s.pcb.state seg s₁).recvGotFin from
      congrArg RcvView.recvGotFin (hafter s₁), recvGotFin_tcpProcessAfter]
  rw [rcvView_emit _ _ rfl]
  show StreamInv S r₀ (after s₁).recvGotFin _
  rw [hg]
  exact hI₁.silent (by simp [events])

/-- What `tcp_process` leaves to the rest of `tcp_input`. -/
inductive Processed (S : List Byte) (r₀ : U32) (err : Err) (s : St W) : Prop
  /-- The connection is to be reset. -/
  | reset : err ≠ .abrt → s.recvReset = true → Told S (events s.trace) → Processed S r₀ err s
  /-- The accept callback did not want it. -/
  | refused : err = .abrt → s.freed = true → s.list = .none → Told S (events s.trace) →
    Processed S r₀ err s
  /-- The handshake goes on. -/
  | idle : err ≠ .abrt → Open S r₀ s.rcvView → s.rcvView.Idle → Processed S r₀ err s
  /-- There may be data. -/
  | data : err ≠ .abrt → StreamInv S r₀ s.recvGotFin s.rcvView → Processed S r₀ err s

theorem Open.processRst {seg : InSegment} {err : Err} (hI : Open S r₀ s.rcvView)
    (hidle : s.rcvView.Idle) (h : tcpProcessRst s seg = (err, s')) : Processed S r₀ err s' := by
  have htold : Told S (events s.trace) := Open.told (by rw [hidle]; exact hI)
  rcases tcpProcessRst_cases s seg with e | e
  · rw [e] at h
    cases h
    exact .reset (by decide) rfl htold
  · rw [e] at h
    cases h
    exact .idle (by decide) hI hidle

theorem rcvView_tcpProcessAcceptAfter (seg : InSegment) (t : St W) :
    (tcpProcessAcceptAfter t).rcvView = (tcpProcessAfter .ESTABLISHED seg t).rcvView := by
  unfold tcpProcessAcceptAfter tcpProcessAfter
  dsimp only
  split <;> rfl

/-- `tcp_process` at the end of the handshake. -/
theorem Open.processAccept (happ : ReaderApp app) {seg : InSegment} {err : Err}
    (hI : StreamInv S r₀ false s.rcvView.established) (hidle : s.rcvView.Idle)
    (href : s.pcb.refusedData = none) (hS : S.length < 1073741824)
    (hseg : Front r₀ seg ∨ ∃ k, Honest S r₀ k seg)
    (h : tcpProcessAccept app s seg = .ok (err, s')) : Processed S r₀ err s' := by
  obtain ⟨⟨ret, s₁⟩, h₁, h⟩ := Run.bind_eq_ok.mp h
  have hw : s.pcb.rcvWnd ≤ TCP_WND := by
    obtain ⟨k, hk⟩ := hI.recv
    exact hk.rcvWnd
  obtain ⟨hret, w, hw₁, x, hv⟩ := rcvView_tcpEvent happ (by exact hw) h₁
  have hI₁ : StreamInv S r₀ false s₁.rcvView := by
    rw [hv]
    exact (hI.reread hw₁ x).event rfl (by simp)
  have hidle₁ : s₁.rcvView.Idle := by
    have hi := congrArg (fun v => (v.established.reread w x).event .accept ret) hidle
    rw [hv]
    exact hi
  have hst : s₁.pcb.state = .ESTABLISHED := congrArg RcvView.state hv
  have href₁ : s₁.pcb.refusedData = none :=
    (congrArg (fun v => v.refusedData) hv).trans href
  dsimp only at h
  split at h
  · obtain ⟨_, -, h⟩ := Run.bind_eq_ok.mp h
    obtain ⟨s₂, h₂, h⟩ := Run.bind_eq_ok.mp h
    cases h
    have hrem := removed_tcpAbandon h₂
    refine .refused rfl hrem.freed hrem.list ?_
    rw [hrem.same]
    exact Open.told (.inl (hidle₁ ▸ hI₁))
  · obtain ⟨_, -, h⟩ := Run.bind_eq_ok.mp h
    obtain ⟨s₂, h₂, h⟩ := Run.bind_eq_ok.mp h
    cases h
    refine .data (by decide) (hI₁.processed hidle₁ (.inl hst) hS hseg (fun hne => absurd href₁ hne)
      (fun t => ?_) h₂)
    rw [hst]
    exact rcvView_tcpProcessAcceptAfter seg t

/-- `tcp_process` for a reader. -/
theorem Open.process (happ : ReaderApp app) {seg : InSegment} {err : Err}
    (hI : Open S r₀ s.rcvView) (hidle : s.rcvView.Idle)
    (hst : s.pcb.state = .SYN_RCVD ∨ s.pcb.state = .ESTABLISHED ∨ s.pcb.state = .CLOSE_WAIT)
    (hS : S.length < 1073741824) (hseg : FromPeer S r₀ seg)
    (hr : s.pcb.refusedData ≠ none → seg.tcplen = 0) (h : tcpProcess app s seg = .ok (err, s')) :
    Processed S r₀ err s' := by
  unfold tcpProcess at h
  split at h
  · exact hI.processRst hidle (Except.ok.inj h)
  next hrst =>
  split at h
  · cases h
    exact .idle (by decide) hI hidle
  have hv := rcvView_tcpProcessStart s seg
  have href : (tcpProcessStart s seg).pcb.refusedData = s.pcb.refusedData :=
    congrArg (fun v => v.refusedData) hv
  rw [← href] at hr
  rw [show s.pcb.state = (tcpProcessStart s seg).pcb.state from
    (congrArg RcvView.state hv).symm] at hst
  rw [← hv] at hI hidle
  generalize tcpProcessStart s seg = t at h hI hidle hst hr
  have hseg := hseg (by simpa using hrst)
  unfold tcpProcessState at h
  rcases hI with hI | ⟨hsyn, hnone, hI⟩
  · have hst : t.pcb.state = .ESTABLISHED ∨ t.pcb.state = .CLOSE_WAIT := by
      apply hst.resolve_left
      intro e
      have := hI.state.1
      rw [show t.rcvView.state = .SYN_RCVD from e] at this
      exact absurd this (by decide)
    have hmain {t' : St W}
        (h' : tcpProcessReceive t seg (tcpProcessAfter t.pcb.state seg) = .ok t') :
        Processed S r₀ .ok t' :=
      .data (by decide) (hI.processed hidle hst hS hseg hr (fun _ => rfl) h')
    rcases hst with e | e <;> rw [e] at h hmain
    · obtain ⟨t', h', h⟩ := Run.bind_eq_ok.mp h
      cases h
      exact hmain h'
    · obtain ⟨t', h', h⟩ := Run.bind_eq_ok.mp h
      cases h
      exact hmain h'
  · rw [show t.pcb.state = .SYN_RCVD from hsyn] at h
    have hsame {t' : St W} (hv : t'.rcvView = t.rcvView) : Processed S r₀ .ok t' :=
      .idle (by decide) (.inr (by rw [hv]; exact ⟨hsyn, hnone, hI⟩)) (hidle.of_rcvView hv)
    dsimp only at h
    unfold tcpProcessSynRcvd at h
    split at h
    · split at h
      · exact Open.processAccept happ hI hidle hnone hS hseg h
      · cases h
        exact hsame (rcvView_tcpRstReply t seg)
    · split at h
      · cases h
        exact hsame (rcvView_tcpRexmit t)
      · cases h
        exact hsame rfl

/-- The rest of `tcp_input` when there are no data. -/
theorem Open.inputEvents (happ : ReaderApp app) (hI : Open S r₀ s.rcvView) (hidle : s.rcvView.Idle)
    (h : tcpInputEvents app s = .ok s') : Open S r₀ s'.rcvView.fresh := by
  rw [← show s.rcvView.fresh = s.rcvView from hidle] at hI
  have hg : s.recvGotFin = false := (congrArg RcvView.recvGotFin hidle).symm
  have hd : s.recvData = none := (congrArg RcvView.recvData hidle).symm
  have hc : s.recvClosed = false := (congrArg (fun v => v.recvClosed) hidle).symm
  obtain ⟨⟨err, s₁⟩, h₁, h⟩ := Run.bind_eq_ok.mp h
  have h₁' : err ≠ .abrt ∧ Open S r₀ s₁.rcvView.fresh ∧ s₁.recvGotFin = false ∧
      s₁.recvData = none ∧ s₁.recvClosed = false := by
    unfold tcpInputSent at h₁
    split at h₁
    · obtain ⟨hret, w, -, x, hv⟩ := rcvView_tcpEvent happ (hI.received rfl).1 h₁
      obtain ⟨-, hI₁, -⟩ := Open.tcpEvent happ rfl (by simp) h₁ hI
      exact ⟨hret, hI₁, (congrArg RcvView.recvGotFin hv).trans hg,
        (congrArg RcvView.recvData hv).trans hd, (congrArg (fun v => v.recvClosed) hv).trans hc⟩
    · cases h₁
      exact ⟨by decide, hI, hg, hd, hc⟩
  obtain ⟨hret, hI₁, hg₁, hd₁, hc₁⟩ := h₁'
  dsimp only at h
  rw [if_neg hret] at h
  obtain ⟨_, -, h⟩ := Run.bind_eq_ok.mp h
  rw [if_neg (by rw [hc₁]; decide)] at h
  obtain ⟨⟨gone, s₂⟩, h₂, h⟩ := Run.bind_eq_ok.mp h
  unfold tcpInputRecv at h₂
  rw [hd₁] at h₂
  cases h₂
  dsimp only at h
  rw [if_neg (by decide)] at h
  obtain ⟨⟨aborted, s₃⟩, h₃, h⟩ := Run.bind_eq_ok.mp h
  unfold tcpInputFin at h₃
  rw [if_neg (by rw [hg₁]; decide)] at h₃
  cases h₃
  dsimp only at h
  rw [if_neg (by decide)] at h
  obtain ⟨_, -, h⟩ := Run.bind_eq_ok.mp h
  obtain ⟨⟨err', s₄⟩, h₄, h⟩ := Run.bind_eq_ok.mp h
  cases h
  have hv := congrArg (fun v => { v.fresh with inputPcb := false }) (rcvView_tcpOutput h₄)
  exact (congrArg (Open S r₀) hv).mpr (hI₁.inputPcb false)

/-- A segment keeps the connection open or removes it. -/
theorem Open.input (happ : ReaderApp app) {seg : InSegment} (hI : Open S r₀ s.rcvView.fresh)
    (hst : s.pcb.state = .SYN_RCVD ∨ s.pcb.state = .ESTABLISHED ∨ s.pcb.state = .CLOSE_WAIT)
    (hS : S.length < 1073741824) (hseg : FromPeer S r₀ seg)
    (h : tcpInput app s seg = .ok s') : Reading S r₀ s' := by
  obtain ⟨⟨dropped, s₁⟩, h₁, h⟩ := Run.bind_eq_ok.mp h
  obtain ⟨hI₁, hidle, hst₁, hr⟩ := hI.refused happ h₁
  dsimp only at h
  split at h
  · cases h
    right
    have hv : (tcpInputAborted s₁).rcvView.fresh = { s₁.rcvView with inputPcb := false } :=
      congrArg (fun v => { v with inputPcb := false }) hidle
    rw [hv]
    exact hI₁.inputPcb false
  next hd =>
  obtain ⟨⟨err, s₂⟩, h₂, h⟩ := Run.bind_eq_ok.mp h
  have hidle₁ := congrArg (fun v => { v with inputPcb := true }) hidle
  have hp := Open.process happ (s := { s₁ with inputPcb := true }) (hI₁.inputPcb true)
    (by exact hidle₁) (by rw [hst₁]; exact hst) hS hseg (hr (by simpa using hd)) h₂
  dsimp only at h
  cases hp with
  | reset herr hres htold =>
    rw [if_neg herr, if_pos hres] at h
    exact (removed_tcpInputRemove h).reading htold
  | refused herr hf hl htold =>
    rw [if_pos herr] at h
    cases h
    exact .inl ⟨hf, hl, htold⟩
  | idle herr hI₂ hidle₂ =>
    rw [if_neg herr, if_neg (by rw [show s₂.recvReset = false from hI₂.live.2.1]; decide)] at h
    exact .inr (hI₂.inputEvents happ hidle₂ h)
  | data herr hI₂ =>
    rw [if_neg herr, if_neg (by rw [show s₂.recvReset = false from hI₂.noReset]; decide)] at h
    exact .inr (.inl (hI₂.inputEvents happ h))

/-! ## Operations -/

/-- The states of a reader on the active list. -/
def St.ReaderState (s : St W) : Prop :=
  s.pcb.state = .SYN_RCVD ∨ s.pcb.state = .ESTABLISHED ∨ s.pcb.state = .CLOSE_WAIT

theorem readerState_tcpReceive {seg : InSegment} (h : tcpReceive s seg = .ok s')
    (hs : s.ReaderState) : s'.ReaderState := by
  rcases state_tcpReceive h with e | ⟨-, e⟩
  · unfold St.ReaderState
    rw [e]
    exact hs
  · exact .inr (.inr e)

/-- A reader never closes. -/
theorem preserved_readerState :
    Preserved Reads (fun _ _ => True) fun s : St W => s.list = .active → s.ReaderState where
  frame {s s'} hI hc hl ha := by
    unfold St.ReaderState
    rw [show s'.pcb.state = s.pcb.state from congrArg Core.state hc]
    exact hI (hl ha)
  callback _ hI := hI
  connect hP := hP.elim
  write hP := hP.elim
  recved _ _ hI := hI
  fin hP ha := by
    rcases ha with rfl | ⟨rx, rfl⟩
    · exact hP.elim
    · exact hP.elim
  output {s s' err} h hI ha := by
    have hv := rcvView_tcpOutput h
    unfold St.ReaderState
    rw [show s'.pcb.state = s.pcb.state from congrArg RcvView.state hv]
    exact hI (list_of_rcvView hv ▸ ha)
  rexmitRto {s s'} h hI ha := by
    have hv := rcvView_tcpRexmitRto h
    unfold St.ReaderState
    rw [show s'.pcb.state = s.pcb.state from congrArg RcvView.state hv]
    exact hI (list_of_rcvView hv ▸ ha)
  probe {s} hI ha := by
    have hv := rcvView_tcpZeroWindowProbe s
    unfold St.ReaderState
    rw [show (tcpZeroWindowProbe s).2.pcb.state = s.pcb.state from congrArg RcvView.state hv]
    exact hI (list_of_rcvView hv ▸ ha)
  rexmit {s} _ hI ha := by
    have hv := rcvView_tcpRexmit s
    unfold St.ReaderState
    rw [show (tcpRexmit s).pcb.state = s.pcb.state from congrArg RcvView.state hv]
    exact hI (list_of_rcvView hv ▸ ha)
  rcvWndFin {s} hI := by
    unfold Rudp.rcvWndFin
    split <;> exact hI
  mss _ _ hI := hI
  establish hst _ _ _ hI ha := by
    rcases hI ha with e | e | e <;> rw [hst] at e <;> cases e
  accept _ _ _ _ := .inr (.inl rfl)
  receive {s s' seg} hsyn _ h hI ha := by
    have hs := hI (active_tcpProcessReceive (fun _ => active_tcpProcessAfter) h ha)
    obtain ⟨s₁, h₁, h⟩ := Run.bind_eq_ok.mp h
    cases h
    have hs₁ := readerState_tcpReceive h₁ hs
    show (tcpProcessAfter s.pcb.state seg s₁).ReaderState
    rcases hs with e | e | e <;> rw [e] <;> unfold tcpProcessAfter
    · exact hs₁
    · dsimp only
      split
      · exact .inr (.inr rfl)
      · exact hs₁
    · dsimp only
      split
      · exact .inr (.inr rfl)
      · exact hs₁
  receiveAccept {app s s₁ s' seg} _ _ _ _ _ _ h hI ha := by
    have hl : s₁.list = .active := by
      refine active_tcpProcessReceive (fun t ht => ?_) h ha
      unfold tcpProcessAcceptAfter at ht
      dsimp only at ht
      split at ht <;> exact ht
    obtain ⟨s₂, h₂, h⟩ := Run.bind_eq_ok.mp h
    cases h
    have hs₂ := readerState_tcpReceive h₂ (hI hl)
    show (tcpProcessAcceptAfter s₂).ReaderState
    unfold tcpProcessAcceptAfter
    dsimp only
    split
    · exact .inr (.inr rfl)
    · exact hs₂
  purge hl _ ha := absurd ha hl
  timeWait _ hl _ _ _ _ _ ha := absurd ha hl
  closed hl _ _ _ _ ha := absurd ha hl
  clear hl _ _ ha := absurd ha hl
  ooseq hI := hI

/-- The condition on an operation: the application reads, and what arrives is from the peer. -/
def ReaderOp (S : List Byte) (r₀ : U32) (s : St W) (op : List Bool × Op) : Prop :=
  (∀ a, op.2 = .api a → Reads s.core a) ∧ ∀ seg, op.2 = .input seg → FromPeer S r₀ seg

theorem ReaderOp.stepOk {op : List Bool × Op} (h : ReaderOp S r₀ s op) :
    Preserved.StepOk Reads (fun _ _ => True) app s op := by
  obtain ⟨fails, op⟩ := op
  cases op with
  | api a => exact h.1 a rfl
  | input seg => exact fun _ _ => trivial
  | _ => trivial

/-- A pcb that is gone stays gone. -/
theorem gone_step {op : List Bool × Op} (hf : s.freed = true) (hl : s.list = .none)
    (h : connStep app s op = .ok s') :
    s'.freed = true ∧ s'.list = .none ∧ s'.trace = s.trace := by
  obtain ⟨fails, op⟩ := op
  unfold connStep connOp at h
  cases op with
  | api a =>
    obtain ⟨⟨err, s₁⟩, h₁, rfl⟩ := Run.map_eq_ok.mp h
    obtain ⟨_, h₁, -⟩ := Run.bind_eq_ok.mp h₁
    unfold St.live at h₁
    rw [if_pos hf] at h₁
    cases h₁
  | _ =>
    simp only [hl, reduceCtorEq, or_self, if_false] at h
    cases h
    exact ⟨hf, rfl, rfl⟩

/-- What one operation of a reader preserves. -/
theorem Reading.step (happ : ReadsOnly app) (hI : Reading S r₀ s)
    (hst : s.list = .active → s.ReaderState) (hS : S.length < 1073741824) {op : List Bool × Op}
    (hop : ReaderOp S r₀ s op) (h : connStep app s op = .ok s') : Reading S r₀ s' := by
  have hr := happ.readerApp
  rcases hI with ⟨hf, hl, htold⟩ | hI
  · obtain ⟨hf', hl', ht⟩ := gone_step hf hl h
    exact .inl ⟨hf', hl', ht ▸ htold⟩
  obtain ⟨fails, op⟩ := op
  unfold connStep connOp at h
  cases op with
  | api a =>
    obtain ⟨⟨err, s₁⟩, h₁, rfl⟩ := Run.map_eq_ok.mp h
    obtain ⟨-, len, -, h₁⟩ := recved_of_apiCall (s := { s with fails := fails }) (hop.1 a rfl) h₁
    obtain ⟨w, hw, hv⟩ := rcvView_tcpRecved h₁
    right
    have hI' := hI.reread hw s.world
    rw [hv]
    exact hI'
  | input seg =>
    dsimp only at h
    split at h
    · next hl =>
      exact Open.input (s := { s with fails := fails }) hr hI (hst hl) hS (hop.2 seg rfl) h
    · right
      rw [rcvView_tcpTimewaitInput h]
      exact hI
    · cases h
      exact .inr hI
  | fasttmr =>
    dsimp only at h
    split at h
    · exact .inr (Open.fasttmr hr (by exact hI) h)
    · cases h
      exact .inr hI
  | slowtmr =>
    dsimp only at h
    split at h
    · exact Open.slowtmr hr (by exact hI) h
    · cases h
      unfold tcpSlowtmrTw
      split
      · exact .inl ⟨rfl, rfl, hI.told⟩
      · exact .inr hI
    · cases h
      exact .inr hI
  | kill reset =>
    dsimp only at h
    split at h
    · exact (removed_tcpAbandon h).reading hI.told
    · cases h
      exact .inr hI

/-! ## Runs -/

/-- The number of sequence numbers received. -/
def St.taken (s : St W) : ℕ := s.rcvView.received + s.pcb.state.finTaken.toNat

/-- The sequence numbers up to the `n`-th of the stream. -/
def upTo (r₀ : U32) (n : ℕ) : Set U32 := {x | ∃ m ≤ n, x = r₀ + u32 m}

theorem upTo_mono {m n : ℕ} (h : m ≤ n) : upTo r₀ m ⊆ upTo r₀ n := by
  rintro x ⟨k, hk, rfl⟩
  exact ⟨k, hk.trans h, rfl⟩

/-- The invariant of a reader, with what it has acknowledged. -/
structure Reader (S : List Byte) (r₀ : U32) (s : St W) : Prop where
  reading : Reading S r₀ s
  state : s.list = .active → s.ReaderState
  acks : s.freed = false → s.ackView.Acks (upTo r₀ s.taken) (r₀ + u32 s.taken)

theorem u32_inj {m n : ℕ} (hm : m < 4294967296) (hn : n < 4294967296)
    (h : r₀ + u32 m = r₀ + u32 n) : m = n := by
  have h' : u32 m = u32 n := add_left_cancel h
  have ht := congrArg BitVec.toNat h'
  simp only [u32, BitVec.toNat_ofNat] at ht
  omega

theorem Open.taken (h : Open S r₀ s.rcvView.fresh) (hS : S.length < 1073741824) :
    s.pcb.rcvNxt = r₀ + u32 s.taken ∧ s.taken ≤ 1073741824 := by
  obtain ⟨-, hle, -, hnxt, -⟩ := h.received rfl
  have hb := Bool.toNat_le s.pcb.state.finTaken
  refine ⟨hnxt, ?_⟩
  have hle' : s.rcvView.received ≤ S.length := hle
  unfold St.taken
  omega

theorem Reader.step (happ : ReadsOnly app) (hI : Reader S r₀ s) (hS : S.length < 1073741824)
    {op : List Bool × Op} (hop : ReaderOp S r₀ s op) (h : connStep app s op = .ok s') :
    Reader S r₀ s' := by
  have hR := hI.reading.step happ hI.state hS hop h
  refine ⟨hR, ?_, fun hf => ?_⟩
  · have hk : Kept Reads _ _ app _ := preserved_readerState.toKept
    exact hk.step happ.calls hop.stepOk.kept h hI.state
  rcases hI.reading with ⟨hg, hl, -⟩ | hO
  · rw [(gone_step hg hl h).1] at hf
    cases hf
  rcases hR with ⟨hg, -⟩ | hO'
  · rw [hg] at hf
    cases hf
  obtain ⟨-, hle⟩ := hO.taken hS
  obtain ⟨hnxt', hle'⟩ := hO'.taken hS
  have hmem : r₀ + u32 s.taken ∈ upTo r₀ s.taken := ⟨_, le_rfl, rfl⟩
  obtain ⟨n, hn, hA⟩ := acks_step happ.noConnect (fun a ha => by
    have hr := hop.1 a ha
    cases a with
    | connect => exact hr.elim
    | _ => trivial) h hmem (hI.acks hO.live.1)
  have hA' := hA.rcvNxt
  rw [BitVec.add_assoc, ← u32_add] at hA hA'
  have hT : TCP_WND = 5360 := rfl
  have he : s'.taken = s.taken + n := by
    apply u32_inj (by omega) (by omega)
    rw [← hnxt']
    exact hA'
  rw [he]
  apply hA.mono
  intro x hx
  rcases hx with rfl | hx
  · exact ⟨_, le_rfl, rfl⟩
  · exact upTo_mono (Nat.le_add_right _ _) hx

/-- The pcb that `tcp_listen_input` made for the SYN, behind its answer. -/
def AnswersSyn (syn : InSegment) (s : St W) : Prop :=
  ∃ a err localPort serverId, Allocated a ∧
    tcpListenSynAck (tcpListenPcb a syn localPort serverId) = .ok (err, s) ∧ s.freed = false

/-- At first nothing has been received. -/
theorem AnswersSyn.reader {syn : InSegment} (h : AnswersSyn syn s) (S : List Byte) :
    Reader S (syn.seqno + 1) s := by
  obtain ⟨a, err, localPort, serverId, ha, hr, hf⟩ := h
  obtain ⟨htr, prio, iss, ticks, mss, -, -, hp⟩ := tcpListenPcb_spec ha syn localPort serverId
  have hl : (tcpListenPcb a syn localPort serverId).list = .active := by
    unfold tcpListenPcb tcpParseopt
    rfl
  generalize tcpListenPcb a syn localPort serverId = a' at hr htr hp hl
  obtain ⟨t, h₁, h₂⟩ := tcpListenSynAck_spec hr hf
  have hv : s.rcvView = a'.rcvView := (rcvView_tcpOutput h₂).trans (rcvView_tcpEnqueueFlags h₁)
  have hst : s.pcb.state = .SYN_RCVD := (congrArg RcvView.state hv).trans (congrArg Pcb.state hp :)
  have hlog : s.rcvView.log = [] := by
    rw [hv]
    show a'.trace.filter _ = []
    rw [htr]
    rfl
  have href : s.pcb.refusedData = none :=
    (congrArg (fun v => v.refusedData) hv).trans (congrArg Pcb.refusedData hp :)
  have hnxt : s.pcb.rcvNxt = syn.seqno + 1 :=
    (congrArg RcvView.rcvNxt hv).trans (congrArg Pcb.rcvNxt hp :)
  have htaken : s.taken = 0 := by
    unfold St.taken RcvView.received
    rw [hlog, show s.rcvView.refusedData = none from href, hst]
    rfl
  refine ⟨.inr (.inr ⟨hst, href, ?_⟩), fun _ => .inl hst, fun _ => ?_⟩
  · have hO : Opened (syn.seqno + 1) { s with pcb.state := .ESTABLISHED, trace := [] } := by
      refine ⟨hf, .inl rfl, ?_, ?_, hnxt, ?_, ?_, href, rfl⟩
      · exact (list_of_rcvView hv).trans hl
      · exact (congrArg (fun v => v.tfRxClosed) hv).trans (congrArg Pcb.tfRxClosed hp :)
      · exact ((congrArg RcvView.rcvWnd hv).trans (congrArg Pcb.rcvWnd hp :)).le
      · exact (congrArg RcvView.ooseq hv).trans (congrArg Pcb.ooseq hp :)
    have hI := hO.inv S
    have he : s.rcvView.fresh.established =
        ({ s with pcb.state := .ESTABLISHED, trace := [] } : St W).rcvView.fresh := by
      show { s.rcvView.fresh.established with log := s.rcvView.log } = _
      rw [hlog]
      rfl
    rw [he]
    exact hI
  · rw [htaken, show syn.seqno + 1 + u32 0 = syn.seqno + 1 from add_zero _]
    have hA : t.ackView.Acks (upTo (syn.seqno + 1) 0) (syn.seqno + 1) := by
      rw [(tcpEnqueueFlags_queues h₁).ackView]
      refine ⟨?_, congrArg Pcb.rcvNxt hp, ?_, fun o ho => ?_⟩
      · show a'.pcb.state ≠ _
        rw [hp]
        show TcpState.SYN_RCVD ≠ _
        decide
      · show a'.pcb.rcvWnd ≤ _
        rw [hp]
        exact le_rfl
      · rw [show a'.ackView.trace = [] from htr] at ho
        cases ho
    exact AckView.Acks.output h₂ ⟨0, le_rfl, (add_zero _).symm⟩ hA

/-- In every run of a reader whose peer sends slices of a stream, the SYN and resets, whatever expires,
    fails or is refused, each ACK that leaves, as long as the pcb is in use, is for what has been
    received: accepted by the application, or parked, or the FIN. -/
theorem acks_received {s₀ : St W} {syn : InSegment} (happ : ReadsOnly app) (h₀ : AnswersSyn syn s₀)
    (hS : S.length < 1073741824)
    (hr : Run.Reach (connStep app) (ReaderOp S (syn.seqno + 1)) s₀ s) (hf : s.freed = false) :
    ∀ o ∈ s.trace, ∀ x ∈ o.acks, ∃ m ≤ (accepted (events s.trace)).length +
      (parked s.pcb.refusedData).length + s.pcb.state.finTaken.toNat,
      x = syn.seqno + 1 + u32 m := by
  have hI := hr.invariant (h₀.reader S) fun _ _ _ hI hop h => hI.step happ hS hop h
  have hA := (hI.acks hf).acks
  have hev : events s.rcvView.log = events s.trace := events_filter s.trace
  rw [← hev]
  exact hA

/-! ### A run -/

theorem readsOnly_idle : ReadsOnly idleApp where
  calls := appOk_idleApp
  ret e s ret s' h := by
    cases h
    decide

/-- The SYN of the client. -/
def clientSyn : InSegment where
  tcphdr := { connid1 := 4000, connid2 := 0, seqno := 999, ackno := 0, hdrlen := 6
              flags := { syn := true }, wnd := TCP_WND }
  p := []
  bound := noData_bound

/-- The server has answered it. -/
def answering : St Unit :=
  match tcpListenSynAck (tcpListenPcb client clientSyn 80 7) with
  | .ok (_, s) => s
  | .error _ => client

theorem answersSyn_answering : AnswersSyn clientSyn answering :=
  ⟨client, _, 80, 7, ⟨⟨_, _, _, 0, rfl⟩, rfl⟩, rfl, rfl⟩

/-- The byte 7. -/
def byteSeg : InSegment where
  tcphdr := serverHdr 1000 1 { ack := true, psh := true } TCP_WND
  p := [{ payload := [7] }]
  bound := oneByte_bound

theorem honest_byteSeg : Honest [7] 1000 0 byteSeg where
  seqno _ := rfl
  slice _ := ⟨0, rfl, by decide, rfl⟩
  fin_end h := by cases h
  syn := rfl
  rst := rfl

theorem acks_received_byte : ∃ s : St Unit, Run.exec (connStep idleApp) answering
    [([], .input byteSeg)] = .ok s ∧ accepted (events s.trace) = [7] ∧
      ∀ o ∈ s.trace, ∀ x ∈ o.acks, ∃ m ≤ (accepted (events s.trace)).length +
        (parked s.pcb.refusedData).length + s.pcb.state.finTaken.toNat, x = 1000 + u32 m := by
  refine ⟨_, rfl, rfl, acks_received readsOnly_idle answersSyn_answering (S := [7]) (by decide)
    (.step ([], .input byteSeg) .refl ⟨?_, ?_⟩ rfl) rfl⟩
  · intro a h
    cases h
  · intro seg h _
    cases h
    exact .inr ⟨0, honest_byteSeg⟩

end Rudp
