import Rudp.Owed

/-!
# The right edge of the announced window

`tcp_update_rcv_ann_wnd` keeps `rcv_ann_right_edge ≤ rcv_nxt + rcv_ann_wnd ≤ rcv_nxt + rcv_wnd`
modulo `2^32` as long as it compares edges that are less than `2^31` apart. Every header moves
`rcv_ann_right_edge` up to the edge that it announces. `WndTurn` lists what happens to the window,
one thing at a time, where updates compare near edges.

Results:
* `tcpUpdateRcvAnnWnd_spec`: when the update keeps the order.
* `AckView.Announcing.run`: turns keep the order, and the edges that are announced do not move back.
* `tcpReceiveData_takes`: what `tcp_receive` does to the window.
-/

namespace Rudp

open Serial
open Relation (ReflTransGen)

variable {W : Type} {s s' s₀ : St W}

/-! ## The update -/

/-- The new right edge is less than `2^31` ahead of the announced one. Or else it is so far ahead that
    it seems to be behind, also with the increment that makes an update worthwhile, and `rcv_nxt` is
    less than `2^31` ahead. -/
def NearEdge (pcb : Pcb) : Prop :=
  tcpSeqGeq (pcb.rcvNxt + u32 pcb.rcvWnd) pcb.rcvAnnRightEdge ∨
    (¬ tcpSeqGeq (pcb.rcvNxt + u32 pcb.rcvWnd)
        (pcb.rcvAnnRightEdge + u32 (min (TCP_WND / 2) pcb.mss)) ∧
      tcpSeqGt pcb.rcvNxt pcb.rcvAnnRightEdge)

instance (pcb : Pcb) : Decidable (NearEdge pcb) := inferInstanceAs (Decidable (_ ∨ _))

/-- `n` sequence numbers are taken off the front of the window. -/
def Pcb.moved (pcb : Pcb) (n : ℕ) : Pcb :=
  { pcb with rcvNxt := pcb.rcvNxt + u32 n, rcvWnd := pcb.rcvWnd - n }

/-- What the update compares. -/
def Pcb.edges (pcb : Pcb) : U32 × ℕ × U32 × ℕ :=
  (pcb.rcvNxt, pcb.rcvWnd, pcb.rcvAnnRightEdge, pcb.mss)

theorem nearEdge_congr {p q : Pcb} (h : p.edges = q.edges) : NearEdge p ↔ NearEdge q := by
  have e₁ : p.rcvNxt = q.rcvNxt := congrArg Prod.fst h
  have e₂ : p.rcvWnd = q.rcvWnd := congrArg (·.2.1) h
  have e₃ : p.rcvAnnRightEdge = q.rcvAnnRightEdge := congrArg (·.2.2.1) h
  have e₄ : p.mss = q.mss := congrArg (·.2.2.2) h
  unfold NearEdge
  rw [e₁, e₂, e₃, e₄]

theorem edges_moved {p q : Pcb} (h : p.edges = q.edges) (n : ℕ) :
    (p.moved n).edges = (q.moved n).edges :=
  congrArg (fun e => (e.1 + u32 n, e.2.1 - n, e.2.2)) h

theorem edges_moved_moved (p : Pcb) (n m : ℕ) :
    ((p.moved n).moved m).edges = (p.moved (n + m)).edges := by
  simp only [Pcb.edges, Pcb.moved, u32_add, add_assoc, Nat.sub_sub]

theorem edges_moved_zero (p : Pcb) : (p.moved 0).edges = p.edges :=
  congrArg (fun n => (n, p.rcvWnd, p.rcvAnnRightEdge, p.mss)) (add_zero p.rcvNxt)

/-- The window is at most `TCP_WND`, it covers the window to announce, and that one does not end
    before the announced right edge. -/
structure Pcb.Announcing (pcb : Pcb) : Prop where
  rcvWnd_le : pcb.rcvWnd ≤ TCP_WND
  ann_le : pcb.rcvAnnWnd ≤ pcb.rcvWnd
  edge : tcpSeqGeq (pcb.rcvNxt + u32 pcb.rcvAnnWnd) pcb.rcvAnnRightEdge

/-- A number that is `z` ahead, for `z` up to half the sequence space and a bit more. -/
theorem dist_ahead {a b : U32} {z : ℤ} (h : a = b + BitVec.ofInt 32 z) (h0 : -2147483648 ≤ z)
    (h1 : z < 6442450944) : dist a b = if z < 2147483648 then z else z - 4294967296 := by
  have hd {y : ℤ} (h0 : -2147483648 ≤ y) (h1 : y < 2147483648) :
      dist (b + BitVec.ofInt 32 y) b = y := by
    have hself : dist b b = 0 := Serial.dist_self b
    rw [dist_add_ofInt (by decide) b b y, hself, zero_add]
    rw [hself, zero_add]
    exact inHalf_32.mpr ⟨h0, h1⟩
  rw [h]
  split
  · exact hd h0 (by assumption)
  · have e : BitVec.ofInt 32 z = BitVec.ofInt 32 (z - 4294967296) := by
      apply BitVec.eq_of_toInt_eq
      rw [BitVec.toInt_ofInt, BitVec.toInt_ofInt]
      have hmod : (z - 4294967296) % 4294967296 = z % 4294967296 := by omega
      simp [Int.bmod, hmod]
    rw [e]
    exact hd (by omega) (by omega)

theorem ofInt_add_u32 (b : U32) (z : ℤ) (n : ℕ) :
    b + BitVec.ofInt 32 z + u32 n = b + BitVec.ofInt 32 (z + n) := by
  rw [BitVec.ofInt_add, BitVec.ofInt_natCast, add_assoc]
  rfl

theorem ofInt_sub_u32 {a b : U32} {z : ℤ} {n : ℕ} (h : a + u32 n = b + BitVec.ofInt 32 z) :
    a = b + BitVec.ofInt 32 (z - n) := by
  have e := ofInt_add_u32 b (z - n) n
  rw [sub_add_cancel, ← h] at e
  exact (add_right_cancel e).symm

/-- The unsigned difference the other way. -/
theorem toNat_sub_of_dist {a b : U32} (h : dist a b ≤ 0) : ((b - a).toNat : ℤ) = -dist a b := by
  have e : b - a = -(a - b) := by rw [neg_sub]
  unfold Serial.dist at h ⊢
  rw [e, BitVec.toNat_neg]
  rw [BitVec.toInt_eq_toNat_cond] at h ⊢
  split_ifs at h ⊢
  · omega
  · omega

section Update

variable {pcb : Pcb}

/-- We can advertise more window. -/
theorem tcpUpdateRcvAnnWnd_more (h : tcpSeqGeq (pcb.rcvNxt + u32 pcb.rcvWnd)
    (pcb.rcvAnnRightEdge + u32 (min (TCP_WND / 2) pcb.mss))) :
    tcpUpdateRcvAnnWnd pcb = .ok (pcb.rcvNxt + u32 pcb.rcvWnd - pcb.rcvAnnRightEdge,
      { pcb with rcvAnnWnd := pcb.rcvWnd }) :=
  if_pos h

/-- The other end has sent beyond the announced window. -/
theorem tcpUpdateRcvAnnWnd_none (h : ¬ tcpSeqGeq (pcb.rcvNxt + u32 pcb.rcvWnd)
    (pcb.rcvAnnRightEdge + u32 (min (TCP_WND / 2) pcb.mss)))
    (hg : tcpSeqGt pcb.rcvNxt pcb.rcvAnnRightEdge) :
    tcpUpdateRcvAnnWnd pcb = .ok (0, { pcb with rcvAnnWnd := 0 }) :=
  (if_neg h).trans (if_pos hg)

/-- The right edge of the window stays where it is. -/
theorem tcpUpdateRcvAnnWnd_same (h : ¬ tcpSeqGeq (pcb.rcvNxt + u32 pcb.rcvWnd)
    (pcb.rcvAnnRightEdge + u32 (min (TCP_WND / 2) pcb.mss)))
    (hg : ¬ tcpSeqGt pcb.rcvNxt pcb.rcvAnnRightEdge) :
    tcpUpdateRcvAnnWnd pcb =
      (do lwipAssert "new_rcv_ann_wnd <= 0xffff" ((pcb.rcvAnnRightEdge - pcb.rcvNxt).toNat ≤ 0xffff)
          .ok (0, { pcb with rcvAnnWnd := (pcb.rcvAnnRightEdge - pcb.rcvNxt).toNat })) :=
  (if_neg h).trans (if_neg hg)

/-- The update, called when the window ends `z` behind the announced right edge: it goes through and
    keeps the order exactly when it compares near edges. -/
theorem tcpUpdateRcvAnnWnd_spec {z : ℕ} (hw : pcb.rcvWnd ≤ TCP_WND)
    (hz : pcb.rcvNxt + u32 pcb.rcvWnd = pcb.rcvAnnRightEdge + BitVec.ofInt 32 z)
    (hle : z < 2147483648 + TCP_WND) :
    NearEdge pcb ↔ ∃ n pcb', tcpUpdateRcvAnnWnd pcb = .ok (n, pcb') ∧ pcb'.Announcing := by
  have hT : TCP_WND = 5360 := rfl
  have hm : min (TCP_WND / 2) pcb.mss ≤ 2680 := by omega
  have hnew := dist_ahead hz (by omega) (by omega)
  have hnxt := dist_ahead (ofInt_sub_u32 hz) (by omega) (by omega)
  have hinc : pcb.rcvNxt + u32 pcb.rcvWnd =
      pcb.rcvAnnRightEdge + u32 (min (TCP_WND / 2) pcb.mss) +
        BitVec.ofInt 32 (z - (min (TCP_WND / 2) pcb.mss : ℕ)) := by
    rw [hz, add_assoc, add_comm (u32 _), ← add_assoc, ofInt_add_u32, sub_add_cancel]
  have hinc := dist_ahead hinc (by omega) (by omega)
  by_cases h1 : tcpSeqGeq (pcb.rcvNxt + u32 pcb.rcvWnd)
      (pcb.rcvAnnRightEdge + u32 (min (TCP_WND / 2) pcb.mss))
  · rw [tcpUpdateRcvAnnWnd_more h1]
    constructor
    · intro hnear
      refine ⟨_, _, rfl, hw, le_rfl, ?_⟩
      exact hnear.resolve_right fun hn => hn.1 h1
    · rintro ⟨n, pcb', h, hA⟩
      cases h
      exact .inl hA.edge
  · by_cases h2 : tcpSeqGt pcb.rcvNxt pcb.rcvAnnRightEdge
    · rw [tcpUpdateRcvAnnWnd_none h1 h2]
      refine iff_of_true (.inr ⟨h1, h2⟩) ⟨_, _, rfl, hw, Nat.zero_le _, ?_⟩
      show 0 ≤ dist (pcb.rcvNxt + 0) pcb.rcvAnnRightEdge
      rw [add_zero]
      exact h2.le
    · rw [tcpUpdateRcvAnnWnd_same h1 h2]
      have hback := toNat_sub_of_dist (not_lt.mp h2)
      unfold tcpSeqGeq at h1
      generalize min (TCP_WND / 2) pcb.mss = m at hm hinc h1
      constructor
      · intro hnear
        have hnear : 0 ≤ dist (pcb.rcvNxt + u32 pcb.rcvWnd) pcb.rcvAnnRightEdge :=
          hnear.resolve_right fun hn => h2 hn.2
        have hann : (pcb.rcvAnnRightEdge - pcb.rcvNxt).toNat ≤ pcb.rcvWnd := by
          split_ifs at hnew hnxt hinc <;> omega
        refine ⟨_, _, Run.bind_eq_ok.mpr ⟨(), lwipAssert_pos (by omega), rfl⟩, hw, hann, ?_⟩
        show 0 ≤ dist (pcb.rcvNxt + u32 (pcb.rcvAnnRightEdge - pcb.rcvNxt).toNat)
          pcb.rcvAnnRightEdge
        have he : u32 (pcb.rcvAnnRightEdge - pcb.rcvNxt).toNat =
            pcb.rcvAnnRightEdge - pcb.rcvNxt := by
          unfold u32
          rw [BitVec.ofNat_toNat, BitVec.setWidth_eq]
        rw [he, add_sub_cancel, Serial.dist_self]
      · rintro ⟨n, pcb', h, -⟩
        obtain ⟨_, ha, -⟩ := Run.bind_eq_ok.mp h
        have ha := lwipAssert_ok ha
        left
        show 0 ≤ dist (pcb.rcvNxt + u32 pcb.rcvWnd) pcb.rcvAnnRightEdge
        split_ifs at hnew hnxt hinc <;> omega

end Update

/-- When the last of the numbers is taken near edges are compared, and so they are before. -/
theorem NearEdge.of_moved {pcb : Pcb} {n m : ℕ} (hA : pcb.Announcing) (hnm : n ≤ m)
    (hm : m ≤ pcb.rcvWnd) (h : NearEdge (pcb.moved m)) : NearEdge (pcb.moved n) := by
  have hT : TCP_WND = 5360 := rfl
  have hle := hA.rcvWnd_le
  have hann := hA.ann_le
  obtain ⟨k, hk⟩ := Int.eq_ofNat_of_zero_le hA.edge
  have hu := dist_upper (pcb.rcvNxt + u32 pcb.rcvAnnWnd) pcb.rcvAnnRightEdge
  have ha := eq_add_dist (pcb.rcvNxt + u32 pcb.rcvAnnWnd) pcb.rcvAnnRightEdge
  rw [hk] at ha hu
  -- the window ends at the same place whatever has been taken
  have hend {l : ℕ} (hl : l ≤ pcb.rcvWnd) : (pcb.moved l).rcvNxt + u32 (pcb.moved l).rcvWnd =
      pcb.rcvAnnRightEdge + BitVec.ofInt 32 (k + (pcb.rcvWnd - pcb.rcvAnnWnd) : ℤ) := by
    have hsplit : pcb.rcvNxt + u32 l + u32 (pcb.rcvWnd - l) =
        pcb.rcvNxt + u32 pcb.rcvAnnWnd + u32 (pcb.rcvWnd - pcb.rcvAnnWnd) := by
      rw [add_assoc, add_assoc, ← u32_add, ← u32_add]
      congr 2
      omega
    show pcb.rcvNxt + u32 l + u32 (pcb.rcvWnd - l) = _
    rw [hsplit, ha, ofInt_add_u32, Nat.cast_sub hann]
  have hm' := hend hm
  have hn' := hend (hnm.trans hm)
  have hsame : (pcb.moved n).rcvNxt + u32 (pcb.moved n).rcvWnd =
      (pcb.moved m).rcvNxt + u32 (pcb.moved m).rcvWnd := hn'.trans hm'.symm
  rcases h with h | ⟨hfar, hgt⟩
  · refine .inl ?_
    rw [hsame]
    exact h
  · have hnxt {l : ℕ} (hl : l ≤ pcb.rcvWnd) :=
      dist_ahead (ofInt_sub_u32 (hend hl)) (by show (_ : ℤ) ≤ _ - ((pcb.rcvWnd - l : ℕ) : ℤ); omega)
        (by show _ - ((pcb.rcvWnd - l : ℕ) : ℤ) < (_ : ℤ); omega)
    have hnm' := hnxt hm
    have hnn' := hnxt (hnm.trans hm)
    have hnew := dist_ahead hm' (by omega) (by omega)
    have hinc : (pcb.moved m).rcvNxt + u32 (pcb.moved m).rcvWnd =
        pcb.rcvAnnRightEdge + u32 (min (TCP_WND / 2) pcb.mss) +
          BitVec.ofInt 32 (k + (pcb.rcvWnd - pcb.rcvAnnWnd) - (min (TCP_WND / 2) pcb.mss : ℕ)) := by
      rw [hm', add_assoc, add_comm (u32 _), ← add_assoc, ofInt_add_u32, sub_add_cancel]
    have hinc := dist_ahead hinc (by omega) (by omega)
    by_cases hz : (k + (pcb.rcvWnd - pcb.rcvAnnWnd) : ℤ) < 2147483648
    · refine .inl ?_
      rw [hsame]
      show 0 ≤ dist _ pcb.rcvAnnRightEdge
      rw [if_pos hz] at hnew
      omega
    · refine .inr ⟨?_, ?_⟩
      · rw [hsame]
        exact hfar
      · have hgt : 0 < dist (pcb.moved m).rcvNxt pcb.rcvAnnRightEdge := hgt
        show 0 < dist (pcb.moved n).rcvNxt pcb.rcvAnnRightEdge
        have e₁ : (pcb.moved m).rcvWnd = pcb.rcvWnd - m := rfl
        have e₂ : (pcb.moved n).rcvWnd = pcb.rcvWnd - n := rfl
        rw [e₁] at hnm'
        rw [e₂] at hnn'
        split_ifs at hnm' hnn' <;> omega

/-! ## What is announced -/

/-- The right edge that a segment announces which is handed to `ip_output_if` behind the SYN of
    `tcp_connect`, unless it is a reset. -/
def Out.announces : Out → Option U32
  | .ipOutputIf packet _ state _ =>
    if state ≠ .SYN_SENT ∧ packet.tcphdr.flags.rst = false then
      some (packet.tcphdr.ackno + u32 packet.tcphdr.wnd)
    else none
  | _ => none

/-- The right edges that have been announced. -/
def rightEdges (trace : List Out) : List U32 := trace.filterMap Out.announces

theorem rightEdges_append (trace outs : List Out) (h : ∀ o ∈ outs, o.announces = none) :
    rightEdges (trace ++ outs) = rightEdges trace := by
  unfold rightEdges
  rw [List.filterMap_append, List.filterMap_eq_nil_iff.mpr h, List.append_nil]

theorem rightEdges_concat (trace : List Out) (o : Out) :
    rightEdges (trace ++ [o]) = rightEdges trace ++ o.announces.toList := by
  unfold rightEdges
  rw [List.filterMap_append]
  cases h : o.announces with
  | none => simp [h]
  | some e => simp [h]

theorem Packet.Current.announces {packet : Packet} (h : packet.Current s.pcb) (sent : Bool) :
    (s.packet packet sent).announces =
      if s.pcb.state = .SYN_SENT then none else some (s.pcb.rcvNxt + u32 s.pcb.rcvAnnWnd) := by
  have hr := h.rst
  unfold St.packet Out.announces
  simp only [h.ackno, h.wnd, hr]
  split_ifs <;> simp_all

/-! ## Turns -/

/-- The `u16_t` sum in `tcp_recved` does not wrap. -/
def RecvedFits (pcb : Pcb) (len : ℕ) : Prop := pcb.rcvWnd + len < 65536

/-- One turn of the stack or of the application, as far as it concerns the window. -/
inductive WndTurn : St W → St W → Prop
  /-- Nothing is announced. -/
  | quiet {s s' : St W} (outs : List Out) (delay now : Bool) : (∀ o ∈ outs, o.announces = none) →
    s'.ackView = { s.ackView with
      tfAckDelay := delay, tfAckNow := now, trace := s.trace ++ outs } → WndTurn s s'
  /-- A segment or a probe is handed to `ip_output_if`, or an empty ACK. -/
  | transmit {s s' : St W} (packet : Packet) (sent delay now : Bool) : packet.Current s.pcb →
    s'.ackView = s.transmitted packet sent delay now → WndTurn s s'
  | state {s s' : St W} {st : TcpState} : st ≠ .SYN_SENT →
    s'.ackView = { s.ackView with state := st } → WndTurn s s'
  | establish {s s' : St W} {seqno : U32} : s.pcb.state = .SYN_SENT → s'.ackView = { s.ackView with
      state := .ESTABLISHED, rcvNxt := seqno + 1, rcvAnnRightEdge := seqno + 1 } → WndTurn s s'
  | rcvWndFin {s : St W} : WndTurn s { s with pcb := rcvWndFin s.pcb }
  | recved {s : St W} {len : Fin 65536} {w : ℕ} {n : U32} {pcb : Pcb} : RecvedFits s.pcb len →
    rcvWndRecved s.pcb len = .ok w → NearEdge { s.pcb with rcvWnd := w } →
      tcpUpdateRcvAnnWnd { s.pcb with rcvWnd := w } = .ok (n, pcb) →
        WndTurn s (({ s with pcb := pcb } : St W).emit (.recved len s.pcb))
  /-- `n` sequence numbers are taken off the front of the window. -/
  | take {s s' : St W} {n : ℕ} {m : U32} {pcb : Pcb} : n ≤ s.pcb.rcvWnd →
    NearEdge (s.pcb.moved n) → tcpUpdateRcvAnnWnd (s.pcb.moved n) = .ok (m, pcb) →
      s'.ackView = ({ s with pcb := pcb } : St W).ackView → WndTurn s s'

/-- Any number of turns. -/
abbrev WndRun : St W → St W → Prop := ReflTransGen WndTurn

theorem WndTurn.congr (h : s'.ackView = s.ackView) : WndTurn s s' :=
  .quiet [] s.pcb.tfAckDelay s.pcb.tfAckNow (by simp) (by rw [h]; simp [St.ackView])

theorem WndTurn.flags (delay now : Bool)
    (h : s'.ackView = { s.ackView with tfAckDelay := delay, tfAckNow := now }) : WndTurn s s' :=
  .quiet [] delay now (by simp) (by rw [h]; simp [St.ackView])

theorem WndTurn.log {o : Out} (h : o.announces = none) : WndTurn s (s.emit o) :=
  .quiet [o] s.pcb.tfAckDelay s.pcb.tfAckNow (by simpa using h) rfl

theorem closed_ne_synSent : TcpState.CLOSED ≠ .SYN_SENT := by decide

/-- A run goes on while nothing is received or returned. -/
theorem announcesApi_run (s₀ : St W) : AnnouncesApi (fun _ _ => False) (WndRun s₀) where
  congr hr hv := hr.tail (.congr hv)
  callback {s o} ho hr := by
    refine hr.tail (.log ?_)
    cases o with
    | event => rfl
    | err => rfl
    | _ => cases ho
  wrote _ hr := hr.tail (.log rfl)
  ackNow {s} hr := hr.tail (.flags s.pcb.tfAckDelay true rfl)
  owe hv hr := hr.tail (.flags true true hv)
  transmit packet sent delay now hcur _ hv hr := hr.tail (.transmit packet sent delay now hcur hv)
  rst {s s' packet sent} hrst hv hr := by
    refine hr.tail (.quiet [s.packet packet sent] s.pcb.tfAckDelay s.pcb.tfAckNow ?_ hv)
    simp [St.packet, Out.announces, hrst]
  noConnect := id
  recved hP := hP.elim
  state _ hne _ hr := hr.tail (.state hne rfl)
  closed hr := hr.tail (.state closed_ne_synSent rfl)

/-- A pcb that a RST removes sends nothing. -/
theorem ackView_reset (h : tcpInputRemove { s with recvReset := true, pcb.tfAckDelay := false }
    (some .rst) = .ok s') : s'.ackView = { s.ackView with
      state := .CLOSED, tfAckDelay := false, trace := s.trace ++ [.err .rst] } := by
  obtain ⟨s₁, h₁, h⟩ := Run.bind_eq_ok.mp h
  cases h
  obtain ⟨s₂, h₂, h₁⟩ := Run.bind_eq_ok.mp h₁
  obtain ⟨_, -, h₁⟩ := Run.bind_eq_ok.mp h₁
  obtain ⟨_, -, h₁⟩ := Run.bind_eq_ok.mp h₁
  obtain ⟨_, -, h₁⟩ := Run.bind_eq_ok.mp h₁
  cases h₁
  have hd (p : Pcb) : (tcpPcbPurge p).tfAckDelay = p.tfAckDelay := by
    unfold tcpPcbPurge
    split <;> rfl
  unfold tcpPcbRemoveAck at h₂
  rw [if_neg (fun hn => by
    have hn := hn.2
    rw [hd] at hn
    cases hn)] at h₂
  cases h₂
  unfold tcpInputAborted St.free St.ackView tcpPcbPurge
  dsimp only
  split <;> rfl

/-- The edge that a turn announces is that of the window to announce. -/
theorem WndTurn.edge {e : U32} (h : WndTurn s s')
    (he : rightEdges s'.trace = rightEdges s.trace ++ [e]) :
    e = s.pcb.rcvNxt + u32 s.pcb.rcvAnnWnd := by
  have hsame {l : List Out} (ht : s'.trace = l) (hl : rightEdges l = rightEdges s.trace) :
      e = s.pcb.rcvNxt + u32 s.pcb.rcvAnnWnd := by
    rw [ht, hl] at he
    simp at he
  cases h with
  | quiet outs delay now ho hv =>
    exact hsame (congrArg AckView.trace hv) (rightEdges_append s.trace outs ho)
  | transmit packet sent delay now hcur hv =>
    have ht : s'.trace = s.trace ++ [s.packet packet sent] := congrArg AckView.trace hv
    rw [ht, rightEdges_concat, hcur.announces] at he
    split at he
    · simp at he
    · simp at he
      exact he.symm
  | state hne hv => exact hsame (congrArg AckView.trace hv) rfl
  | establish hst hv => exact hsame (congrArg AckView.trace hv) rfl
  | rcvWndFin => exact hsame rfl rfl
  | recved hf hw hnear hu => exact hsame rfl (rightEdges_append s.trace [_] (by simp [Out.announces]))
  | take hn hnear hu hv => exact hsame (congrArg AckView.trace hv) rfl

/-! ### Data -/

/-- The number `n` of sequence numbers is taken off the front of the window, in turns if the updates
    compare near edges. -/
structure Takes (n : ℕ) (s s' : St W) : Prop where
  le : n ≤ s.pcb.rcvWnd
  edges : s'.pcb.edges = (s.pcb.moved n).edges
  trace : s'.trace = s.trace
  run : (∀ m ≤ n, NearEdge (s.pcb.moved m)) → WndRun s s'

namespace Takes

variable {n m : ℕ} {s₁ : St W}

theorem rcvNxt (h : Takes n s s') : s'.pcb.rcvNxt = s.pcb.rcvNxt + u32 n := congrArg Prod.fst h.edges

theorem rcvWnd (h : Takes n s s') : s'.pcb.rcvWnd = s.pcb.rcvWnd - n := congrArg (·.2.1) h.edges

/-- Nothing is taken. -/
theorem none (h : WndTurn s s') (he : s'.pcb.edges = s.pcb.edges) (ht : s'.trace = s.trace) :
    Takes 0 s s' :=
  ⟨Nat.zero_le _, he.trans (edges_moved_zero s.pcb).symm, ht, fun _ => .single h⟩

theorem trans (h : Takes n s s₁) (h' : Takes m s₁ s') : Takes (n + m) s s' where
  le := by
    have h1 := h.le
    have h2 := h'.le
    rw [h.rcvWnd] at h2
    omega
  edges := by rw [h'.edges, edges_moved h.edges, edges_moved_moved]
  trace := h'.trace.trans h.trace
  run hnear := by
    refine (h.run fun l hl => hnear l (by omega)).trans (h'.run fun l hl => ?_)
    refine (nearEdge_congr ?_).mpr (hnear (n + l) (by omega))
    rw [edges_moved h.edges, edges_moved_moved]

end Takes

/-- A segment that is next in sequence. -/
theorem takes_tcpReceiveTake {message : String} {c : TcpSeg} {n : ℕ}
    (hc : c.tcphdr.seqno = s.pcb.rcvNxt) (h : tcpReceiveTake s message c n = .ok s') :
    Takes n s s' := by
  obtain ⟨_, ha, h⟩ := Run.bind_eq_ok.mp h
  obtain ⟨⟨m, pcb⟩, hp, h⟩ := Run.bind_eq_ok.mp h
  cases h
  have hle := lwipAssert_ok ha
  rw [hc] at hp
  obtain ⟨aw, rfl⟩ := tcpUpdateRcvAnnWnd_ok hp
  exact ⟨hle, rfl, rfl, fun hnear => .single (.take hle (hnear n le_rfl) hp rfl)⟩

theorem seqno_tcpReceiveTrimWnd {r : U32} {w : ℕ} {c c' : TcpSeg}
    (h : tcpReceiveTrimWnd r w c = .ok c') : c'.tcphdr.seqno = c.tcphdr.seqno := by
  unfold tcpReceiveTrimWnd at h
  split at h
  · obtain ⟨_, -, h⟩ := Run.bind_eq_ok.mp h
    cases h
    rfl
  · cases h
    rfl

theorem seqno_mergeCovered (c : TcpSeg) (q : List TcpSeg) :
    (mergeCovered c q).1.tcphdr.seqno = c.tcphdr.seqno := by
  induction q generalizing c with
  | nil => rfl
  | cons next rest ih =>
    unfold mergeCovered
    split
    · rw [ih]
      split <;> rfl
    · rfl

theorem seqno_mergeOoseq {c c' : TcpSeg} {q q' : List TcpSeg} (h : mergeOoseq c q = .ok (c', q')) :
    c'.tcphdr.seqno = c.tcphdr.seqno := by
  have hs := seqno_mergeCovered c q
  unfold mergeOoseq at h
  split at h
  · cases h
    rfl
  · generalize mergeCovered c q = x at h hs
    obtain ⟨c₁, q₁⟩ := x
    change c₁.tcphdr.seqno = c.tcphdr.seqno at hs
    cases q₁ with
    | nil =>
      cases h
      exact hs
    | cons next rest =>
      obtain ⟨c₂, h₂, h⟩ := Run.bind_eq_ok.mp h
      cases h
      unfold mergeTrim at h₂
      split at h₂
      · obtain ⟨_, -, h₂⟩ := Run.bind_eq_ok.mp h₂
        cases h₂
        exact hs
      · cases h₂
        exact hs

theorem takes_tcpReceiveDequeue {q : List TcpSeg} (hst : s.pcb.state ≠ .SYN_SENT)
    (h : tcpReceiveDequeue q s = .ok s') : ∃ n, Takes n s s' := by
  induction q generalizing s with
  | nil =>
    cases h
    exact ⟨0, .none (.congr rfl) rfl rfl⟩
  | cons c q ih =>
    rw [tcpReceiveDequeue] at h
    split at h
    · next hc =>
      obtain ⟨s₁, h₁, h⟩ := Run.bind_eq_ok.mp h
      have hst₁ : s₁.pcb.state = s.pcb.state := congrArg RcvView.state (tcpReceiveTake_ok h₁).2.2
      have hne : (if c.tcphdr.flags.fin = true ∧ s₁.pcb.state = .ESTABLISHED then .CLOSE_WAIT
          else s₁.pcb.state) ≠ TcpState.SYN_SENT := by
        rw [hst₁]
        split
        · decide
        · exact hst
      have hset : Takes 0 s₁ { s₁ with
          pcb.ooseq := q
          pcb.state := if c.tcphdr.flags.fin = true ∧ s₁.pcb.state = .ESTABLISHED then .CLOSE_WAIT
            else s₁.pcb.state } := .none (.state hne rfl) rfl rfl
      obtain ⟨m, hm⟩ := ih hne h
      exact ⟨_, ((takes_tcpReceiveTake hc h₁).trans hset).trans hm⟩
    · cases h
      exact ⟨0, .none (.congr rfl) rfl rfl⟩

theorem takes_tcpReceiveInseq {c : TcpSeg} (hc : s.pcb.rcvNxt = c.tcphdr.seqno)
    (hst : s.pcb.state ≠ .SYN_SENT) (h : tcpReceiveInseq s c = .ok s') : ∃ n, Takes n s s' := by
  obtain ⟨c₁, h₁, h⟩ := Run.bind_eq_ok.mp h
  obtain ⟨⟨c₂, q⟩, h₂, h⟩ := Run.bind_eq_ok.mp h
  obtain ⟨s₁, h₃, h⟩ := Run.bind_eq_ok.mp h
  obtain ⟨s₂, h₄, h⟩ := Run.bind_eq_ok.mp h
  cases h
  have hc₂ : c₂.tcphdr.seqno = s.pcb.rcvNxt := by
    rw [seqno_mergeOoseq h₂, seqno_tcpReceiveTrimWnd h₁, hc]
  have hst₁ : s₁.pcb.state = s.pcb.state := congrArg RcvView.state (tcpReceiveTake_ok h₃).2.2
  have hq : Takes 0 s { s with pcb.ooseq := q } := .none (.congr rfl) rfl rfl
  obtain ⟨m, hm⟩ := takes_tcpReceiveDequeue (by rw [hst₁]; exact hst) h₄
  have hack : Takes 0 s₂ (tcpAck s₂) := by
    unfold tcpAck
    split
    · exact .none (.flags false true rfl) rfl rfl
    · exact .none (.flags true s₂.pcb.tfAckNow rfl) rfl rfl
  exact ⟨_, ((hq.trans (takes_tcpReceiveTake hc₂ h₃)).trans hm).trans hack⟩

/-- The segment is next in sequence: `tcp_receive` passes it on, with what it finds on `ooseq`. -/
def InSequence (pcb : Pcb) (seg : InSegment) : Prop :=
  0 < seg.tcplen ∧ pcb.state.num < TcpState.CLOSE_WAIT.num ∧
    ∃ c, tcpReceiveFirstEdge pcb.rcvNxt seg = .ok c ∧ inWindow pcb c.tcphdr.seqno ∧
      pcb.rcvNxt = c.tcphdr.seqno

theorem inSequence_congr {p q : Pcb} {seg : InSegment} (hst : p.state = q.state)
    (hnxt : p.rcvNxt = q.rcvNxt) (hwnd : p.rcvWnd = q.rcvWnd) :
    InSequence p seg ↔ InSequence q seg := by
  unfold InSequence inWindow
  rw [hst, hnxt, hwnd]

theorem inSequence_of_dup {seg : InSegment} {c : TcpSeg} (hlen : 0 < seg.tcplen)
    (hst : s.pcb.state.num < TcpState.CLOSE_WAIT.num)
    (hc : tcpReceiveFirstEdge s.pcb.rcvNxt seg = .ok c)
    (hin : inWindow (tcpReceiveDup s seg).pcb c.tcphdr.seqno)
    (hseq : (tcpReceiveDup s seg).pcb.rcvNxt = c.tcphdr.seqno) : InSequence s.pcb seg := by
  have hv := rcvView_tcpReceiveDup s seg
  have e₁ : (tcpReceiveDup s seg).pcb.rcvNxt = s.pcb.rcvNxt := congrArg RcvView.rcvNxt hv
  have e₂ : (tcpReceiveDup s seg).pcb.rcvWnd = s.pcb.rcvWnd := congrArg RcvView.rcvWnd hv
  refine ⟨hlen, hst, c, hc, ?_, e₁.symm.trans hseq⟩
  unfold inWindow at hin ⊢
  rw [e₁, e₂] at hin
  exact hin

/-- `tcp_receive` takes numbers off the front of the window for a segment that is next in sequence,
    and at most answers another one. -/
theorem tcpReceiveData_takes {seg : InSegment} (hst : s.pcb.state ≠ .SYN_SENT)
    (h : tcpReceiveData s seg = .ok s') : (InSequence s.pcb seg ∧ ∃ n, Takes n s s') ∨
      ∀ I : St W → Prop, AnnouncesApi (fun _ _ => False) I → I s → I s' := by
  have hnow : WndTurn s (tcpAckNow s) := .flags s.pcb.tfAckDelay true rfl
  unfold tcpReceiveData at h
  split at h
  · next hlen =>
    obtain ⟨c, hc, h⟩ := Run.bind_eq_ok.mp h
    have hdup : Takes 0 s (tcpReceiveDup s seg) ∧
        ∀ I : St W → Prop, AnnouncesApi (fun _ _ => False) I → I s → I (tcpReceiveDup s seg) := by
      unfold tcpReceiveDup
      split
      · exact ⟨.none hnow rfl rfl, fun I hA hI => hA.ackNow hI⟩
      · exact ⟨.none (.congr rfl) rfl rfl, fun I hA hI => hI⟩
    have e : (tcpReceiveDup s seg).pcb.state = s.pcb.state :=
      congrArg RcvView.state (rcvView_tcpReceiveDup s seg)
    have hdata := inSequence_of_dup hlen.1 hlen.2 hc
    generalize tcpReceiveDup s seg = t at h hdup e hdata
    obtain ⟨htake, hall⟩ := hdup
    unfold tcpReceiveSegment at h
    split at h
    · next hin =>
      split at h
      · next hseq =>
        obtain ⟨n, hn⟩ := takes_tcpReceiveInseq hseq (by rw [e]; exact hst) h
        exact .inl ⟨hdata hin hseq, _, htake.trans hn⟩
      · exact .inr fun I hA hI => hA.receiveOutseq h (hall I hA hI)
    · cases h
      exact .inr fun I hA hI => hA.emptyAck (hall I hA hI)
  · split at h <;> cases h
    · exact .inr fun I hA hI => hA.ackNow hI
    · exact .inr fun I hA hI => hI

/-! ### The log and the window -/

theorem announcesApi_rcvWnd (w : ℕ) :
    AnnouncesApi (fun _ _ => False) fun s : St W => s.pcb.rcvWnd = w where
  congr hI hv := (congrArg AckView.rcvWnd hv).trans hI
  callback _ hI := hI
  wrote _ hI := hI
  ackNow hI := hI
  owe hv hI := (congrArg AckView.rcvWnd hv).trans hI
  transmit _ _ _ _ _ _ hv hI := (congrArg AckView.rcvWnd hv).trans hI
  rst _ hv hI := (congrArg AckView.rcvWnd hv).trans hI
  noConnect := id
  recved hP := hP.elim
  state _ _ _ hI := hI
  closed hI := hI

theorem extends_of_trace {u outs : List Out} (ht : s'.trace = s.trace ++ outs)
    (h : u <+: s.trace) : u <+: s'.trace :=
  ht ▸ h.trans (List.prefix_append _ _)

theorem announcesApi_extends {P : Core → Api → Prop} (hno : NeverConnects P) (u : List Out) :
    AnnouncesApi P fun s : St W => u <+: s.trace where
  congr {s s'} hI hv := by
    rw [show s'.trace = s.trace from congrArg AckView.trace hv]
    exact hI
  callback _ hI := hI.trans (List.prefix_append _ _)
  wrote _ hI := hI.trans (List.prefix_append _ _)
  ackNow hI := hI
  owe {s s'} hv hI := by
    rw [show s'.trace = s.trace from congrArg AckView.trace hv]
    exact hI
  transmit packet sent delay now _ _ hv hI := extends_of_trace (congrArg AckView.trace hv) hI
  rst _ hv hI := extends_of_trace (congrArg AckView.trace hv) hI
  noConnect := hno _ _ _
  recved _ _ _ hI := hI.trans (List.prefix_append _ _)
  state _ _ _ hI := hI
  closed hI := hI

/-- Nothing is taken out of the log. -/
theorem announces_extends {Q : St W → InSegment → Prop} {R : St W → Tmr → Prop} {app : App W}
    (u : List Out) : Announces NoConnect Q R app fun s => u <+: s.trace where
  toAnnouncesApi := announcesApi_extends (fun _ _ _ h => h) u
  reset hr hI := extends_of_trace (congrArg AckView.trace (ackView_reset hr)) hI
  fasttmr {s s' err} _ _ hr hI := by
    have hI' : u <+: s'.trace :=
      (announcesApi_extends (P := NoConnect) (fun _ _ _ h => h) u).tcpOutput (s := tcpAckNow s) hr hI
    exact hI'
  rcvWndFin _ hI := hI
  synSent {s s' seg err} happ _ hr hI :=
    (announcesApi_extends (fun _ _ _ h => h) u).toKeptApi.tcpProcessSynSent (s := s)
      (fun _ _ _ hI => hI) happ hr hI
  receive {s s' seg after} hafter hr hI := by
    have hA : AnnouncesApi (fun _ _ => False) fun s : St W => u <+: s.trace :=
      announcesApi_extends (fun _ _ _ => id) u
    obtain ⟨hnum, s₁, s₂, h₁, hv, h₂, rfl⟩ := processReceive_parts hr
    have hst := state_tcpReceiveData h₂
    have hst₁ : s₁.pcb.state = s.pcb.state := congrArg RcvView.state hv
    have hsyn : s₁.pcb.state ≠ .SYN_SENT := hst₁ ▸ (TcpState.synchronized hnum).1
    rw [hst₁] at hst
    have hI₁ : u <+: s₁.trace := by
      rcases h₁ with ⟨-, h₁⟩ | ⟨-, rfl⟩
      · exact hA.receiveAck h₁ hI
      · exact hI
    have hI₂ : u <+: s₂.trace := by
      rcases tcpReceiveData_takes hsyn h₂ with ⟨-, n, hn⟩ | hall
      · rw [hn.trace]
        exact hI₁
      · exact hall _ hA hI₁
    exact (hA.after hafter hnum hst hI₂).trans (List.prefix_append _ _)

/-! ## The invariant -/

/-- The order is kept, and the edges that were announced do not move back. -/
structure AckView.Announcing (v : AckView) : Prop where
  rcvWnd_le : v.rcvWnd ≤ TCP_WND
  ann_le : v.rcvAnnWnd ≤ v.rcvWnd
  edge : tcpSeqGeq (v.rcvNxt + u32 v.rcvAnnWnd) v.rcvAnnRightEdge
  last : ∀ e ∈ (rightEdges v.trace).getLast?, e = v.rcvAnnRightEdge
  mono : (rightEdges v.trace).IsChain fun e e' => tcpSeqGeq e' e
  early : v.state = .SYN_SENT → rightEdges v.trace = []

theorem AckView.Announcing.pcb (h : s.ackView.Announcing) : s.pcb.Announcing :=
  ⟨h.rcvWnd_le, h.ann_le, h.edge⟩

theorem rcvWndRecved_fits {pcb : Pcb} {len w : ℕ} (hw : pcb.rcvWnd ≤ TCP_WND)
    (hf : RecvedFits pcb len) (h : rcvWndRecved pcb len = .ok w) :
    pcb.rcvWnd ≤ w ∧ w ≤ TCP_WND ∧ (¬ pcb.state.Ended → w ≤ pcb.rcvWnd + len) := by
  unfold rcvWndRecved at h
  rw [u16_of_lt hf] at h
  dsimp only at h
  split_ifs at h with h1 h2 h3 <;> cases h
  · exact ⟨hw, le_rfl, fun _ => by omega⟩
  · refine ⟨hw, le_rfl, fun ho => absurd ?_ ho⟩
    rcases h3 with e | e <;> rw [e] <;> decide
  · exact ⟨by omega, by omega, fun _ => le_rfl⟩

/-- The window moves by `n` and then is `w`: the update keeps the order exactly when it compares near
    edges. -/
theorem Pcb.Announcing.update {pcb : Pcb} {n w : ℕ} (h : pcb.Announcing) (hle : pcb.rcvWnd ≤ n + w)
    (hw : n + w ≤ TCP_WND) :
    NearEdge { pcb with rcvNxt := pcb.rcvNxt + u32 n, rcvWnd := w } ↔
      ∃ m pcb', tcpUpdateRcvAnnWnd { pcb with rcvNxt := pcb.rcvNxt + u32 n, rcvWnd := w } =
        .ok (m, pcb') ∧ pcb'.Announcing := by
  have hu := dist_upper (pcb.rcvNxt + u32 pcb.rcvAnnWnd) pcb.rcvAnnRightEdge
  obtain ⟨k, hk⟩ := Int.eq_ofNat_of_zero_le h.edge
  have ha := eq_add_dist (pcb.rcvNxt + u32 pcb.rcvAnnWnd) pcb.rcvAnnRightEdge
  rw [hk] at ha hu
  have hle' := h.ann_le
  refine tcpUpdateRcvAnnWnd_spec (z := k + (n + w - pcb.rcvAnnWnd)) (by dsimp only; omega) ?_ ?_
  · have hsplit : pcb.rcvNxt + u32 n + u32 w =
        pcb.rcvNxt + u32 pcb.rcvAnnWnd + u32 (n + w - pcb.rcvAnnWnd) := by
      rw [add_assoc, add_assoc, ← u32_add, ← u32_add]
      congr 2
      omega
    show pcb.rcvNxt + u32 n + u32 w = _
    rw [hsplit, ha, ofInt_add_u32]
    push_cast
    rfl
  · omega

theorem Pcb.Announcing.take {pcb : Pcb} {n : ℕ} (h : pcb.Announcing) (hn : n ≤ pcb.rcvWnd) :
    NearEdge (pcb.moved n) ↔
      ∃ m pcb', tcpUpdateRcvAnnWnd (pcb.moved n) = .ok (m, pcb') ∧ pcb'.Announcing := by
  have hw := h.rcvWnd_le
  exact h.update (by omega) (by omega)

theorem Pcb.Announcing.recved {pcb : Pcb} {len w : ℕ} (h : pcb.Announcing) (hf : RecvedFits pcb len)
    (hw : rcvWndRecved pcb len = .ok w) :
    NearEdge { pcb with rcvWnd := w } ↔
      ∃ m pcb', tcpUpdateRcvAnnWnd { pcb with rcvWnd := w } = .ok (m, pcb') ∧
        pcb'.Announcing := by
  obtain ⟨hle, hw, -⟩ := rcvWndRecved_fits h.rcvWnd_le hf hw
  have hu := h.update (n := 0) (w := w) (by omega) (by omega)
  rw [show pcb.rcvNxt + u32 0 = pcb.rcvNxt from add_zero _] at hu
  exact hu

/-- The pcb behind an update. -/
theorem AckView.Announcing.updated {pcb pcb' : Pcb} {n : U32} (h : s.ackView.Announcing)
    (hs : ∃ m pcb'', tcpUpdateRcvAnnWnd pcb = .ok (m, pcb'') ∧ pcb''.Announcing)
    (hu : tcpUpdateRcvAnnWnd pcb = .ok (n, pcb')) (hst : pcb.state = s.pcb.state)
    (he : pcb.rcvAnnRightEdge = s.pcb.rcvAnnRightEdge) :
    ({ s with pcb := pcb' } : St W).ackView.Announcing := by
  obtain ⟨m, pcb'', hr, hA⟩ := hs
  rw [hu] at hr
  cases hr
  obtain ⟨a, rfl⟩ := tcpUpdateRcvAnnWnd_ok hu
  exact
    { rcvWnd_le := hA.rcvWnd_le
      ann_le := hA.ann_le
      edge := hA.edge
      last := by
        intro e hl
        exact (h.last e hl).trans he.symm
      mono := h.mono
      early := by
        intro hs
        exact h.early (hst.symm.trans hs) }

/-- A packet announces the edge that `rcv_ann_right_edge` moves to. -/
theorem AckView.Announcing.transmit {packet : Packet} {sent delay now : Bool}
    (h : s.ackView.Announcing) (hcur : packet.Current s.pcb) :
    (s.transmitted packet sent delay now).Announcing := by
  have hself : tcpSeqGeq (s.pcb.rcvNxt + u32 s.pcb.rcvAnnWnd)
      (s.pcb.rcvNxt + u32 s.pcb.rcvAnnWnd) := by
    unfold tcpSeqGeq
    rw [Serial.dist_self]
  have hmono : (rightEdges s.trace).IsChain fun e e' => tcpSeqGeq e' e := h.mono
  have hlast : ∀ e ∈ (rightEdges s.trace).getLast?, e = s.pcb.rcvAnnRightEdge := h.last
  have htr := rightEdges_concat s.trace (s.packet packet sent)
  rw [hcur.announces] at htr
  by_cases hst : s.pcb.state = .SYN_SENT
  · have hnil : rightEdges s.trace = [] := h.early hst
    rw [if_pos hst, hnil] at htr
    have hnil' : rightEdges (s.trace ++ [s.packet packet sent]) = [] := htr
    refine ⟨h.rcvWnd_le, h.ann_le, hself, ?_, ?_, fun _ => hnil'⟩
    · intro e he
      change e ∈ (rightEdges (s.trace ++ [s.packet packet sent])).getLast? at he
      rw [hnil'] at he
      cases he
    · show (rightEdges (s.trace ++ [s.packet packet sent])).IsChain _
      rw [hnil']
      exact List.isChain_nil
  · rw [if_neg hst] at htr
    refine ⟨h.rcvWnd_le, h.ann_le, hself, ?_, ?_, fun hs => absurd hs hst⟩
    · intro e he
      change e ∈ (rightEdges (s.trace ++ [s.packet packet sent])).getLast? at he
      rw [htr] at he
      simp at he
      exact he.symm
    · show (rightEdges (s.trace ++ [s.packet packet sent])).IsChain _
      rw [htr]
      refine List.isChain_append.mpr ⟨hmono, List.isChain_singleton _, ?_⟩
      intro e he e' he'
      simp at he'
      rw [hlast e he, ← he']
      exact h.edge

theorem AckView.Announcing.turn (hm : WndTurn s s')
    (h : s.ackView.Announcing) : s'.ackView.Announcing := by
  have hself (e : U32) : tcpSeqGeq e e := by
    unfold tcpSeqGeq
    rw [Serial.dist_self]
  cases hm with
  | quiet outs delay now ho hv =>
    rw [hv]
    have hr := rightEdges_append s.trace outs ho
    refine ⟨h.rcvWnd_le, h.ann_le, h.edge, ?_, ?_, ?_⟩
    · intro e he
      change e ∈ (rightEdges (s.trace ++ outs)).getLast? at he
      rw [hr] at he
      exact h.last e he
    · show (rightEdges (s.trace ++ outs)).IsChain _
      rw [hr]
      exact h.mono
    · intro hst
      show rightEdges (s.trace ++ outs) = []
      rw [hr]
      exact h.early hst
  | transmit packet sent delay now hcur hv =>
    rw [hv]
    exact h.transmit hcur
  | state hne hv =>
    rw [hv]
    exact ⟨h.rcvWnd_le, h.ann_le, h.edge, h.last, h.mono, fun hst => absurd hst hne⟩
  | @establish _ seqno hst hv =>
    rw [hv]
    have hnil : rightEdges s.trace = [] := h.early hst
    have hle := h.rcvWnd_le
    have hann := h.ann_le
    have hT : TCP_WND = 5360 := rfl
    refine ⟨hle, hann, ?_, ?_, h.mono, nofun⟩
    · show 0 ≤ dist (seqno + 1 + u32 s.ackView.rcvAnnWnd) (seqno + 1)
      have hd : dist (seqno + 1) (seqno + 1) = 0 := Serial.dist_self _
      rw [dist_add_u32 _ _ _ (by omega), hd]
      omega
    · intro e he
      change e ∈ (rightEdges s.trace).getLast? at he
      rw [hnil] at he
      cases he
  | rcvWndFin =>
    have hle : s.pcb.rcvWnd ≤ TCP_WND := h.rcvWnd_le
    have hann : s.pcb.rcvAnnWnd ≤ s.pcb.rcvWnd := h.ann_le
    have hT : TCP_WND = 5360 := rfl
    unfold rcvWndFin
    split
    · next hne =>
      have hu : u16 (s.pcb.rcvWnd + 1) = s.pcb.rcvWnd + 1 := u16_of_lt (by omega)
      refine ⟨?_, ?_, h.edge, h.last, h.mono, h.early⟩
      · show u16 (s.pcb.rcvWnd + 1) ≤ TCP_WND
        omega
      · show s.pcb.rcvAnnWnd ≤ u16 (s.pcb.rcvWnd + 1)
        omega
    · exact h
  | @recved len _ _ _ hf hw hnear hu =>
    have hA := h.updated ((h.pcb.recved hf hw).mp hnear) hu rfl rfl
    have he : rightEdges (s.trace ++ [.recved len s.pcb]) = rightEdges s.trace :=
      rightEdges_append s.trace _ (by simp [Out.announces])
    refine ⟨hA.rcvWnd_le, hA.ann_le, hA.edge, ?_, ?_, ?_⟩
    · intro e hl
      change e ∈ (rightEdges (s.trace ++ [.recved len s.pcb])).getLast? at hl
      rw [he] at hl
      exact hA.last e hl
    · show (rightEdges (s.trace ++ [.recved len s.pcb])).IsChain _
      rw [he]
      exact hA.mono
    · intro hst
      exact he.trans (hA.early hst)
  | take hn hnear hu hv =>
    rw [hv]
    exact h.updated ((h.pcb.take hn).mp hnear) hu rfl rfl

theorem AckView.Announcing.run (hr : WndRun s₀ s)
    (h : s₀.ackView.Announcing) : s.ackView.Announcing := by
  induction hr with
  | refl => exact h
  | tail _ hm ih => exact ih.turn hm

theorem Opening.announcing (h : Opening s) : s.ackView.Announcing := by
  have hnil : rightEdges s.trace = [] := by
    rw [h.trace]
    rfl
  refine ⟨h.rcvWnd.le, ?_, ?_, ?_, ?_, fun _ => hnil⟩
  · show s.pcb.rcvAnnWnd ≤ s.pcb.rcvWnd
    rw [h.rcvAnnWnd, h.rcvWnd]
  · show 0 ≤ dist (s.pcb.rcvNxt + u32 s.pcb.rcvAnnWnd) s.pcb.rcvAnnRightEdge
    rw [h.rcvAnnRightEdge, h.rcvAnnWnd, dist_add_u32]
    · rw [Serial.dist_self]
      decide
    · rw [Serial.dist_self]
      decide
  · intro e he
    change e ∈ (rightEdges s.trace).getLast? at he
    rw [hnil] at he
    cases he
  · show (rightEdges s.trace).IsChain _
    rw [hnil]
    exact List.isChain_nil

theorem Begun.announcing (h : Begun s₀) : s₀.ackView.Announcing := by
  obtain ⟨t, err, ho, hr⟩ := h.opening
  exact ho.announcing.run ((announcesApi_run t).tcpOutput hr .refl)

end Rudp
