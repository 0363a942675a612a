import Rudp.Ack
import Rudp.Lib.Log
import Rudp.RightEdge
import Rudp.Room

/-!
# The window and the log

`tcp_receive` takes sequence numbers off the window and `tcp_recved` returns them. The log has the calls
of both, and with them what is missing from the window and which edges were compared. A run in whose log
no more is returned than was taken, and updates compare near edges, is a sequence of turns.

Results:
* `kept_soundRun`: every operation keeps this.
* `right_edge_sound`: the right edges that are announced in such a run do not move back, the window
  covers each of them and is at most `TCP_WND`, and the assertion on the window to announce holds.
* `right_edge_sound_fails`: no ACK can be built for `2^31` bytes.
-/

namespace Rudp

open Serial
open Relation (ReflTransGen)
open Run (Fails)

variable {W : Type} {s s' s₀ : St W} {k : ℕ} {app : App W}

/-! ## What the log says -/

/-- How many sequence numbers the call of `tcp_receive` took off the window. -/
def Out.taken : Out → ℕ
  | .process _ before received _ _ => before.rcvWnd - received.rcvWnd
  | _ => 0

/-- How many bytes the call of `tcp_recved` returned. -/
def Out.returned : Out → ℕ
  | .recved len _ => len
  | _ => 0

/-- The sequence numbers that `tcp_receive` has taken off the window. -/
def numbersTaken (trace : List Out) : ℕ := (trace.map Out.taken).sum

/-- The bytes that `tcp_recved` has returned. -/
def bytesReturned (trace : List Out) : ℕ := (trace.map Out.returned).sum

theorem numbersTaken_append (trace outs : List Out) :
    numbersTaken (trace ++ outs) = numbersTaken trace + numbersTaken outs := by
  simp [numbersTaken]

theorem bytesReturned_append (trace outs : List Out) :
    bytesReturned (trace ++ outs) = bytesReturned trace + bytesReturned outs := by
  simp [bytesReturned]

/-- `trace` is the log before `o`. The last update of a call was made with near edges, and `tcp_recved`
    returns no more than `tcp_receive` has taken. -/
def UpdatesNear (trace : List Out) : Out → Prop
  | .recved len pcb => bytesReturned trace + len ≤ numbersTaken trace ∧
      ∀ w, rcvWndRecved pcb len = .ok w → NearEdge { pcb with rcvWnd := w }
  | .process seg before received _ _ => InSequence before seg → NearEdge received
  | _ => True

/-! ## The ledger -/

/-- What has been taken off the window and not been returned is missing from it, and so are the `k`
    numbers that are being taken, until the peer has ended the stream. -/
structure AckView.Ledger (k : ℕ) (v : AckView) : Prop where
  taken : numbersTaken v.trace + k ≤ bytesReturned v.trace + TCP_WND
  wnd : ¬ v.state.Ended → v.rcvWnd + numbersTaken v.trace + k ≤ bytesReturned v.trace + TCP_WND

/-- Nothing is taken and nothing is returned. -/
theorem AckView.Ledger.quiet {v v' : AckView} (outs : List Out) (h : v.Ledger k)
    (hs : v.state.Ended → v'.state.Ended) (hw : v'.rcvWnd = v.rcvWnd)
    (ht : v'.trace = v.trace ++ outs) (ho : numbersTaken outs = 0 ∧ bytesReturned outs = 0) :
    v'.Ledger k := by
  have e₁ : numbersTaken v'.trace = numbersTaken v.trace := by
    rw [ht, numbersTaken_append, ho.1, add_zero]
  have e₂ : bytesReturned v'.trace = bytesReturned v.trace := by
    rw [ht, bytesReturned_append, ho.2, add_zero]
  refine ⟨?_, fun hn => ?_⟩
  · rw [e₁, e₂]
    exact h.taken
  · rw [e₁, e₂, hw]
    exact h.wnd (mt hs hn)

theorem announcesApi_ledger (k : ℕ) :
    AnnouncesApi (fun _ _ => False) fun s : St W => s.ackView.Ledger k where
  congr hI hv := by
    rw [hv]
    exact hI
  callback {s o} ho hI := by
    refine hI.quiet [o] id rfl rfl ?_
    cases o with
    | event => exact ⟨rfl, rfl⟩
    | err => exact ⟨rfl, rfl⟩
    | _ => cases ho
  wrote arg hI := hI.quiet [.wrote arg] id rfl rfl ⟨rfl, rfl⟩
  ackNow hI := ⟨hI.taken, hI.wnd⟩
  owe hv hI := by
    rw [hv]
    exact ⟨hI.taken, hI.wnd⟩
  transmit packet sent delay now _ _ hv hI := by
    rw [hv]
    exact hI.quiet _ id rfl rfl ⟨rfl, rfl⟩
  rst _ hv hI := by
    rw [hv]
    exact hI.quiet _ id rfl rfl ⟨rfl, rfl⟩
  noConnect := id
  recved hP := hP.elim
  state _ _ he hI := ⟨hI.taken, fun hn => hI.wnd (mt he hn)⟩
  closed hI := ⟨hI.taken, fun hn => absurd ended_closed hn⟩

/-- What has been taken is in the log when `tcp_process` is through. -/
theorem AckView.Ledger.process {seg : InSegment} {before received after : Pcb} {closed : Bool}
    (h : s.ackView.Ledger k) (hk : before.rcvWnd - received.rcvWnd = k) :
    (s.emit (.process seg before received after closed)).ackView.Ledger 0 := by
  have e₁ : numbersTaken (s.trace ++ [.process seg before received after closed]) =
      numbersTaken s.trace + (before.rcvWnd - received.rcvWnd) := numbersTaken_append _ _
  have e₂ : bytesReturned (s.trace ++ [.process seg before received after closed]) =
      bytesReturned s.trace := bytesReturned_append _ _
  refine ⟨?_, fun hn => ?_⟩
  · show numbersTaken (s.trace ++ [.process seg before received after closed]) + 0 ≤
      bytesReturned (s.trace ++ [.process seg before received after closed]) + TCP_WND
    rw [e₁, e₂, hk]
    exact h.taken
  · show s.pcb.rcvWnd + numbersTaken (s.trace ++ [.process seg before received after closed]) + 0 ≤
      bytesReturned (s.trace ++ [.process seg before received after closed]) + TCP_WND
    rw [e₁, e₂, hk, ← add_assoc]
    exact h.wnd hn

/-- The numbers that are taken come off the window. -/
theorem AckView.Ledger.takes {n : ℕ} (h : s.ackView.Ledger 0) (ht : Takes n s s')
    (ho : ¬ s.pcb.state.Ended) : s'.ackView.Ledger n := by
  have hle := ht.le
  have hw := ht.rcvWnd
  have hl : s.pcb.rcvWnd + numbersTaken s.trace + 0 ≤ bytesReturned s.trace + TCP_WND := h.wnd ho
  refine ⟨?_, fun _ => ?_⟩
  · show numbersTaken s'.trace + n ≤ bytesReturned s'.trace + TCP_WND
    rw [ht.trace]
    omega
  · show s'.pcb.rcvWnd + numbersTaken s'.trace + n ≤ bytesReturned s'.trace + TCP_WND
    rw [ht.trace]
    omega

/-- What has been taken is at most the window, and so is what can be returned. -/
theorem AckView.Ledger.fits {len : ℕ} (h : s.ackView.Ledger 0) (hA : s.pcb.Announcing)
    (hle : bytesReturned s.trace + len ≤ numbersTaken s.trace) : RecvedFits s.pcb len := by
  have hT : TCP_WND = 5360 := rfl
  have hwnd := hA.rcvWnd_le
  have htaken : numbersTaken s.trace + 0 ≤ bytesReturned s.trace + TCP_WND := h.taken
  show s.pcb.rcvWnd + len < 65536
  omega

/-! ## Runs -/

/-- If the log says that updates compared near edges, and no more was returned than was taken, the
    state is reached in turns, and nothing is missing from the window but what was taken. -/
def WndSound (s₀ s : St W) : Prop :=
  Log.Throughout UpdatesNear s.trace → WndRun s₀ s ∧ s.ackView.Ledger 0

/-- What the log says now it said before. -/
theorem WndSound.before {outs : List Out} (hI : WndSound s₀ s)
    (hT : Log.Throughout UpdatesNear s'.trace) (ht : s'.trace = s.trace ++ outs) :
    WndRun s₀ s ∧ s.ackView.Ledger 0 :=
  hI (hT.of_prefix (ht ▸ List.prefix_append _ _))

theorem announcesApi_wndSound (h₀ : s₀.ackView.Announcing) :
    AnnouncesApi NoConnect (WndSound (W := W) s₀) where
  congr {s s'} hI hv hT := by
    obtain ⟨hr, hl⟩ := hI (by rwa [← show s'.trace = s.trace from congrArg AckView.trace hv])
    exact ⟨hr.tail (.congr hv), by rwa [hv]⟩
  callback ho hI hT := by
    obtain ⟨hr, hl⟩ := hI.before hT rfl
    exact ⟨(announcesApi_run s₀).callback ho hr, (announcesApi_ledger 0).callback ho hl⟩
  wrote arg hI hT := by
    obtain ⟨hr, hl⟩ := hI.before hT rfl
    exact ⟨(announcesApi_run s₀).wrote arg hr, (announcesApi_ledger 0).wrote arg hl⟩
  ackNow hI hT := by
    obtain ⟨hr, hl⟩ := hI hT
    exact ⟨(announcesApi_run s₀).ackNow hr, (announcesApi_ledger 0).ackNow hl⟩
  owe {s s'} hv hI hT := by
    obtain ⟨hr, hl⟩ := hI (by rwa [← show s'.trace = s.trace from congrArg AckView.trace hv])
    exact ⟨(announcesApi_run s₀).owe hv hr, (announcesApi_ledger 0).owe hv hl⟩
  transmit packet sent delay now hcur hd hv hI hT := by
    obtain ⟨hr, hl⟩ := hI.before hT (congrArg AckView.trace hv)
    exact ⟨(announcesApi_run s₀).transmit packet sent delay now hcur hd hv hr,
      (announcesApi_ledger 0).transmit packet sent delay now hcur hd hv hl⟩
  rst hrst hv hI hT := by
    obtain ⟨hr, hl⟩ := hI.before hT (congrArg AckView.trace hv)
    exact ⟨(announcesApi_run s₀).rst hrst hv hr, (announcesApi_ledger 0).rst hrst hv hl⟩
  noConnect h := h
  recved {s len w n pcb} _ hw hp hI hT := by
    obtain ⟨hT, hle, hnear⟩ := Log.throughout_concat.mp hT
    obtain ⟨hr, hl⟩ := hI hT
    have hA := (h₀.run hr).pcb
    have hfit := hl.fits hA hle
    have hrw := (rcvWndRecved_fits hA.rcvWnd_le hfit hw).2.2
    refine ⟨hr.tail (.recved hfit hw (hnear w hw) hp), ?_⟩
    obtain ⟨aw, rfl⟩ := tcpUpdateRcvAnnWnd_ok hp
    have e₁ : numbersTaken (s.trace ++ [.recved len s.pcb]) = numbersTaken s.trace :=
      numbersTaken_append _ _
    have e₂ : bytesReturned (s.trace ++ [.recved len s.pcb]) = bytesReturned s.trace + len :=
      bytesReturned_append _ _
    refine ⟨?_, fun hn => ?_⟩
    · have hl : numbersTaken s.trace + 0 ≤ bytesReturned s.trace + TCP_WND := hl.taken
      show numbersTaken (s.trace ++ [.recved len s.pcb]) + 0 ≤
        bytesReturned (s.trace ++ [.recved len s.pcb]) + TCP_WND
      omega
    · have hl : s.pcb.rcvWnd + numbersTaken s.trace + 0 ≤ bytesReturned s.trace + TCP_WND := hl.wnd hn
      have hrw := hrw hn
      show w + numbersTaken (s.trace ++ [.recved len s.pcb]) + 0 ≤
        bytesReturned (s.trace ++ [.recved len s.pcb]) + TCP_WND
      omega
  state hc hne he hI hT := by
    obtain ⟨hr, hl⟩ := hI hT
    exact ⟨(announcesApi_run s₀).state hc hne he hr, (announcesApi_ledger 0).state hc hne he hl⟩
  closed hI hT := by
    obtain ⟨hr, hl⟩ := hI hT
    exact ⟨(announcesApi_run s₀).closed hr, (announcesApi_ledger 0).closed hl⟩

/-- `tcp_receive`, and what `tcp_process` does behind it. -/
theorem WndSound.receive (h₀ : s₀.ackView.Announcing) {seg : InSegment} {after : St W → St W}
    (hafter : after = tcpProcessAfter s.pcb.state seg ∨ after = tcpProcessAcceptAfter)
    (hr : tcpProcessReceive s seg after = .ok s') (hI : WndSound s₀ s) : WndSound s₀ s' := by
  obtain ⟨hnum, s₁, s₂, h₁, hv, h₂, rfl⟩ := processReceive_parts hr
  have hst := state_tcpReceiveData h₂
  have hst₁ : s₁.pcb.state = s.pcb.state := congrArg RcvView.state hv
  rw [hst₁] at hst
  intro hT
  obtain ⟨hT, hnear⟩ := Log.throughout_concat.mp hT
  -- what `tcp_receive` does with the acknowledgment
  have hack {I : St W → Prop} (hA : AnnouncesApi (fun _ _ => False) I) (h : I s) : I s₁ := by
    rcases h₁ with ⟨-, h₁⟩ | ⟨-, rfl⟩
    · exact hA.receiveAck h₁ h
    · exact h
  have hnxt : s₁.pcb.rcvNxt = s.pcb.rcvNxt := congrArg RcvView.rcvNxt hv
  have hwnd : s₁.pcb.rcvWnd = s.pcb.rcvWnd := congrArg RcvView.rcvWnd hv
  have hsyn : s₁.pcb.state ≠ .SYN_SENT := hst₁ ▸ (TcpState.synchronized hnum).1
  -- the log that the condition speaks of
  have hlogs (u : List Out) : AnnouncesApi (fun _ _ => False) fun s : St W => u <+: s.trace :=
    announcesApi_extends (fun _ _ _ => id) u
  have hpre {t : St W} (h : t.trace <+: s₂.trace) : Log.Throughout UpdatesNear t.trace :=
    hT.of_prefix ((hlogs t.trace).after hafter hnum hst h)
  have hsound (h : s.trace <+: s₂.trace) : WndRun s₀ s₁ ∧ s₁.ackView.Ledger 0 := by
    obtain ⟨hr, hl⟩ := hI (hpre h)
    exact ⟨hack (announcesApi_run s₀) hr, hack (announcesApi_ledger 0) hl⟩
  have hlog : s.trace <+: s₁.trace := hack (hlogs s.trace) List.prefix_rfl
  have hend {n : ℕ} (hn : s.pcb.rcvWnd - s₂.pcb.rcvWnd = n) (hr : WndRun s₀ s₂)
      (hl : s₂.ackView.Ledger n) {t : St W} (ht : t = (after s₂).emit
        (.process seg s.pcb s₂.pcb (after s₂).pcb (after s₂).recvClosed)) :
      WndRun s₀ t ∧ t.ackView.Ledger 0 := by
    rw [ht]
    exact ⟨((announcesApi_run s₀).after hafter hnum hst hr).tail (.log rfl),
      ((announcesApi_ledger n).after hafter hnum hst hl).process hn⟩
  rcases tcpReceiveData_takes hsyn h₂ with ⟨hseq, n, hn⟩ | hall
  · obtain ⟨hr, hl⟩ := hsound (by rw [hn.trace]; exact hlog)
    have hle := hn.le
    have hnear : NearEdge (s₁.pcb.moved n) :=
      (nearEdge_congr hn.edges).mp (hnear ((inSequence_congr hst₁ hnxt hwnd).mp hseq))
    have hopen : ¬ s₁.pcb.state.Ended := by
      rintro (hc | hc)
      · rw [← hst₁, hc] at hnum
        exact absurd hnum (by decide)
      · exact absurd hseq.2.1 (not_lt.mpr hc)
    refine hend ?_ (hr.trans (hn.run fun m hm => ?_)) (hl.takes hn hopen) rfl
    · have := hn.rcvWnd
      omega
    · exact hnear.of_moved (h₀.run hr).pcb hm hle
  · obtain ⟨hr, hl⟩ := hsound (hall _ (hlogs s.trace) hlog)
    have hw := hall _ (announcesApi_rcvWnd s₁.pcb.rcvWnd) rfl
    refine hend ?_ (hall _ (announcesApi_run s₀) hr) (hall _ (announcesApi_ledger 0) hl) rfl
    omega

theorem WndSound.establish {seg : InSegment} {rest : List TcpSeg} (hst : s.pcb.state = .SYN_SENT)
    (hI : WndSound s₀ s) : WndSound s₀ { s with pcb := Rudp.establish s.pcb seg rest } := by
  intro hT
  obtain ⟨hrun, hl⟩ := hI hT
  refine ⟨hrun.tail (.establish hst rfl), hl.taken, fun _ => hl.wnd ?_⟩
  rw [show s.ackView.state = .SYN_SENT from hst]
  decide

theorem announces_wndSound {Q : St W → InSegment → Prop} {R : St W → Tmr → Prop}
    (h₀ : s₀.ackView.Announcing) :
    Announces NoConnect Q R app (WndSound s₀) fun s => s.pcb.state.Ended where
  toAnnouncesApi := announcesApi_wndSound h₀
  reset {s s'} hr hI hT := by
    have hv := ackView_reset hr
    obtain ⟨hrun, hl⟩ := hI.before hT (congrArg AckView.trace hv)
    have hc : WndRun s₀ { s with pcb.state := .CLOSED } := hrun.tail (.state closed_ne_synSent rfl)
    refine ⟨hc.tail (.quiet [.err .rst] false s.pcb.tfAckNow (by simp [Out.announces]) hv), ?_⟩
    rw [hv]
    exact hl.quiet _ (fun _ => ended_closed) rfl rfl ⟨rfl, rfl⟩
  fasttmr {s s' err} _ _ hr hI := by
    have hA := announcesApi_wndSound h₀
    have hI' : WndSound s₀ s' := hA.tcpOutput hr (hA.ackNow hI)
    intro hT
    obtain ⟨hrun, hl⟩ := hI' hT
    exact ⟨hrun.tail (.flags false false rfl), hl.taken, hl.wnd⟩
  rcvWndFin {s} hd hI hT := by
    obtain ⟨hrun, hl⟩ := hI hT
    refine ⟨hrun.tail .rcvWndFin, hl.taken, fun hn => absurd ?_ hn⟩
    show (Rudp.rcvWndFin s.pcb).state.Ended
    unfold Rudp.rcvWndFin
    split <;> exact hd
  synSent happ hst hr hI := (announcesApi_wndSound h₀).toKeptApi.tcpProcessSynSent
    (fun _ _ _ hI => hI.establish hst) happ hr hI
  receive hafter hr hI := hI.receive h₀ hafter hr

/-- With `WndSound`, that a FIN which waits behind refused data has been taken. Reporting it gives its
    number back to the window. -/
def SoundRun (s₀ s : St W) : Prop :=
  (s.Ends fun _ d => ∃ data, d = some (data, true)) ∧ WndSound s₀ s

theorem kept_soundRun {Q : St W → InSegment → Prop} {R : St W → Tmr → Prop}
    (h₀ : s₀.ackView.Announcing) : Kept NoConnect Q R app (SoundRun s₀) := by
  refine (kept_ends noting_finParked fun _ _ _ h => h).and (announces_wndSound h₀).toKept ?_
  intro s hs
  have he : s.pcb.state.Ended := hs (fun _ _ _ h => h) fun t ht hp => ht.1 hp
  exact ⟨fun _ _ => he, he⟩

/-! ## The assertion -/

/-- Updates compare near edges, however much is taken off the window. -/
structure Pcb.Ready (pcb : Pcb) : Prop where
  announcing : pcb.Announcing
  near : ∀ n ≤ pcb.rcvWnd, NearEdge (pcb.moved n)

theorem ready_tcpReceiveTake {message : String} {c : TcpSeg} {n : ℕ}
    (hc : c.tcphdr.seqno = s.pcb.rcvNxt) (h : tcpReceiveTake s message c n = .ok s') (hR : s.pcb.Ready) : s'.pcb.Ready := by
  have ht := takes_tcpReceiveTake hc h
  have hle := ht.le
  have hw := ht.rcvWnd
  refine ⟨?_, fun m hm => ?_⟩
  · obtain ⟨_, -, h⟩ := Run.bind_eq_ok.mp h
    obtain ⟨⟨m, pcb⟩, hp, h⟩ := Run.bind_eq_ok.mp h
    cases h
    rw [hc] at hp
    obtain ⟨m', pcb', hp', hA⟩ := (hR.announcing.take hle).mp (hR.near n hle)
    have e : tcpUpdateRcvAnnWnd (s.pcb.moved n) = .ok (m, pcb) := hp
    rw [hp'] at e
    cases e
    exact hA
  · refine (nearEdge_congr ?_).mpr (hR.near (n + m) (by omega))
    rw [edges_moved ht.edges, edges_moved_moved]

section Ready

variable {F : Fault → Prop} (hdata : ∀ message ∈ dataMessages, F (.assert message))

include hdata

theorem fails_tcpReceiveTake_of_ready {message : String} (hm : message ∈ dataMessages) {c : TcpSeg}
    {n : ℕ} (hc : c.tcphdr.seqno = s.pcb.rcvNxt) (hR : s.pcb.Ready) :
    Fails F (tcpReceiveTake s message c n) := by
  refine .bind (Fails.lwipAssert fun _ => hdata _ hm) fun _ ha => .bind ?_ fun _ _ => .ok _
  have hle := lwipAssert_ok ha
  obtain ⟨m, pcb, hu, -⟩ := (hR.announcing.take hle).mp (hR.near n hle)
  intro e he
  rw [hc] at he
  cases hu.symm.trans he

theorem fails_tcpReceiveDequeue_of_ready (q : List TcpSeg) (hR : s.pcb.Ready) :
    Fails F (tcpReceiveDequeue q s) := by
  induction q generalizing s with
  | nil => exact .ok _
  | cons c q ih =>
    rw [tcpReceiveDequeue]
    split
    · next hc =>
      refine .bind (fails_tcpReceiveTake_of_ready hdata (by simp [dataMessages]) hc hR)
        fun s₁ h₁ => ?_
      have hR₁ := ready_tcpReceiveTake hc h₁ hR
      exact ih ⟨⟨hR₁.announcing.rcvWnd_le, hR₁.announcing.ann_le, hR₁.announcing.edge⟩, hR₁.near⟩
    · exact .ok _

theorem fails_tcpReceiveInseq_of_ready {c : TcpSeg} (hc : s.pcb.rcvNxt = c.tcphdr.seqno)
    (hR : s.pcb.Ready) : Fails F (tcpReceiveInseq s c) := by
  refine .bind (fails_tcpReceiveTrimWnd hdata _ _ _) fun c₁ h₁ =>
    .bind (fails_mergeOoseq hdata _ _) fun x h₂ => ?_
  obtain ⟨c₂, q⟩ := x
  have hc₂ : c₂.tcphdr.seqno = s.pcb.rcvNxt := by
    rw [seqno_mergeOoseq h₂, seqno_tcpReceiveTrimWnd h₁, hc]
  have hRq : ({ s with pcb.ooseq := q } : St W).pcb.Ready :=
    ⟨⟨hR.announcing.rcvWnd_le, hR.announcing.ann_le, hR.announcing.edge⟩, hR.near⟩
  refine .bind (fails_tcpReceiveTake_of_ready hdata (by simp [dataMessages]) hc₂ hRq) fun s₁ h₃ => ?_
  have hR₁ : s₁.pcb.Ready := ready_tcpReceiveTake (s := { s with pcb.ooseq := q }) hc₂ h₃ hRq
  exact .bind (fails_tcpReceiveDequeue_of_ready hdata _ hR₁) fun _ _ => .ok _

end Ready

/-- An acknowledgment leaves the window alone, or announces its right edge. -/
theorem Pcb.Ready.receiveAck {seg : InSegment} (h : tcpReceiveAck s seg = .ok s')
    (hA : s'.pcb.Announcing) (hnear : ∀ n ≤ s.pcb.rcvWnd, NearEdge (s.pcb.moved n)) : s'.pcb.Ready := by
  have hT : TCP_WND = 5360 := rfl
  have hv := rcvView_tcpReceiveAck h
  have hnxt : s'.pcb.rcvNxt = s.pcb.rcvNxt := congrArg RcvView.rcvNxt hv
  have hwnd : s'.pcb.rcvWnd = s.pcb.rcvWnd := congrArg RcvView.rcvWnd hv
  have hmss : s'.pcb.mss = s.pcb.mss := congrArg EndView.mss (endView_tcpReceiveAck h)
  have hsame (he : s'.pcb.rcvAnnRightEdge = s.pcb.rcvAnnRightEdge) : s'.pcb.Ready := by
    refine ⟨hA, fun n hn => (nearEdge_congr (edges_moved ?_ n)).mpr (hnear n (hwnd ▸ hn))⟩
    simp only [Pcb.edges, hnxt, hwnd, he, hmss]
  rcases tcpReceiveAck_ackView h with e | ⟨t, ht, e⟩
  · exact hsame (congrArg AckView.rcvAnnRightEdge e)
  · rcases ackView_tcpSendEmptyAck t with ⟨-, hv⟩ | ⟨packet, sent, -, -, -, hv⟩
    · refine hsame ?_
      have e₁ : s'.pcb.rcvAnnRightEdge = t.pcb.rcvAnnRightEdge :=
        congrArg AckView.rcvAnnRightEdge (e.trans hv)
      exact e₁.trans (congrArg AckView.rcvAnnRightEdge ht)
    · have hedge : s'.pcb.rcvAnnRightEdge = s'.pcb.rcvNxt + u32 s'.pcb.rcvAnnWnd := by
        rw [show s'.pcb.rcvAnnRightEdge = t.pcb.rcvNxt + u32 t.pcb.rcvAnnWnd from
            congrArg AckView.rcvAnnRightEdge (e.trans hv),
          show s'.pcb.rcvNxt = t.pcb.rcvNxt from congrArg AckView.rcvNxt (e.trans hv),
          show s'.pcb.rcvAnnWnd = t.pcb.rcvAnnWnd from congrArg AckView.rcvAnnWnd (e.trans hv)]
      refine ⟨hA, fun n hn => .inl ?_⟩
      have hle := hA.rcvWnd_le
      have hann := hA.ann_le
      have hend : s'.pcb.rcvNxt + u32 n + u32 (s'.pcb.rcvWnd - n) =
          s'.pcb.rcvAnnRightEdge + u32 (s'.pcb.rcvWnd - s'.pcb.rcvAnnWnd) := by
        rw [hedge, add_assoc, add_assoc, ← u32_add, ← u32_add]
        congr 2
        omega
      show 0 ≤ dist (s'.pcb.rcvNxt + u32 n + u32 (s'.pcb.rcvWnd - n)) s'.pcb.rcvAnnRightEdge
      have hself : dist s'.pcb.rcvAnnRightEdge s'.pcb.rcvAnnRightEdge = 0 := Serial.dist_self _
      rw [hend, dist_add_u32 _ _ _ (by omega), hself]
      omega

/-- The condition on a call, in the state in which it is made: the log meets the condition, also with
    the call. -/
def NearCall (t : St W) (a : Api) : Prop :=
  Log.Throughout UpdatesNear t.trace ∧
    ∀ len, a = .recved len → UpdatesNear t.trace (.recved len t.pcb)

/-- The condition on a segment, in the state in which `tcp_receive` is called: the log meets it, and
    updates compare near edges however much of the window the segment and `ooseq` fill. -/
def NearReceive (t : St W) (seg : InSegment) : Prop :=
  Log.Throughout UpdatesNear t.trace ∧
    (InSequence t.pcb seg → ∀ n ≤ t.pcb.rcvWnd, NearEdge (t.pcb.moved n))

theorem safe_soundRun (h₀ : s₀.ackView.Announcing) :
    Safe (· ≠ annWndTooBig) NoConnect NearReceive NearCall (SoundRun (W := W) s₀) where
  glue e he := by
    rintro rfl
    simp [Fault.Glue, annWndTooBig] at he
  write arg copy more _ _ := fails_tcpWrite (by simp [sizeMessages, annWndTooBig])
    (fun _ => by simp [mssTooSmall, annWndTooBig]) (fun _ => by simp [queueMessages, annWndTooBig])
    arg copy more
  recved {s len} _ hC hI := by
    obtain ⟨hrun, hl⟩ := hI.2 hC.1
    obtain ⟨hle, hnear⟩ := hC.2 len rfl
    have hA := (h₀.run hrun).pcb
    refine fails_tcpRecvedUpdate (fun e he _ => ?_) (by simp [annWndTooBig]) fun w hw => ?_
    · rintro rfl
      simp [Fault.Glue, annWndTooBig] at he
    · obtain ⟨m, pcb, hu, -⟩ := (hA.recved (hl.fits hA hle) hw).mp (hnear w hw)
      intro e he
      cases hu.symm.trans he
  synSent _ _ _ _ := by simp [annWndTooBig]
  establish hst _ _ _ _ hI := by
    refine ⟨fun hn => absurd hn (hI.1.of_open hst (by decide)), hI.2.establish hst⟩
  receive {s seg} hQ hI := by
    have hA : AnnouncesApi (fun _ _ => False) (WndRun s₀) := announcesApi_run s₀
    obtain ⟨hrun, -⟩ := hI.2 hQ.1
    have hdata : ∀ message ∈ dataMessages, Fault.assert message ≠ annWndTooBig := by
      simp [dataMessages, annWndTooBig]
    refine .bind (Fails.lwipAssert fun _ => by simp [annWndTooBig]) fun _ ha => .bind ?_ fun s₁ h₁ => ?_
    · split
      · exact fails_tcpReceiveAck (by simp [freeMessages, annWndTooBig]) _ _
      · exact .ok _
    refine fails_tcpReceiveData hdata fun hlen hst c hc hin hseq => ?_
    have hseq₁ := inSequence_of_dup hlen hst hc hin hseq
    have hR : s₁.pcb.Ready := by
      split at h₁
      · have hv := rcvView_tcpReceiveAck h₁
        have hiff : InSequence s₁.pcb seg ↔ InSequence s.pcb seg := inSequence_congr
          (congrArg RcvView.state hv) (congrArg RcvView.rcvNxt hv) (congrArg RcvView.rcvWnd hv)
        exact .receiveAck h₁ (h₀.run (hA.receiveAck h₁ hrun)).pcb (hQ.2 (hiff.mp hseq₁))
      · cases h₁
        exact ⟨(h₀.run hrun).pcb, hQ.2 hseq₁⟩
    refine fails_tcpReceiveInseq_of_ready hdata hseq ?_
    unfold tcpReceiveDup
    split
    · exact ⟨⟨hR.announcing.rcvWnd_le, hR.announcing.ann_le, hR.announcing.edge⟩, hR.near⟩
    · exact hR

/-! ## The result -/

/-- A turn that keeps the order; the edge that it announces is covered by the window. -/
def CoveredTurn (t t' : St W) : Prop :=
  WndTurn t t' ∧ t.pcb.Announcing ∧
    ∀ e, rightEdges t'.trace = rightEdges t.trace ++ [e] →
      ∃ w ≤ t.pcb.rcvWnd, e = t.pcb.rcvNxt + u32 w

/-- The right edges that were announced do not move back, and the window covered each of them when it
    was announced. The window is at most `TCP_WND`, and an update keeps the order exactly when it
    compares near edges. The assertion on the window to announce holds. -/
structure RightEdgeSound (app : App W) (s₀ s : St W) : Prop where
  mono : (rightEdges s.trace).IsChain fun e e' => tcpSeqGeq e' e
  path : ReflTransGen CoveredTurn s₀ s
  rcvWnd_le : s.pcb.rcvWnd ≤ TCP_WND
  take : ∀ n ≤ s.pcb.rcvWnd, NearEdge (s.pcb.moved n) ↔
    ∃ m pcb, tcpUpdateRcvAnnWnd (s.pcb.moved n) = .ok (m, pcb) ∧ pcb.Announcing
  recved : ∀ (len : Fin 65536) w, bytesReturned s.trace + len ≤ numbersTaken s.trace →
    rcvWndRecved s.pcb len = .ok w → (NearEdge { s.pcb with rcvWnd := w } ↔
      ∃ m pcb, tcpUpdateRcvAnnWnd { s.pcb with rcvWnd := w } = .ok (m, pcb) ∧ pcb.Announcing)
  step : ∀ op, Kept.StepOk NoConnect NearReceive (fun _ _ => True) app s op →
    (∀ a, op.2 = .api a → NearCall { s with fails := op.1 } a) →
    AppFaults (· ≠ annWndTooBig) NoConnect NearCall app → connStep app s op ≠ .error annWndTooBig

theorem Opening.ledger (h : Opening s) : s.ackView.Ledger 0 := by
  have ht : s.ackView.trace = [] := h.trace
  refine ⟨?_, fun _ => ?_⟩
  · rw [ht]
    exact Nat.zero_le _
  · rw [ht, show s.ackView.rcvWnd = TCP_WND from h.rcvWnd]
    exact le_rfl

theorem Begun.soundRun (h : Begun s₀) : SoundRun s₀ s₀ := by
  obtain ⟨t, err, ho, hr⟩ := h.opening
  refine ⟨?_, fun _ => ⟨.refl, (announcesApi_ledger 0).tcpOutput hr ho.ledger⟩⟩
  rintro ⟨data, hd⟩
  have e : s₀.pcb.refusedData = t.pcb.refusedData :=
    congrArg (fun v : RcvView W => v.refusedData) (rcvView_tcpOutput hr)
  rw [e, ho.refusedData] at hd
  cases hd

theorem coveredTurns (h₀ : s₀.ackView.Announcing) (hr : WndRun s₀ s) :
    ReflTransGen CoveredTurn s₀ s := by
  induction hr with
  | refl => exact .refl
  | tail hr ht ih =>
    have hA := h₀.run hr
    exact ih.tail ⟨ht, hA.pcb, fun e he => ⟨_, hA.ann_le, ht.edge he⟩⟩

/-- In every run in which updates compare near edges and no more is returned than was taken. -/
theorem right_edge_sound (happ : AppOk NoConnect app) (h₀ : Begun s₀)
    (hr : Run.Reach (connStep app)
      (Kept.StepOk NoConnect (fun _ _ => True) (fun _ _ => True) app) s₀ s)
    (hlog : Log.Throughout UpdatesNear s.trace) : RightEdgeSound app s₀ s := by
  have hI : SoundRun s₀ s := (kept_soundRun h₀.announcing).reach happ h₀.soundRun hr
  obtain ⟨hrun, hl⟩ := hI.2 hlog
  have hA := h₀.announcing.run hrun
  refine ⟨hA.mono, coveredTurns h₀.announcing hrun, hA.rcvWnd_le, fun n hn => hA.pcb.take hn,
    fun len w hle hw => hA.pcb.recved (hl.fits hA.pcb hle) hw, ?_⟩
  intro op hop hC hf he
  exact (safe_soundRun h₀.announcing).step (kept_soundRun h₀.announcing) happ hf hop
    (fun _ _ _ _ => trivial) hC hI _ he rfl

/-! ### A window that is opened again -/

/-- The SYN-ACK, with an MSS of 3. -/
def smallSynAck : InSegment where
  tcphdr := serverHdr 0 1000 { syn := true, ack := true } TCP_WND
  options := [2, 4, 0, 3]
  p := []
  bound := noData_bound

/-- Three bytes of the server, behind one that is missing. -/
def earlyBytes : InSegment where
  tcphdr := serverHdr 2 1000 { ack := true } TCP_WND
  p := [{ payload := [7, 7, 7] }]
  bound := threeBytes_bound

/-- The missing byte arrives, the application reads all four, and the fast timer sends the ACK. -/
def readOps : List (List Bool × Op) :=
  [([], .input smallSynAck), ([], .input earlyBytes), byteOp 1 TCP_WND, ([], .api (.recved 4)),
    ([], .fasttmr)]

/-- The right edge moves when what was read is at least the MSS. -/
theorem right_edge_sound_read : ∃ s : St Unit,
    Run.exec (connStep idleApp) connecting readOps = .ok s ∧
    rightEdges s.trace = [5361, 5361, 5365] ∧ numbersTaken s.trace = 4 ∧ bytesReturned s.trace = 4 ∧
    RightEdgeSound idleApp connecting s := by
  refine ⟨_, rfl, by decide +kernel, by decide +kernel, by decide +kernel,
    right_edge_sound appOk_idleApp begun_connecting
      (.step ([], .fasttmr) (.step ([], .api (.recved 4)) (.step (byteOp 1 TCP_WND)
        (.step ([], .input earlyBytes) (.step ([], .input smallSynAck) .refl (fun _ _ => trivial) rfl)
          (fun _ _ => trivial) rfl) (fun _ _ => trivial) rfl) trivial rfl)
        (fun _ => trivial) rfl) (Log.throughout_of_getElem fun i hi => ?_)⟩
  have hi : i < 9 := hi
  interval_cases i
  · trivial
  · trivial
  · trivial
  · trivial
  · exact fun _ => (by decide +kernel)
  · exact fun _ => (by decide +kernel)
  · trivial
  · refine ⟨by decide +kernel, fun w hw => ?_⟩
    cases hw
    decide +kernel
  · trivial

/-! ### A connection whose ACKs are never built -/

/-- The server sends one byte without an ACK. -/
def lostSeg (seqno : U32) : InSegment where
  tcphdr := serverHdr seqno 0 { psh := true } TCP_WND
  p := [{ payload := [7] }]
  bound := oneByte_bound

/-- No ACK can be built for the byte, nor for the window when the application has read it. -/
def lostOps (seqno : U32) : List (List Bool × Op) :=
  [([true], .input (lostSeg seqno)), ([true], .api (.recved 1))]

/-- The first `n` bytes of the server. -/
def stallOps (n : ℕ) : List (List Bool × Op) :=
  synAckOp TCP_WND :: (List.range n).flatMap fun i => lostOps (u32 (i + 1))

/-- The client behind two bytes. -/
def stalledClient : St Unit :=
  match Run.exec (connStep idleApp) connecting (stallOps 2) with
  | .ok s => s
  | .error _ => connecting

/-- The same, but for what further bytes change. -/
def stalled (n : U32) (w a : ℕ) (fails : List Bool) (trace : List Out) : St Unit :=
  { stalledClient with
    pcb.rcvNxt := n, pcb.rcvWnd := w, pcb.rcvAnnWnd := a, fails := fails, trace := trace }

/-- The update goes through while `rcv_nxt` seems to be not too far behind. -/
theorem tcpUpdateRcvAnnWnd_goes (pcb : Pcb) (h : -65535 ≤ dist pcb.rcvNxt pcb.rcvAnnRightEdge) :
    ∃ m a, tcpUpdateRcvAnnWnd pcb = .ok (m, { pcb with rcvAnnWnd := a }) := by
  by_cases h1 : tcpSeqGeq (pcb.rcvNxt + u32 pcb.rcvWnd)
      (pcb.rcvAnnRightEdge + u32 (min (TCP_WND / 2) pcb.mss))
  · exact ⟨_, _, tcpUpdateRcvAnnWnd_more h1⟩
  · by_cases h2 : tcpSeqGt pcb.rcvNxt pcb.rcvAnnRightEdge
    · exact ⟨_, _, tcpUpdateRcvAnnWnd_none h1 h2⟩
    · rw [tcpUpdateRcvAnnWnd_same h1 h2]
      have hback := toNat_sub_of_dist (not_lt.mp h2)
      exact ⟨_, _, Run.bind_eq_ok.mpr ⟨(), lwipAssert_pos (by omega), rfl⟩⟩

section Stalled

variable {n : U32} {a : ℕ} {fails : List Bool} {trace : List Out}

/-- Its pcb. -/
abbrev stalledPcb (n : U32) (w a : ℕ) : Pcb := (stalled n w a [] []).pcb

/-- The state in which `tcp_process` hands the byte to `tcp_receive`. -/
abbrev stalledIn (n : U32) (a : ℕ) (trace : List Out) : St Unit :=
  { stalled n TCP_WND a [true] trace with inputPcb := true }

theorem dist_pred (n : U32) : dist n (n + 1) = -1 := by
  unfold Serial.dist
  have e : n - (n + 1) = -1 := by bv_omega
  rw [e]
  decide

/-- The byte is next in sequence. -/
theorem stalled_tcpReceiveData : tcpReceiveData (stalledIn n a trace) (lostSeg n) =
    tcpReceiveInseq (stalledIn n a trace) (lostSeg n).inseg := by
  have hself : dist n n = 0 := Serial.dist_self n
  have hover : ¬ overlaps n (lostSeg n) := by
    rintro ⟨h, -⟩
    have h : 0 ≤ dist n (n + 1) := h
    rw [dist_pred] at h
    omega
  have hlt : ¬ tcpSeqLt n n := by
    unfold tcpSeqLt
    omega
  have hwin : inWindow (stalledIn n a trace).pcb n := by
    refine ⟨hself.ge, ?_⟩
    show dist n (n + u32 TCP_WND - 1) ≤ 0
    have e : n - (n + u32 TCP_WND - 1) = -5359 := by
      unfold u32 TCP_WND TCP_MSS
      bv_omega
    unfold Serial.dist
    rw [e]
    decide
  have hedge : tcpReceiveFirstEdge (stalledIn n a trace).pcb.rcvNxt (lostSeg n) =
      .ok (lostSeg n).inseg := if_neg hover
  have hdup : tcpReceiveDup (stalledIn n a trace) (lostSeg n) = stalledIn n a trace :=
    if_neg fun h => hlt h.2
  unfold tcpReceiveData
  rw [if_pos ⟨Nat.zero_lt_one, show 4 < 7 by decide⟩, hedge]
  show tcpReceiveSegment (tcpReceiveDup (stalledIn n a trace) (lostSeg n)) (lostSeg n).inseg = _
  rw [hdup]
  exact (if_pos hwin).trans (if_pos rfl)

/-- It is taken if the update goes through. -/
theorem stalled_taken {b : ℕ} {m : U32} (hu : tcpUpdateRcvAnnWnd (stalledPcb (n + 1) (TCP_WND - 1) a) =
      .ok (m, stalledPcb (n + 1) (TCP_WND - 1) b)) :
    tcpReceiveInseq (stalledIn n a trace) (lostSeg n).inseg = .ok { stalledIn n a trace with
      pcb := { stalledPcb (n + 1) (TCP_WND - 1) b with tfAckDelay := false }
      recvData := some [{ payload := [7] }] } := by
  refine Run.bind_eq_ok.mpr ⟨_, rfl, Run.bind_eq_ok.mpr ⟨_, rfl, Run.bind_eq_ok.mpr ⟨_,
    Run.bind_eq_ok.mpr ⟨(), rfl, Run.bind_eq_ok.mpr ⟨_, hu, rfl⟩⟩, ?_⟩⟩⟩
  exact Run.bind_eq_ok.mpr ⟨_, rfl, rfl⟩

/-- Otherwise the assertion fails. -/
theorem stalled_overtaken {e : Fault}
    (hu : tcpUpdateRcvAnnWnd (stalledPcb (n + 1) (TCP_WND - 1) a) = .error e) :
    tcpReceiveInseq (stalledIn n a trace) (lostSeg n).inseg = .error e := by
  refine Run.bind_eq_error.mpr (.inr ⟨_, rfl, Run.bind_eq_error.mpr (.inr ⟨_, rfl,
    Run.bind_eq_error.mpr (.inl ?_)⟩)⟩)
  exact Run.bind_eq_error.mpr (.inr ⟨(), rfl, Run.bind_eq_error.mpr (.inl hu)⟩)

theorem stalled_input (fails : List Bool) (trace : List Out) {b : ℕ} {m : U32}
    (hu : tcpUpdateRcvAnnWnd (stalledPcb (n + 1) (TCP_WND - 1) a) =
      .ok (m, stalledPcb (n + 1) (TCP_WND - 1) b)) :
    ∃ trace', connStep idleApp (stalled n TCP_WND a fails trace) ([true], .input (lostSeg n)) =
      .ok (stalled (n + 1) (TCP_WND - 1) b [] trace') := by
  have hr : tcpReceive (stalledIn n a trace) (lostSeg n) = .ok { stalledIn n a trace with
      pcb := { stalledPcb (n + 1) (TCP_WND - 1) b with tfAckDelay := false }
      recvData := some [{ payload := [7] }] } :=
    Run.bind_eq_ok.mpr ⟨(), rfl, Run.bind_eq_ok.mpr ⟨_, rfl,
      stalled_tcpReceiveData.trans (stalled_taken hu)⟩⟩
  have hp : ∃ s, tcpProcess idleApp (stalledIn n a trace) (lostSeg n) = .ok (.ok, s) ∧
      ∃ trace', tcpInputEvents idleApp s = .ok (stalled (n + 1) (TCP_WND - 1) b [] trace') ∧
        s.recvReset = false :=
    ⟨_, Run.bind_eq_ok.mpr ⟨_, Run.bind_eq_ok.mpr ⟨_, hr, rfl⟩, rfl⟩, _, rfl, rfl⟩
  obtain ⟨s, hp, trace', he, hres⟩ := hp
  refine ⟨trace', Run.bind_eq_ok.mpr ⟨_, rfl, Run.bind_eq_ok.mpr ⟨_, hp, ?_⟩⟩⟩
  show (if s.recvReset then tcpInputRemove s (some .rst) else tcpInputEvents idleApp s) = _
  rw [hres]
  exact he

theorem stalled_recved (fails : List Bool) (trace : List Out) {b : ℕ} {m : U32}
    (hu : tcpUpdateRcvAnnWnd (stalledPcb n TCP_WND a) = .ok (m, stalledPcb n TCP_WND b)) :
    ∃ fails' trace', connStep idleApp (stalled n (TCP_WND - 1) a fails trace)
      ([true], .api (.recved 1)) = .ok (stalled n TCP_WND b fails' trace') := by
  have hr : ∃ fails', tcpRecved (stalled n (TCP_WND - 1) a [true] trace) 1 =
      .ok (stalled n TCP_WND b fails' (trace ++ [.recved 1 (stalledPcb n (TCP_WND - 1) a)])) := by
    by_cases hm : m.toInt ≥ TCP_WND_UPDATE_THRESHOLD
    · exact ⟨_, Run.bind_eq_ok.mpr ⟨_, rfl, Run.bind_eq_ok.mpr ⟨_, hu, (if_pos hm).trans rfl⟩⟩⟩
    · exact ⟨_, Run.bind_eq_ok.mpr ⟨_, rfl, Run.bind_eq_ok.mpr ⟨_, hu, (if_neg hm).trans rfl⟩⟩⟩
  obtain ⟨fails', hr⟩ := hr
  generalize trace ++ [.recved 1 (stalledPcb n (TCP_WND - 1) a)] = trace' at hr
  refine ⟨fails', trace', ?_⟩
  have hapi : apiCall (stalled n (TCP_WND - 1) a [true] trace) (.recved 1) =
      .ok (.ok, stalled n TCP_WND b fails' trace') :=
    Run.bind_eq_ok.mpr ⟨(), rfl, Run.bind_eq_ok.mpr ⟨_, hr, rfl⟩⟩
  show Prod.snd <$> apiCall (stalled n (TCP_WND - 1) a [true] trace) (.recved 1) = _
  rw [hapi]
  rfl

/-- One more byte is received and read while `rcv_nxt` is less than `2^31` ahead. -/
theorem stalled_lost (a : ℕ) (fails : List Bool) (trace : List Out) (h : -65535 ≤ dist (n + 1) 5361) :
    ∃ a' fails' trace', Run.exec (connStep idleApp) (stalled n TCP_WND a fails trace) (lostOps n) =
      .ok (stalled (n + 1) TCP_WND a' fails' trace') := by
  obtain ⟨m, b, hu⟩ := tcpUpdateRcvAnnWnd_goes (stalledPcb (n + 1) (TCP_WND - 1) a) h
  obtain ⟨m', a', hu'⟩ := tcpUpdateRcvAnnWnd_goes (stalledPcb (n + 1) TCP_WND b) h
  obtain ⟨trace₁, h₁⟩ := stalled_input fails trace hu
  obtain ⟨fails', trace', h₂⟩ := stalled_recved [] trace₁ hu'
  exact ⟨a', fails', trace', Run.bind_eq_ok.mpr ⟨_, h₁, Run.bind_eq_ok.mpr ⟨_, h₂, rfl⟩⟩⟩

theorem stalled_fails {e : Fault}
    (hu : tcpUpdateRcvAnnWnd (stalledPcb (n + 1) (TCP_WND - 1) a) = .error e) :
    connStep idleApp (stalled n TCP_WND a fails trace) ([true], .input (lostSeg n)) = .error e := by
  have hr : tcpReceive (stalledIn n a trace) (lostSeg n) = .error e :=
    Run.bind_eq_error.mpr (.inr ⟨(), rfl, Run.bind_eq_error.mpr (.inr ⟨_, rfl,
      stalled_tcpReceiveData.trans (stalled_overtaken hu)⟩)⟩)
  have hp : tcpProcess idleApp (stalledIn n a trace) (lostSeg n) = .error e :=
    Run.bind_eq_error.mpr (.inl (Run.bind_eq_error.mpr (.inl hr)))
  exact Run.bind_eq_error.mpr (.inr ⟨_, rfl, Run.bind_eq_error.mpr (.inl hp)⟩)

end Stalled

/-- `n` bytes are received and read. -/
theorem stalled_run {n : ℕ} (h₂ : 2 ≤ n) (hn : n ≤ 2147489007) :
    ∃ a fails trace, Run.exec (connStep idleApp) connecting (stallOps n) =
      .ok (stalled (u32 (n + 1)) TCP_WND a fails trace) := by
  induction n, h₂ using Nat.le_induction with
  | base => exact ⟨_, _, _, rfl⟩
  | succ n h₂ ih =>
    obtain ⟨a, fails, trace, h⟩ := ih (by omega)
    have hnext : u32 (n + 1) + 1 = u32 (n + 1 + 1) := (u32_add (n + 1) 1).symm
    have hd : -65535 ≤ dist (u32 (n + 1) + 1) 5361 := by
      have he : u32 (n + 1 + 1) = 5361 + BitVec.ofInt 32 ((n : ℤ) - 5359) := by
        have e := ofInt_add_u32 5361 (-5361) (n + 1 + 1)
        rw [show (-5361 : ℤ) + (n + 1 + 1 : ℕ) = (n : ℤ) - 5359 by push_cast; ring] at e
        rw [← e]
        exact (zero_add _).symm
      rw [hnext, dist_ahead he (by omega) (by omega), if_pos (by omega)]
      omega
    obtain ⟨a', fails', trace', h'⟩ := stalled_lost a fails trace hd
    refine ⟨a', fails', trace', ?_⟩
    have hops : stallOps (n + 1) = stallOps n ++ lostOps (u32 (n + 1)) := by
      unfold stallOps
      rw [List.range_succ, List.flatMap_append]
      simp
    rw [hops]
    show List.foldlM _ _ _ = _
    rw [List.foldlM_append]
    exact Run.bind_eq_ok.mpr ⟨_, h, h'.trans (by rw [hnext])⟩

/-- The next byte but one is half the sequence space ahead. -/
theorem stalled_end {n : ℕ} (hn : n = 2147489007) : ∃ s : St Unit,
    Run.exec (connStep idleApp) connecting (stallOps n) = .ok s ∧
    s.pcb.state = .ESTABLISHED ∧ s.pcb.rcvWnd = TCP_WND ∧
    connStep idleApp s ([true], .input (lostSeg (u32 (n + 1)))) =
      .error (.assert "new_rcv_ann_wnd <= 0xffff") := by
  obtain ⟨a, fails, trace, h⟩ := stalled_run (n := n) (by omega) hn.le
  refine ⟨_, h, rfl, rfl, stalled_fails ?_⟩
  have he : u32 (n + 1) + 1 = 2147489009 := by
    rw [hn]
    decide +kernel
  rw [he]
  generalize hp : stalledPcb 2147489009 (TCP_WND - 1) a = p
  have hnxt : p.rcvNxt = 2147489009 := by
    rw [← hp]
    rfl
  have hwnd : p.rcvWnd = TCP_WND - 1 := by
    rw [← hp]
    rfl
  have hedge : p.rcvAnnRightEdge = 5361 := by
    rw [← hp]
    rfl
  have hmss : p.mss = 536 := by
    rw [← hp]
    rfl
  have h1 : ¬ tcpSeqGeq (p.rcvNxt + u32 p.rcvWnd)
      (p.rcvAnnRightEdge + u32 (min (TCP_WND / 2) p.mss)) := by
    rw [hnxt, hwnd, hedge, hmss]
    decide +kernel
  have h2 : ¬ tcpSeqGt p.rcvNxt p.rcvAnnRightEdge := by
    rw [hnxt, hedge]
    decide +kernel
  have h3 : ¬ (p.rcvAnnRightEdge - p.rcvNxt).toNat ≤ 0xffff := by
    rw [hnxt, hedge]
    decide +kernel
  exact (tcpUpdateRcvAnnWnd_same h1 h2).trans (Run.bind_eq_error.mpr (.inl (if_neg h3)))

/-- After `2^31` bytes for which no ACK could be built the assertion fails. -/
theorem right_edge_sound_fails : ∃ (n : ℕ) (s : St Unit), n = 2147489007 ∧ Begun connecting ∧
    AppOk NoConnect idleApp ∧ Run.exec (connStep idleApp) connecting (stallOps n) = .ok s ∧
    s.pcb.state = .ESTABLISHED ∧ s.pcb.rcvWnd = TCP_WND ∧
    connStep idleApp s ([true], .input (lostSeg (u32 (n + 1)))) =
      .error (.assert "new_rcv_ann_wnd <= 0xffff") := by
  obtain ⟨n, hn⟩ : ∃ n, n = 2147489007 := ⟨_, rfl⟩
  obtain ⟨s, h⟩ := stalled_end hn
  exact ⟨n, s, hn, begun_connecting, appOk_idleApp, h⟩

end Rudp
