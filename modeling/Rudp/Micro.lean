import Rudp.Invariant

/-!
# One thing at a time

Inside one operation of a connection the stack and the callbacks of the application take turns.
`Micro` is one turn: what `Preserved` lists, as a relation. A statement about the calls that an
application makes, in callbacks or outside, is a statement about these turns.

Results:
* `micro_of_reach`: every run is a sequence of turns.
* `Micro.keeps`: what is preserved is preserved by each turn.
* `Micro.active`: a pcb that is off the active list stays off it.
-/

namespace Rudp

variable {W : Type} {s s' s₀ : St W}

open Relation (ReflTransGen)

/-- One turn of the stack or of the application. `P` is the condition on API calls, `Q` that on
    segments. -/
inductive Micro (P : Core → Api → Prop) (Q : Core → InSegment → Prop) : St W → St W → Prop
  | frame {s s' : St W} : s'.core = s.core → (s'.list = .active → s.list = .active) → Micro P Q s s'
  | callback {s : St W} {o : Out} : o.isCallback = true → Micro P Q s (s.emit o)
  | connect {s s' : St W} {newPort : ℕ} {iss : U32} {err : Err} :
    P s.core (.connect newPort iss) → tcpConnectSyn s newPort iss = .ok (err, s') → Micro P Q s s'
  | write {s s' : St W} {arg : List Byte} {copy more : Bool} {err : Err} :
    P s.core (.write arg copy more) → tcpWrite s arg copy more = .ok (err, s') →
      Micro P Q s (if err = .ok then s'.emit (.wrote arg) else s')
  | recved {s : St W} {len : Fin 65536} {w : ℕ} :
    P s.core (.recved len) → rcvWndRecved s.pcb len = .ok w → Micro P Q s { s with pcb.rcvWnd := w }
  | fin {s s' : St W} {a : Api} {st : TcpState} {err : Err} :
    P s.core a → (a = .close ∨ ∃ rx, a = .shutdown rx true) → closeState s.pcb.state = some st →
      tcpSendFin s = .ok (err, s') →
        Micro P Q s (if err = .ok then { s' with pcb.state := st } else s')
  | output {s s' : St W} {err : Err} : tcpOutput s = .ok (err, s') → Micro P Q s s'
  | rexmit {s : St W} : s.pcb.state = .SYN_RCVD → Micro P Q s (tcpRexmit s)
  | rcvWndFin {s : St W} : Micro P Q s { s with pcb := rcvWndFin s.pcb }
  | mss {s : St W} {n : ℕ} : 0 < n → n ≤ TCP_MSS → Micro P Q s { s with pcb.mss := n }
  | establish {s : St W} {seg : InSegment} {rseg : TcpSeg} {rest : List TcpSeg} :
    s.pcb.state = .SYN_SENT → s.pcb.unacked = rseg :: rest → s.pcb.sndQueuelen > 0 →
      seg.ackno = rseg.tcphdr.seqno + 1 → Micro P Q s { s with pcb := establish s.pcb seg rest }
  | accept {s : St W} {seg : InSegment} : s.pcb.state = .SYN_RCVD →
    tcpSeqBetween seg.ackno (s.pcb.lastack + 1) s.pcb.sndNxt →
      Micro P Q s { s with pcb.state := .ESTABLISHED }
  | receive {s s' : St W} {seg : InSegment} : seg.flags.syn = false → Q s.core seg →
    tcpProcessReceive s seg (tcpProcessAfter s.pcb.state seg) = .ok s' → Micro P Q s s'
  | receiveAccept {s s' : St W} {seg : InSegment} : Q s.core seg →
    tcpProcessReceive s seg tcpProcessAcceptAfter = .ok s' → Micro P Q s s'
  | purge {s : St W} : s.list ≠ .active → Micro P Q s { s with pcb := tcpPcbPurge s.pcb }
  | timeWait {s t : St W} : ClosesByReset t s → s.list ≠ .active → s.pcb.state = .ESTABLISHED →
    s.pcb.unsent = [] → s.pcb.unacked = [] → s.pcb.ooseq = [] →
      Micro P Q s { s with pcb.state := .TIME_WAIT }
  | closed {s : St W} : s.list ≠ .active → s.pcb.unsent = [] → s.pcb.unacked = [] →
    s.pcb.ooseq = [] → Micro P Q s { s with pcb.state := .CLOSED }
  | clear {s : St W} : s.list ≠ .active → s.pcb.state = .CLOSED →
    Micro P Q s { s with pcb.unacked := [], pcb.unsent := [], pcb.ooseq := [] }
  | ooseq {s : St W} : Micro P Q s { s with pcb.ooseq := [] }
  | rexmitRto {s s' : St W} : tcpRexmitRto s = .ok s' → Micro P Q s s'
  | probe {s : St W} : Micro P Q s (tcpZeroWindowProbe s).2

variable {P : Core → Api → Prop} {Q : Core → InSegment → Prop}

/-- What is reached by turns is an invariant. -/
theorem preserved_micro (s₀ : St W) : Preserved P Q (ReflTransGen (Micro P Q) s₀) where
  frame hI hc hl := hI.tail (.frame hc hl)
  callback ho hI := hI.tail (.callback ho)
  connect hP hr hI := hI.tail (.connect hP hr)
  write hP hr hI := hI.tail (.write hP hr)
  recved hP hw hI := hI.tail (.recved hP hw)
  fin hP ha hst hr hI := hI.tail (.fin hP ha hst hr)
  output hr hI := hI.tail (.output hr)
  rexmit hst hI := hI.tail (.rexmit hst)
  rcvWndFin hI := hI.tail .rcvWndFin
  mss h0 hl hI := hI.tail (.mss h0 hl)
  establish hst hu hq ha hI := hI.tail (.establish hst hu hq ha)
  accept hst hb hI := hI.tail (.accept hst hb)
  receive hs hQ hr hI := hI.tail (.receive hs hQ hr)
  receiveAccept _ _ _ _ _ hQ hr hI := hI.tail (.receiveAccept hQ hr)
  purge hl hI := hI.tail (.purge hl)
  timeWait hr hl hst hu hk ho hI := hI.tail (.timeWait hr hl hst hu hk ho)
  closed hl hu hk ho hI := hI.tail (.closed hl hu hk ho)
  clear hl hst hI := hI.tail (.clear hl hst)
  ooseq hI := hI.tail .ooseq
  rexmitRto hr hI := hI.tail (.rexmitRto hr)
  probe hI := hI.tail .probe

/-- Every run is a sequence of turns. -/
theorem micro_of_reach {app : App W} (happ : AppOk P app)
    (hr : Run.Reach (connStep app) (Preserved.StepOk P Q app) s₀ s) : ReflTransGen (Micro P Q) s₀ s :=
  (preserved_micro s₀).reach happ .refl hr

/-- What is preserved, also by a segment in `SYN_RCVD` that comes alone, is preserved by each turn. -/
theorem Micro.keeps {I : St W → Prop} (h : Preserved P Q I)
    (haccept : ∀ {s s' : St W} {seg : InSegment}, Q s.core seg →
      tcpProcessReceive s seg tcpProcessAcceptAfter = .ok s' → I s → I s')
    (hm : Micro P Q s s') (hI : I s) : I s' := by
  cases hm with
  | frame hc hl => exact h.frame hI hc hl
  | callback ho => exact h.callback ho hI
  | connect hP hr => exact h.connect hP hr hI
  | write hP hr => exact h.write hP hr hI
  | recved hP hw => exact h.recved hP hw hI
  | fin hP ha hst hr => exact h.fin hP ha hst hr hI
  | output hr => exact h.output hr hI
  | rexmit hst => exact h.rexmit hst hI
  | rcvWndFin => exact h.rcvWndFin hI
  | mss h0 hl => exact h.mss h0 hl hI
  | establish hst hu hq ha => exact h.establish hst hu hq ha hI
  | accept hst hb => exact h.accept hst hb hI
  | receive hs hQ hr => exact h.receive hs hQ hr hI
  | receiveAccept hQ hr => exact haccept hQ hr hI
  | purge hl => exact h.purge hl hI
  | timeWait hr hl hst hu hk ho => exact h.timeWait hr hl hst hu hk ho hI
  | closed hl hu hk ho => exact h.closed hl hu hk ho hI
  | clear hl hst => exact h.clear hl hst hI
  | ooseq => exact h.ooseq hI
  | rexmitRto hr => exact h.rexmitRto hr hI
  | probe => exact h.probe hI

/-! ## The active list -/

theorem list_of_rcvView (h : s'.rcvView = s.rcvView) : s'.list = s.list :=
  congrArg (fun v => v.list) h

theorem active_tcpProcessAfter {state : TcpState} {seg : InSegment}
    (hl : (tcpProcessAfter state seg s).list = .active) : s.list = .active := by
  revert hl
  unfold tcpProcessAfter toTimeWait tcpAckNow
  dsimp only
  split
  · split_ifs <;> exact id
  · split_ifs <;> exact id
  · split_ifs <;> simp
  · split_ifs <;> simp
  · split_ifs <;> simp
  · split_ifs <;> exact id
  · exact id

theorem active_tcpProcessReceive {seg : InSegment} {after : St W → St W}
    (hafter : ∀ t : St W, (after t).list = .active → t.list = .active)
    (h : tcpProcessReceive s seg after = .ok s') (hl : s'.list = .active) : s.list = .active := by
  obtain ⟨s₁, h₁, h⟩ := Run.bind_eq_ok.mp h
  cases h
  have hlist : s₁.list = s.list := congrArg CtlView.list (ctlView_tcpReceive h₁)
  rw [← hlist]
  exact hafter s₁ hl

/-- Nothing but `tcp_connect` puts a pcb on the active list. -/
theorem Micro.active {Q : Core → InSegment → Prop} (h : Micro NoConnect Q s s')
    (hl : s'.list = .active) : s.list = .active := by
  cases h with
  | frame hc hl' => exact hl' hl
  | connect hP hr => exact hP.elim
  | write hP hr =>
    rw [← list_of_rcvView (rcvView_tcpWrite hr)]
    split at hl <;> exact hl
  | fin hP ha hst hr =>
    rw [← list_of_rcvView (rcvView_tcpSendFin hr)]
    split at hl <;> exact hl
  | output hr =>
    rw [← list_of_rcvView (rcvView_tcpOutput hr)]
    exact hl
  | rexmit hst =>
    rw [← list_of_rcvView (rcvView_tcpRexmit s)]
    exact hl
  | receive hs hQ hr => exact active_tcpProcessReceive (fun _ => active_tcpProcessAfter) hr hl
  | receiveAccept hQ hr =>
    refine active_tcpProcessReceive (fun t ht => ?_) hr hl
    unfold tcpProcessAcceptAfter at ht
    dsimp only at ht
    split at ht <;> exact ht
  | rexmitRto hr =>
    rw [← list_of_rcvView (rcvView_tcpRexmitRto hr)]
    exact hl
  | probe =>
    rw [← list_of_rcvView (rcvView_tcpZeroWindowProbe s)]
    exact hl
  | _ => exact hl

end Rudp
