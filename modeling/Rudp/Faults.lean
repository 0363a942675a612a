import Rudp.Window

/-!
# Where a run stops

Every `LWIP_ASSERT` of the stack aborts. `Safe` lists the functions whose assertions depend on the
state of the connection, and `Safe.step` says that if what each of them can fail with meets `F`, so
does what an operation can fail with. The assertions of the code around them are `Fault.Glue`.

Results:
* `Safe.step`: the operations.
-/

namespace Rudp

variable {W : Type} {s s' : St W} {F : Fault → Prop}

open Run (Fails)

theorem Fails.lwipAssert {message : String} {p : Prop} [Decidable p]
    (h : ¬ p → F (.assert message)) : Fails F (Rudp.lwipAssert message p) := by
  intro e he
  obtain ⟨rfl, hp⟩ := lwipAssert_error he
  exact h hp

/-! ## The code around -/

/-- The faults whose cause no statement about a single connection excludes: an access to a pcb that
    the callback has freed or to a queue that is empty, and the assertions on the removal of a pcb,
    on the flags and on the state. -/
def Fault.Glue : Fault → Prop
  | .assert message =>
    message ∈ ["unsent segments leaking", "unacked segments leaking", "ooseq segments leaking",
      "RST not expected here!", "pcb->flags & TF_RXCLOSED", "pcb->refused_data == NULL",
      "tcp_receive: wrong state", "tcp_connect: can only connect from state CLOSED"]
  | _ => True

theorem fails_live (hglue : ∀ e : Fault, e.Glue → F e) (s : St W) : Fails F s.live := by
  unfold St.live
  split
  · exact .error (hglue _ trivial)
  · exact .ok _

-- None of the functions below looks whether the pcb has been freed.
variable (hglue : ∀ e : Fault, e.Glue → e ≠ .useAfterFree → F e)

include hglue

theorem fails_glue {message : String} {p : Prop} [Decidable p] (h : (Fault.assert message).Glue) :
    Fails F (Rudp.lwipAssert message p) :=
  Fails.lwipAssert fun _ => hglue _ h nofun

theorem fails_tcpOutputLoop (q : List TcpSeg) (s : St W) : Fails F (tcpOutputLoop q s) := by
  induction q generalizing s with
  | nil => exact .ok _
  | cons seg q ih =>
    rw [tcpOutputLoop]
    split
    · refine .bind (fails_glue hglue (by simp [Fault.Glue])) fun _ _ => ?_
      split
      · exact .ok _
      · split
        split
        · exact .ok _
        · exact ih _
    · exact .ok _

theorem fails_tcpOutput (s : St W) : Fails F (tcpOutput s) := by
  unfold tcpOutput
  split
  · exact .ok _
  · split
    · exact .ok _
    · refine .bind (fails_tcpOutputLoop hglue _ _) fun a _ => ?_
      dsimp only
      split <;> exact .ok _

theorem fails_tcpPcbRemove (s : St W) : Fails F (tcpPcbRemove s) := by
  unfold tcpPcbRemove tcpPcbRemoveAck
  refine .bind ?_ fun s₁ _ => ?_
  · split
    · exact .map _ (fails_tcpOutput hglue _)
    · exact .ok _
  refine .bind (fails_glue hglue (by simp [Fault.Glue])) fun _ _ => ?_
  refine .bind (fails_glue hglue (by simp [Fault.Glue])) fun _ _ => ?_
  refine .bind (fails_glue hglue (by simp [Fault.Glue])) fun _ _ => ?_
  exact .ok _

theorem fails_tcpPcbRemoveActive (s : St W) : Fails F (tcpPcbRemoveActive s) :=
  .bind (fails_tcpPcbRemove hglue s) fun _ _ => .ok _

theorem fails_tcpAbandon (s : St W) (reset : Bool) : Fails F (tcpAbandon s reset) := by
  unfold tcpAbandon
  split
  · exact .bind (fails_tcpPcbRemove hglue s) fun _ _ => .ok _
  · refine .bind ?_ fun _ _ => .ok _
    split
    · exact .ok _
    · exact fails_tcpPcbRemoveActive hglue s

omit hglue in
theorem tcpEnqueueFlags_ne_error {flags : TcpFlags} (hf : flags.syn = true ∨ flags.fin = true)
    (e : Fault) : tcpEnqueueFlags s flags ≠ .error e := by
  intro h
  rcases Run.bind_eq_error.mp h with h | ⟨_, -, h⟩
  · exact (lwipAssert_error h).2 hf
  · split at h
    · cases h
    dsimp only at h
    split at h
    · cases h
    split at h
    · cases h
    split at h
    · cases h
    · rcases Run.bind_eq_error.mp h with h | ⟨_, -, h⟩
      · exact (lwipAssert_error h).2 (.inr (.inr (by simp)))
      · cases h

omit hglue in
theorem tcpSendFin_ne_error (e : Fault) : tcpSendFin s ≠ .error e := by
  intro h
  unfold tcpSendFin at h
  split at h
  · split at h
    · cases h
    · exact tcpEnqueueFlags_ne_error (.inr rfl) e h
  · exact tcpEnqueueFlags_ne_error (.inr rfl) e h

theorem fails_tcpCloseShutdown (s : St W) (rst : Bool) : Fails F (tcpCloseShutdown s rst) := by
  have hfin (st : TcpState) : Fails F (tcpCloseFin s st) := by
    refine .bind (fun e he => absurd he (tcpSendFin_ne_error e)) fun a _ => ?_
    dsimp only
    split
    · exact .bind (fails_tcpOutput hglue _) fun _ _ => .ok _
    · exact .ok _
  unfold tcpCloseShutdown
  split
  · refine .bind ?_ fun _ _ => .ok _
    refine .bind (fails_glue hglue (by simp [Fault.Glue])) fun _ _ => ?_
    dsimp only
    split
    · exact .ok _
    · split <;> exact .ok _
  · split
    · exact .ok _
    · exact .bind (fails_tcpPcbRemoveActive hglue s) fun _ _ => .ok _
    · exact hfin _
    · exact hfin _
    · exact hfin _
    · exact .ok _

theorem fails_tcpShutdown (s : St W) (shutRx shutTx : Bool) :
    Fails F (tcpShutdown s shutRx shutTx) := by
  unfold tcpShutdown
  split
  · exact fails_tcpCloseShutdown hglue _ _
  · generalize (if shutRx = true then
      ({ s with pcb.tfRxClosed := true, pcb.refusedData := none } : St W) else s) = s₁
    dsimp only
    split
    · split
      · exact fails_tcpCloseShutdown hglue _ _
      · exact .ok _
    · exact .ok _

theorem fails_tcpConnect (s : St W) (newPort : ℕ) (iss : U32) :
    Fails F (tcpConnect s newPort iss) := by
  refine .bind ?_ fun a _ => ?_
  · refine .bind (fails_glue hglue (by simp [Fault.Glue])) fun _ _ => ?_
    dsimp only
    generalize (if s.pcb.localPort = 0 then newPort else s.pcb.localPort) = port
    split
    · exact .ok _
    · refine .bind (fun e he => absurd he (tcpEnqueueFlags_ne_error (.inl rfl) e)) fun _ _ => ?_
      split <;> exact .ok _
  · dsimp only
    split
    · exact .bind (fails_tcpOutput hglue _) fun _ _ => .ok _
    · exact .ok _

theorem fails_tcpInputRemove (s : St W) (err : Option Err) : Fails F (tcpInputRemove s err) := by
  cases err with
  | none => exact .bind (fails_tcpPcbRemove hglue _) fun _ _ => .ok _
  | some e => exact .bind (fails_tcpPcbRemove hglue _) fun _ _ => .ok _

theorem fails_tcpFasttmrAck (s : St W) : Fails F (tcpFasttmrAck s) := by
  unfold tcpFasttmrAck
  split
  · exact .bind (fails_tcpOutput hglue _) fun _ _ => .ok _
  · exact .ok _

theorem fails_tcpSlowtmrSend (s : St W) : Fails F (tcpSlowtmrSend s) := by
  unfold tcpSlowtmrSend
  split
  · exact .ok _
  split
  · unfold tcpSlowtmrPersist
    split
    · exact .error (hglue _ trivial (by simp))
    · generalize (if s.pcb.persistCnt < _ then
        ({ s with pcb.persistCnt := s.pcb.persistCnt + 1 } : St W) else s) = s₁
      dsimp only
      split
      · split <;> exact .ok _
      · exact .ok _
  · unfold tcpSlowtmrRexmit
    generalize (if s.pcb.rtime ≥ 0 then
      ({ s with pcb.rtime := s16 (s.pcb.rtime + 1) } : St W) else s) = s₁
    dsimp only
    split
    · refine .bind ?_ fun rto _ => ?_
      · unfold rtoBackoff
        split
        · split
          · exact .error (hglue _ trivial (by simp))
          · exact .ok _
        · exact .ok _
      · unfold tcpRexmitRto
        split
        · exact .ok _
        · exact .bind (fails_tcpOutput hglue _) fun _ _ => .ok _
    · exact .ok _

/-! ### `tcp_receive` and `tcp_recved` -/

omit hglue

/-- The assertions on the received data. -/
def dataMessages : List String :=
  ["insane offset!", "pbuf too short!", "tcp_receive: segment not trimmed correctly to rcv_wnd\n",
    "tcp_receive: segment not trimmed correctly to ooseq queue\n", "tcp_receive: tcplen > rcv_wnd\n",
    "tcp_receive: ooseq tcplen > rcv_wnd\n"]

/-- The assertion on the window to announce (tcp.c:645). -/
def annWndTooBig : Fault := .assert "new_rcv_ann_wnd <= 0xffff"

theorem fails_tcpUpdateRcvAnnWnd (pcb : Pcb) (h : F annWndTooBig) :
    Fails F (tcpUpdateRcvAnnWnd pcb) := by
  unfold tcpUpdateRcvAnnWnd
  dsimp only
  split
  · exact .ok _
  split
  · exact .ok _
  · exact .bind (Fails.lwipAssert fun _ => h) fun _ _ => .ok _

theorem fails_tcpRecvedUpdate (hglue : ∀ e : Fault, e.Glue → e ≠ .useAfterFree → F e)
    (hr : F (.assert "tcp_recved: len wrapped rcv_wnd\n")) {s : St W} {len : ℕ}
    (hu : ∀ w, rcvWndRecved s.pcb len = .ok w →
      Fails F (tcpUpdateRcvAnnWnd { s.pcb with rcvWnd := w })) : Fails F (tcpRecved s len) := by
  refine .bind ?_ fun w hw => .bind (hu w hw) fun x _ => ?_
  · unfold rcvWndRecved
    dsimp only
    split
    · exact .ok _
    split
    · split
      · exact .ok _
      · exact .error hr
    · exact .ok _
  · dsimp only
    split
    · exact .map _ (fails_tcpOutput hglue _)
    · exact .ok _

theorem fails_tcpRecved (hglue : ∀ e : Fault, e.Glue → e ≠ .useAfterFree → F e)
    (hr : F (.assert "tcp_recved: len wrapped rcv_wnd\n"))
    (hw : F annWndTooBig) (s : St W) (len : ℕ) : Fails F (tcpRecved s len) :=
  fails_tcpRecvedUpdate hglue hr fun _ _ => fails_tcpUpdateRcvAnnWnd _ hw

section Data

variable (hdata : ∀ message ∈ dataMessages, F (.assert message))

include hdata

theorem fails_tcpReceiveTake (hann : F annWndTooBig) {message : String}
    (hm : message ∈ dataMessages) (s : St W) (seg : TcpSeg) (tcplen : ℕ) :
    Fails F (tcpReceiveTake s message seg tcplen) := by
  refine .bind (Fails.lwipAssert fun _ => hdata _ hm) fun _ _ => ?_
  exact .bind (fails_tcpUpdateRcvAnnWnd _ hann) fun _ _ => .ok _

theorem fails_tcpReceiveDequeue (hann : F annWndTooBig) (q : List TcpSeg) (s : St W) :
    Fails F (tcpReceiveDequeue q s) := by
  induction q generalizing s with
  | nil => exact .ok _
  | cons seg q ih =>
    rw [tcpReceiveDequeue]
    split
    · exact .bind (fails_tcpReceiveTake hdata hann (by simp [dataMessages]) _ _ _) fun _ _ => ih _
    · exact .ok _

theorem fails_tcpReceiveTrimWnd (r : U32) (w : ℕ) (inseg : TcpSeg) :
    Fails F (tcpReceiveTrimWnd r w inseg) := by
  unfold tcpReceiveTrimWnd
  split
  · exact .bind (Fails.lwipAssert fun _ => hdata _ (by simp [dataMessages])) fun _ _ => .ok _
  · exact .ok _

theorem fails_mergeOoseq (inseg : TcpSeg) (q : List TcpSeg) : Fails F (mergeOoseq inseg q) := by
  unfold mergeOoseq
  split
  · exact .ok _
  split
  · exact .ok _
  · refine .bind ?_ fun _ _ => .ok _
    unfold mergeTrim
    split
    · refine .bind (Fails.lwipAssert fun _ => hdata _ (by simp [dataMessages])) fun _ _ => .ok _
    · exact .ok _

theorem fails_tcpReceiveInseq (hann : F annWndTooBig) (s : St W) (inseg : TcpSeg) :
    Fails F (tcpReceiveInseq s inseg) := by
  refine .bind (fails_tcpReceiveTrimWnd hdata _ _ _) fun _ _ =>
    .bind (fails_mergeOoseq hdata _ _) fun _ _ => ?_
  refine .bind (fails_tcpReceiveTake hdata hann (by simp [dataMessages]) _ _ _) fun _ _ => ?_
  exact .bind (fails_tcpReceiveDequeue hdata hann _ _) fun _ _ => .ok _

theorem fails_oosAppend {r : U32} {w : ℕ} {inseg next : TcpSeg} {x : Except Fault (List TcpSeg)}
    (h : oosAppend r w inseg next = some x) : Fails F x := by
  unfold oosAppend at h
  dsimp only at h
  split at h
  · cases h
  split at h
  · cases h
    exact .bind (Fails.lwipAssert fun _ => hdata _ (by simp [dataMessages])) fun _ _ => .ok _
  · cases h
    exact .ok _

theorem fails_oosWalk {r : U32} {w : ℕ} {inseg prev : TcpSeg} {q : List TcpSeg}
    {x : Except Fault (List TcpSeg)} (h : oosWalk r w inseg prev q = some x) : Fails F x := by
  induction q generalizing prev x with
  | nil => cases h
  | cons next rest ih =>
    unfold oosWalk at h
    dsimp only at h
    split at h
    · split at h
      · cases h
        exact .ok _
      · cases h
    split at h
    · cases h
      exact .ok _
    split at h
    · obtain ⟨y, hy, rfl⟩ := Option.map_eq_some_iff.mp h
      exact .map _ (fails_oosAppend hdata hy)
    · obtain ⟨y, hy, rfl⟩ := Option.map_eq_some_iff.mp h
      exact .map _ (ih hy)

theorem fails_tcpReceiveOutseq (s : St W) (inseg : TcpSeg) :
    Fails F (tcpReceiveOutseq s inseg) := by
  unfold tcpReceiveOutseq
  dsimp only
  generalize (tcpSendEmptyAck s).2 = s₁
  split
  · exact .ok _
  next q hq =>
  split
  · exact .ok _
  refine .bind ?_ fun _ _ => .ok _
  unfold oosInsert at hq
  dsimp only at hq
  split at hq
  · cases hq
    exact .ok _
  split at hq
  · split at hq
    · cases hq
      exact .ok _
    · cases hq
  split at hq
  · cases hq
    exact .ok _
  split at hq
  · exact fails_oosAppend hdata hq
  · exact fails_oosWalk hdata hq

theorem fails_tcpReceiveData {s : St W} {seg : InSegment}
    (hin : 0 < seg.tcplen → s.pcb.state.num < TcpState.CLOSE_WAIT.num → ∀ c,
      tcpReceiveFirstEdge s.pcb.rcvNxt seg = .ok c →
        inWindow (tcpReceiveDup s seg).pcb c.tcphdr.seqno →
        (tcpReceiveDup s seg).pcb.rcvNxt = c.tcphdr.seqno →
          Fails F (tcpReceiveInseq (tcpReceiveDup s seg) c)) : Fails F (tcpReceiveData s seg) := by
  unfold tcpReceiveData
  split
  · next hc =>
    refine .bind ?_ fun c hfirst => ?_
    · unfold tcpReceiveFirstEdge
      split
      · refine .bind (Fails.lwipAssert fun _ => hdata _ (by simp [dataMessages])) fun _ _ => ?_
        exact .bind (Fails.lwipAssert fun _ => hdata _ (by simp [dataMessages])) fun _ _ => .ok _
      · exact .ok _
    · unfold tcpReceiveSegment
      split
      · next hwin =>
        split
        · next hseq => exact hin hc.1 hc.2 c hfirst hwin hseq
        · exact fails_tcpReceiveOutseq hdata _ _
      · exact .ok _
  · split <;> exact .ok _

theorem fails_tcpReceive (hann : F annWndTooBig)
    (hglue : ∀ e : Fault, e.Glue → e ≠ .useAfterFree → F e) {s : St W} {seg : InSegment}
    (hack : seg.flags.ack = true → Fails F (tcpReceiveAck s seg)) : Fails F (tcpReceive s seg) := by
  refine .bind (fails_glue hglue (by simp [Fault.Glue])) fun _ _ => ?_
  refine .bind ?_ fun _ _ => fails_tcpReceiveData hdata fun _ _ _ _ _ _ =>
    fails_tcpReceiveInseq hdata hann _ _
  split
  · next h => exact hack h
  · exact .ok _

end Data

/-- The assertions on `snd_queuelen` in `tcp_receive`. -/
def freeMessages : List String :=
  ["pcb->snd_queuelen >= pbuf_clen(next->p)", "tcp_receive: valid queue length"]

section Free

variable (hfree : ∀ message ∈ freeMessages, F (.assert message))

include hfree

theorem fails_tcpReceiveFree (s : St W) (next : TcpSeg) : Fails F (tcpReceiveFree s next) := by
  refine .bind (Fails.lwipAssert fun _ => hfree _ (by simp [freeMessages])) fun _ _ => ?_
  exact .bind (Fails.lwipAssert fun _ => hfree _ (by simp [freeMessages])) fun _ _ => .ok _

theorem fails_tcpReceiveUnacked (ackno : U32) (q : List TcpSeg) (s : St W) :
    Fails F (tcpReceiveUnacked ackno q s) := by
  induction q generalizing s with
  | nil => exact .ok _
  | cons next q ih =>
    rw [tcpReceiveUnacked]
    split
    · exact .bind (fails_tcpReceiveFree hfree _ _) fun _ _ => ih _
    · exact .ok _

theorem fails_tcpReceiveUnsent (ackno : U32) (q : List TcpSeg) (s : St W) :
    Fails F (tcpReceiveUnsent ackno q s) := by
  induction q generalizing s with
  | nil => exact .ok _
  | cons next q ih =>
    rw [tcpReceiveUnsent]
    split
    · exact .bind (fails_tcpReceiveFree hfree _ _) fun _ _ => ih _
    · exact .ok _

theorem fails_tcpReceiveAck (s : St W) (seg : InSegment) : Fails F (tcpReceiveAck s seg) := by
  refine .bind ?_ fun _ _ => .bind (fails_tcpReceiveUnsent hfree _ _ _) fun _ _ => .ok _
  unfold tcpReceiveAckno
  split
  · exact .ok _
  split
  · exact .bind (fails_tcpReceiveUnacked hfree _ _ _) fun _ _ => .ok _
  · exact .ok _

end Free

/-! ## The connection -/

/-- What the functions whose assertions depend on the connection fail with meets `F`. `C` is the
    condition on the calls of the application, in the state in which it makes them. -/
structure Safe (F : Fault → Prop) (P : Core → Api → Prop) (Q : St W → InSegment → Prop)
    (C : St W → Api → Prop) (I : St W → Prop) (O : St W → InSegment → Prop := fun _ _ => True) :
    Prop where
  glue (e : Fault) : e.Glue → F e
  write {s : St W} (arg : List Byte) (copy more : Bool) : C s (.write arg copy more) → I s →
    Fails F (tcpWrite s arg copy more)
  recved {s : St W} {len : Fin 65536} : P s.core (.recved len) → C s (.recved len) → I s →
    Fails F (tcpRecved s len)
  synSent {s : St W} : s.pcb.state = .SYN_SENT → s.pcb.unacked ≠ [] → s.pcb.sndQueuelen = 0 → I s →
    F (.assert "pcb->snd_queuelen > 0")
  establish {s : St W} {seg : InSegment} {rseg : TcpSeg} {rest : List TcpSeg} :
    s.pcb.state = .SYN_SENT → s.pcb.unacked = rseg :: rest → s.pcb.sndQueuelen > 0 →
      SynAcks seg rseg → O s seg → I s → I { s with pcb := establish s.pcb seg rest }
  receive {s : St W} {seg : InSegment} : Q s seg → I s → Fails F (tcpReceive s seg)

/-- A callback that stops the process does so for a reason of its own that meets `F`, or in a call
    that meets `C` in the state in which it is made. -/
def AppFaults (F : Fault → Prop) (P : Core → Api → Prop) (C : St W → Api → Prop) (app : App W) :
    Prop :=
  ∀ e s, Fails (fun f => F f ∨
    ∃ t a, Calls P s t ∧ P t.core a ∧ C t a ∧ apiCall t a = .error f) (app e s)

namespace Safe

variable {P : Core → Api → Prop} {Q : St W → InSegment → Prop} {R : St W → Tmr → Prop}
variable {O : St W → InSegment → Prop} {C : St W → Api → Prop} {I : St W → Prop} {app : App W}

theorem inner (h : Safe F P Q C I O) (e : Fault) (he : e.Glue) (_ : e ≠ .useAfterFree) : F e :=
  h.glue e he

theorem apiCall (h : Safe F P Q C I O) {a : Api} (hP : P s.core a) (hC : C s a) (hI : I s) :
    Fails F (Rudp.apiCall s a) := by
  refine .bind (fails_live h.glue s) fun _ _ => ?_
  cases a with
  | connect newPort iss => exact fails_tcpConnect h.inner s newPort iss
  | write arg copy more => exact .bind (h.write arg copy more hC hI) fun _ _ => .ok _
  | output => exact fails_tcpOutput h.inner s
  | recved len => exact .bind (h.recved hP hC hI) fun _ _ => .ok _
  | close => exact fails_tcpCloseShutdown h.inner _ _
  | shutdown shutRx shutTx => exact fails_tcpShutdown h.inner s shutRx shutTx
  | abort => exact .bind (fails_tcpAbandon h.inner s true) fun _ _ => .ok _
  | nagle disable => exact .ok _

theorem tcpEvent (h : Safe F P Q C I O) (hk : Kept P Q R app I O) (hf : AppFaults F P C app)
    {e : Event} (hI : I s) : Fails F (Rudp.tcpEvent app e s) := by
  refine .bind (fun f hfail => ?_) fun _ _ => .ok _
  rcases hf e s f hfail with hF | ⟨t, a, ht, hP, hC, ha⟩
  · exact hF
  · have hIt : I t := ht.invariant (fun _ _ hI => hk.frame hI rfl rfl id id)
      (fun _ _ _ _ hI hP hr => hk.apiCall hP hr hI) hI
    exact h.apiCall hP hC hIt f ha

/-! ### Timers -/

theorem tcpProcessRefusedData (h : Safe F P Q C I O) (hk : Kept P Q R app I O) (happ : AppOk P app)
    (hf : AppFaults F P C app) (hI : I s) : Fails F (Rudp.tcpProcessRefusedData app s) := by
  unfold Rudp.tcpProcessRefusedData
  split
  · exact .error (h.glue _ trivial)
  · next refusedData refusedFin hd =>
    refine .bind (h.tcpEvent hk hf (hk.unpark hI)) fun x hx => ?_
    have hI₁ : I x.2 := hk.tcpEvent happ hx (hk.unpark hI)
    dsimp only
    split
    · split
      · next hfin =>
        refine .bind (fails_live h.glue _) fun _ _ => ?_
        subst hfin
        have hdue : EofDue P I x.2 := .refused happ hd hx hI
        exact .bind (h.tcpEvent hk hf (hk.rcvWndFin hdue hI₁)) fun _ _ => .ok _
      · exact .ok _
    · split
      · exact .ok _
      · exact .bind (fails_live h.glue _) fun _ _ => .ok _

theorem tcpFasttmr (h : Safe F P Q C I O) (hk : Kept P Q R app I O) (happ : AppOk P app)
    (hf : AppFaults F P C app) (hR : R s .fast) (hI : I s) : Fails F (Rudp.tcpFasttmr app s) := by
  refine .bind (fails_tcpFasttmrAck h.inner s) fun s₁ h₁ => ?_
  have hI₁ := hk.toSteps.tcpFasttmrAck hR h₁ hI
  split
  · exact .map _ (h.tcpProcessRefusedData hk happ hf (hk.frame hI₁ rfl rfl id id))
  · exact .ok _

theorem tcpSlowtmr (h : Safe F P Q C I O) (hk : Kept P Q R app I O)
    (hf : AppFaults F P C app) (hR : R s .slow) (hI : I s) : Fails F (Rudp.tcpSlowtmr app s) := by
  refine .bind (fails_tcpSlowtmrSend h.inner s) fun s₁ h₁ => ?_
  have hI₂ := hk.toSteps.tcpSlowtmrKeepalive (hk.toSteps.tcpSlowtmrSend hR h₁ hI)
  generalize tcpSlowtmrKeepalive s₁ = x at hI₂ ⊢
  obtain ⟨pcbReset, s₂⟩ := x
  dsimp only at hI₂ ⊢
  have hI₃ := hk.toSteps.tcpSlowtmrOoseq hI₂
  split
  · exact .ok _
  unfold tcpSlowtmrPoll
  dsimp only
  split
  · refine .bind (h.tcpEvent hk hf (hk.frame hI₃ rfl rfl id id)) fun _ _ => ?_
    split
    · refine .bind (fails_live h.glue _) fun _ _ => ?_
      exact .map _ (fails_tcpOutput h.inner _)
    · exact .ok _
  · exact .ok _

/-! ### Segments -/

theorem tcpProcessReceive (h : Safe F P Q C I O) {seg : InSegment} (after : St W → St W)
    (hQ : Q s seg) (hI : I s) : Fails F (Rudp.tcpProcessReceive s seg after) :=
  .bind (h.receive hQ hI) fun _ _ => .ok _

theorem tcpProcessSynSent (h : Safe F P Q C I O) (hk : Kept P Q R app I O)
    (hf : AppFaults F P C app) {seg : InSegment} (hst : s.pcb.state = .SYN_SENT) (hO : O s seg)
    (hI : I s) : Fails F (Rudp.tcpProcessSynSent app s seg) := by
  unfold Rudp.tcpProcessSynSent
  split
  · exact .error (h.glue _ trivial)
  next rseg rest hu =>
  split
  · next hc =>
    refine .bind (Fails.lwipAssert fun hn => ?_) fun _ ha => ?_
    · exact h.synSent hst (by rw [hu]; exact List.cons_ne_nil _ _) (by omega) hI
    have hI₁ := h.establish hst hu (lwipAssert_ok ha) hc hO hI
    refine .bind (h.tcpEvent hk hf hI₁) fun _ _ => ?_
    dsimp only
    split
    · exact .ok _
    · exact .bind (fails_live h.glue _) fun _ _ => .ok _
  · split <;> exact .ok _

theorem tcpProcessSynRcvd (h : Safe F P Q C I O) (hk : Kept P Q R app I O) (happ : AppOk P app)
    (hf : AppFaults F P C app) {seg : InSegment} (hst : s.pcb.state = .SYN_RCVD)
    (hQ : ∀ t, seg.flags.ack = true → tcpSeqBetween seg.ackno (s.pcb.lastack + 1) s.pcb.sndNxt →
      Rudp.tcpEvent app .accept { s with pcb.state := .ESTABLISHED } = .ok (.ok, t) → Q t seg)
    (hI : I s) : Fails F (Rudp.tcpProcessSynRcvd app s seg) := by
  unfold Rudp.tcpProcessSynRcvd
  split
  · next hack =>
    split
    · next hbet =>
      have hI₁ := hk.accept hst hbet hI
      refine .bind (h.tcpEvent hk hf hI₁) fun x hx => ?_
      obtain ⟨err, s₁⟩ := x
      have hI₂ := hk.tcpEvent happ hx hI₁
      dsimp only
      split
      · split
        · refine .bind (fails_live h.glue _) fun _ _ => ?_
          exact .bind (fails_tcpAbandon h.inner _ _) fun _ _ => .ok _
        · exact .ok _
      · next hok =>
        have hok : err = .ok := by simpa using hok
        rw [hok] at hx
        refine .bind (fails_live h.glue _) fun _ _ => ?_
        exact .bind (h.tcpProcessReceive _ (hQ s₁ hack hbet hx) hI₂) fun _ _ => .ok _
    · exact .ok _
  · split <;> exact .ok _

theorem tcpProcess (h : Safe F P Q C I O) (hk : Kept P Q R app I O) (happ : AppOk P app)
    (hf : AppFaults F P C app) {seg : InSegment}
    (hQ : ∀ s₂ t, s₂ = tcpProcessStart s seg →
      ((TcpState.ESTABLISHED.num ≤ s₂.pcb.state.num ∧ s₂.pcb.state ≠ .TIME_WAIT ∧
          seg.flags.syn = false ∧ t = s₂) ∨
        (s₂.pcb.state = .SYN_RCVD ∧ seg.flags.ack = true ∧
          tcpSeqBetween seg.ackno (s₂.pcb.lastack + 1) s₂.pcb.sndNxt ∧
          Rudp.tcpEvent app .accept { s₂ with pcb.state := .ESTABLISHED } = .ok (.ok, t))) →
      seg.flags.rst = false → Q t seg)
    (hO : seg.flags.rst = false →
      (seg.flags.syn = true → s.pcb.state = .SYN_SENT ∨ s.pcb.state = .SYN_RCVD) →
      O (tcpProcessStart s seg) seg)
    (hI : I s) : Fails F (Rudp.tcpProcess app s seg) := by
  unfold Rudp.tcpProcess
  split
  · exact .ok _
  next hrst =>
  have hrst : seg.flags.rst = false := by simpa using hrst
  split
  · exact .ok _
  next hsyn =>
  have hO := hO hrst fun hs => by
    by_contra hc
    exact hsyn ⟨hs, not_or.mp hc⟩
  have hI₁ := hk.toSteps.tcpProcessStart seg hO hI
  have hst : (tcpProcessStart s seg).pcb.state = s.pcb.state := by
    unfold tcpProcessStart
    dsimp only
    split <;> rfl
  have hQ' := fun t => hQ _ t rfl
  generalize tcpProcessStart s seg = s₁ at hI₁ hst hQ' hO ⊢
  unfold tcpProcessState
  split
  · next hs => exact h.tcpProcessSynSent hk hf hs hO hI₁
  · next hs =>
    exact h.tcpProcessSynRcvd hk happ hf hs
      (fun t hack hbet ht => hQ' t (.inr ⟨hs, hack, hbet, ht⟩) hrst) hI₁
  all_goals first
  | next hs =>
    rw [← hst, hs] at hsyn
    have hsyn' : seg.flags.syn = false := by simpa using hsyn
    have hnum : TcpState.ESTABLISHED.num ≤ s₁.pcb.state.num := by simp [hs, TcpState.num]
    exact .bind (h.tcpProcessReceive _
      (hQ' s₁ (.inl ⟨hnum, by simp [hs], hsyn', rfl⟩) hrst) hI₁) fun _ _ => .ok _
  | exact .ok _

theorem tcpInputEvents (h : Safe F P Q C I O) (hk : Kept P Q R app I O) (happ : AppOk P app)
    (hf : AppFaults F P C app) (hgot : NeverConnects P → s.Ends fun g _ => g = true) (hI : I s) :
    Fails F (Rudp.tcpInputEvents app s) := by
  refine .bind ?_ fun x h₁ => ?_
  · unfold tcpInputSent
    split
    · exact h.tcpEvent hk hf hI
    · exact .ok _
  obtain ⟨err, s₁⟩ := x
  have hI₁ := hk.toSteps.tcpInputSent happ h₁ hI
  dsimp only
  split
  · exact .ok _
  refine .bind (fails_live h.glue _) fun _ _ => ?_
  split
  · exact fails_tcpInputRemove h.inner _ _
  refine .bind ?_ fun x hx => ?_
  · unfold tcpInputRecv
    split
    · exact .ok _
    refine .bind (fails_glue h.inner (by simp [Fault.Glue])) fun _ _ => ?_
    split
    · exact .bind (fails_tcpAbandon h.inner _ _) fun _ _ => .ok _
    refine .bind (h.tcpEvent hk hf hI₁) fun _ _ => ?_
    dsimp only
    split
    · exact .ok _
    · refine .bind (fails_live h.glue _) fun _ _ => ?_
      split <;> exact .ok _
  obtain ⟨gone, s₂⟩ := x
  have hI₂ := hk.toSteps.tcpInputRecv happ hx hI₁
  dsimp only
  split
  · exact .ok _
  refine .bind ?_ fun x hx => ?_
  · unfold tcpInputFin
    split
    · next hfin =>
      split
      · exact .ok _
      · have hdue : EofDue P I s₂ := fun hno _ =>
          (hgot hno).events noting_gotFin hno happ h₁ hx hfin
        exact .bind (h.tcpEvent hk hf (hk.rcvWndFin hdue hI₂)) fun _ _ => .ok _
    · exact .ok _
  split
  · exact .ok _
  refine .bind (fails_live h.glue _) fun _ _ => ?_
  exact .bind (fails_tcpOutput h.inner _) fun _ _ => .ok _

theorem tcpInput (h : Safe F P Q C I O) (hk : Kept P Q R app I O) (happ : AppOk P app)
    (hf : AppFaults F P C app) {seg : InSegment} (hQ : ∀ t, Receives app s seg t → Q t seg)
    (hO : ∀ t, Processes app s seg t → O t seg) (hI : I s) : Fails F (Rudp.tcpInput app s seg) := by
  have hI₀ : I s.resetRecv := hk.frame hI rfl rfl id nofun
  refine .bind ?_ fun x hx => ?_
  · unfold tcpInputRefused
    split
    · refine .bind (h.tcpProcessRefusedData hk happ hf hI₀) fun _ _ => ?_
      dsimp only
      split
      · exact .ok _
      · exact .bind (fails_live h.glue _) fun _ _ => .ok _
    · exact .ok _
  obtain ⟨dropped, s₁⟩ := x
  have hI₁ := hk.toSteps.tcpInputRefused happ hx hI₀
  dsimp only
  split
  · exact .ok _
  next hd =>
  have hd : dropped = false := by simpa using hd
  rw [hd] at hx
  have hi : I { s₁ with inputPcb := true } := hk.frame hI₁ rfl rfl id id
  refine .bind (h.tcpProcess hk happ hf (fun s₂ t hs ht hrst => hQ t ⟨s₁, hx, hrst, s₂, hs, ht⟩)
    (fun hrst hsyn => hO _ ⟨s₁, hx, hrst, hsyn, rfl⟩) hi) fun y hy => ?_
  obtain ⟨err, s₂⟩ := y
  dsimp only
  split
  · exact .ok _
  split
  · exact fails_tcpInputRemove h.inner _ _
  next hr =>
  refine h.tcpInputEvents hk happ hf
    (fun hno => St.Ends.processed noting_gotFin hno happ hx hy nofun) ?_
  by_cases hrst : seg.flags.rst = true
  · unfold Rudp.tcpProcess at hy
    rw [hrst, if_pos rfl] at hy
    generalize ({ s₁ with inputPcb := true } : St W) = s₁' at hy hi
    rcases tcpProcessRst_cases s₁' seg with e | e
    · rw [e] at hy
      cases hy
      exact absurd rfl hr
    · rw [e] at hy
      cases hy
      exact hi
  · have hrst' : seg.flags.rst = false := by simpa using hrst
    exact hk.toSteps.tcpProcess happ (fun s₂ t hs ht hrst => hQ t ⟨s₁, hx, hrst, s₂, hs, ht⟩)
      (fun hsyn => hO _ ⟨s₁, hx, hrst', hsyn, rfl⟩) hrst' hy hi

/-! ### Operations -/

/-- What an operation fails with meets `F`. -/
theorem step (h : Safe F P Q C I O) (hk : Kept P Q R app I O) (happ : AppOk P app)
    (hf : AppFaults F P C app) {op : List Bool × Op} (hop : Kept.StepOk P Q R app s op)
    (hO : Kept.OptionsOk O app s op) (hC : ∀ a, op.2 = .api a → C { s with fails := op.1 } a)
    (hI : I s) : Fails F (connStep app s op) := by
  obtain ⟨fails, op⟩ := op
  have hI₀ : I { s with fails := fails } := hk.frame hI rfl rfl id id
  unfold connStep connOp
  cases op with
  | api a => exact .map _ (h.apiCall (by exact hop) (hC a rfl) hI₀)
  | input seg =>
    dsimp only
    split
    · exact h.tcpInput hk happ hf hop (hO seg rfl) hI₀
    · unfold tcpTimewaitInput
      split
      · exact .ok _
      split
      · exact .ok _
      generalize (if seg.flags.syn = false ∧ seg.flags.fin = true then _ else _) = s₁
      dsimp only
      split
      · exact .map _ (fails_tcpOutput h.inner _)
      · exact .ok _
    · exact .ok _
  | fasttmr =>
    dsimp only
    split
    · next hl => exact h.tcpFasttmr hk happ hf (hop hl) hI₀
    · exact .ok _
  | slowtmr =>
    have hI₁ : I { s with fails := fails, ticks := s.ticks + 1 } := hk.frame hI rfl rfl id id
    dsimp only
    split
    · next hl => exact h.tcpSlowtmr hk hf (hop hl) hI₁
    · exact .ok _
    · exact .ok _
  | kill reset =>
    dsimp only
    split
    · exact fails_tcpAbandon h.inner _ _
    · exact .ok _

end Safe

end Rudp
