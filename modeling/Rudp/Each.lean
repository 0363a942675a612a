import Rudp.Datagram
import Rudp.Timers
import Rudp.Transfer

/-!
# Each pcb of a host

What holds of a single connection, and is kept by whatever is done to it, holds of each pcb of a host,
whatever the others do. `Each` is the rule. With it the results about one connection are results
about a host.

Results:
* `Host.Each.reach`: the rule.
* `Host.lives`: each pcb of a host has been reached by turns of a single connection.
* `Host.packets_own`: the packets of each connection of a host are whole and carry its id.
-/

namespace Rudp

variable {W : Type} {app : App W} {pool : List ℕ} {h h' : Host W} {pcb : ℕ}

namespace Host

/-! ## The rule -/

/-- What has to be kept. `A` is the condition on API calls, `S` that on segments. -/
structure Each (app : App W) (A : St W → Api → Prop) (S : St W → InSegment → Prop)
    (I : St W → Prop) : Prop where
  alloc (prio : ℕ) (iss ticks : U32) (callbackArg : W) :
    I { pcb := tcpAllocPcb prio iss ticks, list := .none, world := callbackArg }
  frame {s s' : St W} : I s → s'.core = s.core → (s'.list = .active → s.list = .active) →
    (s'.freed = false → s.freed = false) → s'.recvClosed = s.recvClosed → s'.inputPcb = s.inputPcb →
    I s'
  api {s s' : St W} {a : Api} {err : Err} : A s a → apiCall s a = .ok (err, s') → I s → I s'
  abandon {s s' : St W} {reset : Bool} : tcpAbandon s reset = .ok s' → I s → I s'
  listen {s s' : St W} {seg : InSegment} {localPort : ℕ} {serverId : U32} {err : Err} :
    Allocated s → s.recvClosed = false → s.inputPcb = false →
      tcpListenSynAck (tcpListenPcb s seg localPort serverId) = .ok (err, s') → I s'
  input {s s' : St W} {seg : InSegment} : S s seg → Rudp.tcpInput app s seg = .ok s' → I s → I s'
  timewait {s s' : St W} {seg : InSegment} : tcpTimewaitInput s seg = .ok s' → I s → I s'
  fasttmr {s s' : St W} : Rudp.tcpFasttmr app s = .ok s' → I s → I s'
  slowtmr {s s' : St W} : Rudp.tcpSlowtmr app s = .ok s' → I s → I s'
  slowtmrTw {s : St W} : I s → I (tcpSlowtmrTw s)

/-- The condition on an operation of the host. -/
def EachOk (A : St W → Api → Prop) (S : St W → InSegment → Prop) (h : Host W)
    (op : (ℕ → List Bool) × HostOp W) : Prop :=
  match op.2 with
  | .api pcb a => A (h.load (op.1 pcb) pcb) a
  | .input seg _ _ _ => ∀ pcb, h.findActive seg.tcphdr h.activePcbs = .ok (some pcb) →
      S (h.load (op.1 pcb) pcb) seg
  | _ => True

theorem EachOk.mono {A A' : St W → Api → Prop} {S S' : St W → InSegment → Prop}
    (hA : ∀ s a, A s a → A' s a) (hS : ∀ s seg, S s seg → S' s seg)
    {op : (ℕ → List Bool) × HostOp W} (hop : EachOk A S h op) : EachOk A' S' h op := by
  obtain ⟨fails, op⟩ := op
  cases op with
  | api pcb a => exact hA _ _ hop
  | input seg iss serverId rstFails => exact fun pcb hp => hS _ _ (hop pcb hp)
  | _ => trivial

theorem eachOk_trivial (h : Host W) (op : (ℕ → List Bool) × HostOp W) :
    EachOk (fun _ _ => True) (fun _ _ => True) h op := by
  obtain ⟨fails, op⟩ := op
  cases op with
  | input seg iss serverId rstFails => exact fun _ _ => trivial
  | _ => trivial

/-- It holds of each pcb. -/
def All (I : St W → Prop) (h : Host W) : Prop := ∀ a, I (h.mem a).st

variable {A : St W → Api → Prop} {S : St W → InSegment → Prop} {I : St W → Prop}

theorem All.put {s : St W} (hA : All I h) (hs : I s) : All I (h.put pcb s) := by
  intro a
  rw [mem_put]
  by_cases he : a = pcb
  · subst he
    rw [Function.update_self]
    exact hs
  · rw [Function.update_of_ne he]
    exact hA a

namespace Each

variable (hE : Each app A S I)

include hE

theorem load (hA : All I h) (fails : List Bool) (pcb : ℕ) : I (h.load fails pcb) :=
  hE.frame (hA pcb) rfl id id rfl rfl

theorem abandonIf {fails : ℕ → List Bool} {inactive : Option Slot} {reset : Bool} (hA : All I h)
    (hr : h.abandonIf fails inactive reset = .ok h') : All I h' := by
  unfold Host.abandonIf at hr
  split at hr
  · cases hr
    exact hA
  · obtain ⟨s, h₁, hr⟩ := Run.bind_eq_ok.mp hr
    cases hr
    exact hA.put (hE.abandon h₁ (hE.load hA _ _))

omit hE in
/-- One of the attempts of `tcp_alloc`. -/
theorem attempt {x : Except Fault (Host W)} (hA : All I h) (hx : x = .ok h' → All I h')
    (hr : (if h.free = [] then x else .ok h) = .ok h') : All I h' := by
  split at hr
  · exact hx hr
  · cases hr
    exact hA

theorem kill {fails : ℕ → List Bool} {pcbs : List ℕ} {inactive : Option Slot} {reset : Bool}
    (hA : All I h) (hr : (do h.reads pcbs; h.abandonIf fails inactive reset) = .ok h') :
    All I h' := by
  obtain ⟨_, -, hr⟩ := Run.bind_eq_ok.mp hr
  exact hE.abandonIf hA hr

theorem killState {fails : ℕ → List Bool} {state : TcpState} (hA : All I h)
    (hr : h.tcpKillState fails state = .ok h') : All I h' := by
  obtain ⟨_, -, hr⟩ := Run.bind_eq_ok.mp hr
  exact hE.kill hA hr

/-- The pcb that `tcp_alloc` returns is a new one, and the others are as the kills have left them. -/
theorem tcpAlloc {fails : ℕ → List Bool} {prio : ℕ} {iss : U32} {callbackArg : W} {r : Option ℕ}
    (hA : All I h) (hr : h.tcpAlloc fails prio iss callbackArg = .ok (r, h')) :
    All I h' ∧ ∀ a, r = some a → (h'.mem a).st =
      { pcb := tcpAllocPcb prio iss h'.ticks, list := .none, world := callbackArg } := by
  obtain ⟨h₁, e₁, hr⟩ := Run.bind_eq_ok.mp hr
  have hA₁ := attempt hA (hE.kill hA) e₁
  obtain ⟨h₂, e₂, hr⟩ := Run.bind_eq_ok.mp hr
  have hA₂ := attempt hA₁ (hE.killState hA₁) e₂
  obtain ⟨h₃, e₃, hr⟩ := Run.bind_eq_ok.mp hr
  have hA₃ := attempt hA₂ (hE.killState hA₂) e₃
  obtain ⟨h₄, e₄, hr⟩ := Run.bind_eq_ok.mp hr
  have hA₄ := attempt hA₃ (hE.kill hA₃) e₄
  have hm := Except.ok.inj hr
  unfold Host.malloc at hm
  split at hm
  · cases hm
    exact ⟨hA₄, nofun⟩
  · next pcb free _ =>
    cases hm
    refine ⟨fun a => ?_, fun a ha => ?_⟩
    · show I (Function.update h₄.mem pcb _ a).st
      by_cases he : a = pcb
      · subst he
        rw [Function.update_self]
        exact hE.alloc _ _ _ _
      · rw [Function.update_of_ne he]
        exact hA₄ a
    · cases ha
      show (Function.update h₄.mem pcb _ pcb).st = _
      rw [Function.update_self]

theorem listenInput {fails : ℕ → List Bool} {rstFails : List Bool} {lpcb : ListenPcb W}
    {seg : InSegment} {iss serverId : U32} (hA : All I h)
    (hr : h.tcpListenInput fails rstFails lpcb seg iss serverId = .ok h') : All I h' := by
  unfold Host.tcpListenInput at hr
  split at hr
  · cases hr
    exact hA
  split at hr
  · cases hr
    exact hA
  split at hr
  · obtain ⟨⟨npcb, h₁⟩, e₁, hr⟩ := Run.bind_eq_ok.mp hr
    obtain ⟨hA₁, hnew⟩ := hE.tcpAlloc hA e₁
    cases npcb with
    | none =>
      cases hr
      exact hA₁
    | some npcb =>
      obtain ⟨⟨err, s⟩, e₂, hr⟩ := Run.bind_eq_ok.mp hr
      cases hr
      have hst := hnew npcb rfl
      have hload : h₁.load rstFails npcb = {
          pcb := tcpAllocPcb lpcb.prio iss h₁.ticks, list := .none, fails := rstFails
          ticks := h₁.ticks, world := lpcb.callbackArg } := by
        unfold Host.load
        rw [hst]
      rw [hload] at e₂
      exact hA₁.put (hE.listen ⟨⟨_, _, _, 0, rfl⟩, rfl⟩ rfl rfl e₂)
  · cases hr
    exact hA

theorem tcpInput {fails : ℕ → List Bool} {rstFails : List Bool} {seg : InSegment}
    {iss serverId : U32} (hA : All I h)
    (hseg : ∀ pcb, h.findActive seg.tcphdr h.activePcbs = .ok (some pcb) →
      S (h.load (fails pcb) pcb) seg)
    (hr : h.tcpInput app fails rstFails seg iss serverId = .ok h') : All I h' := by
  obtain ⟨found, e₁, hr⟩ := Run.bind_eq_ok.mp hr
  cases found with
  | some pcb =>
    obtain ⟨s, e₂, hr⟩ := Run.bind_eq_ok.mp hr
    have hs : I s := hE.input (hseg pcb e₁) e₂ (hE.load hA _ _)
    have hA' : All I ((h.toFront pcb).put pcb s) := All.put (h := h.toFront pcb) hA hs
    obtain ⟨_, -, hr⟩ := Run.bind_eq_ok.mp hr
    obtain ⟨_, -, hr⟩ := Run.bind_eq_ok.mp hr
    cases hr
    exact hA'
  | none =>
    obtain ⟨found, e₂, hr⟩ := Run.bind_eq_ok.mp hr
    cases found with
    | some pcb =>
      obtain ⟨s, e₃, hr⟩ := Run.bind_eq_ok.mp hr
      cases hr
      exact hA.put (hE.timewait e₃ (hE.load hA _ _))
    | none =>
      dsimp only at hr
      split at hr
      · exact hE.listenInput hA hr
      · split at hr
        · obtain ⟨_, -, hr⟩ := Run.bind_eq_ok.mp hr
          cases hr
          exact hA
        · cases hr

omit hE in
/-- A walk, each of whose turns keeps it. -/
theorem walk {visit : ℕ → Elem W → Except Fault (Walk.Turn × Elem W)} (hI : Inv pool h)
    (hv : Turns h visit) (hA : All I h)
    (hkeep : ∀ a turn e', visit a (h.mem a) = .ok (turn, e') → I e'.st)
    (hr : h.walk visit = .ok h') : All I h' := by
  obtain ⟨-, hin, hout, -⟩ := hI.toSane.walk hI.marked hv hr
  intro a
  by_cases ha : a ∈ h.activePcbs
  · obtain ⟨turn, hva⟩ := hin a ha
    exact hkeep a turn _ hva
  · rw [hout a ha]
    exact hA a

theorem walkTw {l : List ℕ} (hA : All I h) (hr : h.slowtmrTw l = .ok h') : All I h' := by
  induction l generalizing h with
  | nil =>
    cases hr
    exact hA
  | cons a l ih =>
    obtain ⟨_, -, hr⟩ := Run.bind_eq_ok.mp hr
    obtain ⟨_, -, hr⟩ := Run.bind_eq_ok.mp hr
    exact ih (hA.put (hE.slowtmrTw (hE.load hA [] a))) hr

theorem step {op : (ℕ → List Bool) × HostOp W} (happ : ∃ P, AppOk P app) (hI : Inv pool h)
    (hA : All I h) (hop : EachOk A S h op) (hr : hostStep app h op = .ok h') : All I h' := by
  obtain ⟨fails, op⟩ := op
  unfold hostStep at hr
  cases op with
  | new iss callbackArg =>
    obtain ⟨⟨r, h₁⟩, e₁, rfl⟩ := Run.map_eq_ok.mp hr
    exact (hE.tcpAlloc hA e₁).1
  | setprio pcb prio =>
    obtain ⟨_, -, hr⟩ := Run.bind_eq_ok.mp hr
    cases hr
    exact hA.put (hE.frame (hA pcb) rfl id id rfl rfl)
  | bind pcb port =>
    obtain ⟨_, -, hr⟩ := Run.bind_eq_ok.mp hr
    obtain ⟨_, -, hr⟩ := Run.bind_eq_ok.mp hr
    split at hr
    · cases hr
      exact hA
    split at hr
    · cases hr
    · cases hr
      exact hA.put (hE.frame (hA pcb) rfl nofun id rfl rfl)
  | listen pcb =>
    obtain ⟨_, -, hr⟩ := Run.bind_eq_ok.mp hr
    obtain ⟨_, -, hr⟩ := Run.bind_eq_ok.mp hr
    split at hr
    · cases hr
      exact hA
    · cases hr
      exact hA.put (s := { (h.mem pcb).st with list := .none, freed := true })
        (hE.frame (hA pcb) rfl nofun nofun rfl rfl)
  | api pcb call =>
    obtain ⟨⟨err, s⟩, h₁, hr⟩ := Run.bind_eq_ok.mp hr
    cases hr
    exact hA.put (hE.api hop h₁ (hE.load hA _ _))
  | input seg iss serverId rstFails => exact hE.tcpInput hA hop hr
  | fasttmr =>
    obtain ⟨P, happ⟩ := happ
    obtain ⟨h₁, e₁, hr⟩ := Run.bind_eq_ok.mp hr
    cases hr
    have hA₁ : All I h₁ := by
      refine walk hI (turns_fastVisit happ fails) hA (fun a turn e' hva => ?_) e₁
      obtain ⟨_, -, hva⟩ := Run.bind_eq_ok.mp hva
      obtain ⟨s, hs, hva⟩ := Run.bind_eq_ok.mp hva
      cases hva
      exact hE.fasttmr hs (hE.frame (hA a) rfl id id rfl rfl)
    exact hA₁
  | slowtmr =>
    obtain ⟨P, happ⟩ := happ
    obtain ⟨h₁, e₁, hr⟩ := Run.bind_eq_ok.mp hr
    have hA₁ : All I h₁ := by
      refine walk hI (turns_slowVisit happ fails) hA (fun a turn e' hva => ?_) e₁
      obtain ⟨_, -, hva⟩ := Run.bind_eq_ok.mp hva
      obtain ⟨_, -, hva⟩ := Run.bind_eq_ok.mp hva
      obtain ⟨_, -, hva⟩ := Run.bind_eq_ok.mp hva
      obtain ⟨_, -, hva⟩ := Run.bind_eq_ok.mp hva
      obtain ⟨s, hs, hva⟩ := Run.bind_eq_ok.mp hva
      cases hva
      exact hE.slowtmr hs (hE.frame (hA a) rfl id id rfl rfl)
    exact hE.walkTw (h := { h₁ with timerCtr := h.nextCtr, ticks := h.ticks + 1 }) hA₁ hr

/-- Every run. -/
theorem reach {P : Core → Api → Prop} (happ : AppOk P app) (hpool : pool.Nodup) {callbackArg : W}
    (hr : Run.Reach (hostStep app) (fun h op => HostOk h op ∧ EachOk A S h op)
      (Host.boot pool callbackArg) h) : All I h := by
  have hboot : All I (Host.boot pool callbackArg) := fun _ =>
    hE.frame (hE.alloc 0 0 0 callbackArg) rfl nofun nofun rfl rfl
  have hall : Inv pool h ∧ All I h :=
    hr.invariant (I := fun h => Inv pool h ∧ All I h) ⟨Inv.boot hpool callbackArg, hboot⟩
      fun _ _ _ hIA hop he => ⟨hIA.1.step happ hop.1 he, hE.step ⟨P, happ⟩ hIA.1 hIA.2 hop.2 he⟩
  exact hall.2

end Each

/-! ## The life of a pcb -/

open Relation (ReflTransGen)

variable {P : Core → Api → Prop} {Q : Core → InSegment → Prop}

/-- What every turn of a connection keeps, and holds where one begins. -/
theorem Each.of_preserved (hp : Preserved P Q I) (happ : AppOk P app) (hfresh : ∀ s, Fresh s → I s) :
    Each app (fun s a => P s.core a) (fun s seg => ∀ t, Receives app s seg t → Q t.core seg) I := by
  have hk : Kept P (fun s => Q s.core) (fun _ _ => True) app I := hp.toKept
  refine
    { alloc := fun prio iss ticks callbackArg =>
        hfresh _ (.alloc ⟨⟨prio, iss, ticks, 0, rfl⟩, rfl⟩)
      frame := fun hI hc hl _ _ _ => hp.frame hI hc hl
      api := fun hP hr hI => hk.apiCall hP hr hI
      abandon := fun hr hI => hk.tcpAbandon hr hI
      listen := fun ha _ _ hr => hfresh _ (.listen _ _ _ ha hr)
      input := fun hQ hr hI => hk.toSteps.tcpInput happ hQ (fun _ _ => trivial) hr hI
      timewait := fun hr hI => hk.toSteps.tcpTimewaitInput hr hI
      fasttmr := fun hr hI => hk.toSteps.tcpFasttmr happ trivial hr hI
      slowtmr := fun hr hI => hk.toSteps.tcpSlowtmr happ trivial hr hI
      slowtmrTw := fun {s} hI => ?_ }
  unfold tcpSlowtmrTw
  split
  · have hI' : I { s with list := .none } := hp.frame hI rfl nofun
    exact hp.frame (hp.purge (s := { s with list := .none }) nofun hI') rfl id
  · exact hI

/-- The pcb has been reached by turns of one connection, from where one begins. -/
def Life (P : Core → Api → Prop) (Q : Core → InSegment → Prop) (s : St W) : Prop :=
  ∃ s₀, Fresh s₀ ∧ ReflTransGen (Micro P Q) s₀ s

theorem preserved_life : Preserved P Q fun s : St W => Life P Q s := by
  have hturn {s s' : St W} (hL : Life P Q s) (hm : Micro P Q s s') : Life P Q s' := by
    obtain ⟨s₀, h₀, hr⟩ := hL
    exact ⟨s₀, h₀, hr.tail hm⟩
  exact
    { frame := fun hI hc hl => hturn hI (.frame hc hl)
      callback := fun ho hI => hturn hI (.callback ho)
      connect := fun hP hr hI => hturn hI (.connect hP hr)
      write := fun hP hr hI => hturn hI (.write hP hr)
      recved := fun hP hw hI => hturn hI (.recved hP hw)
      fin := fun hP ha hst hr hI => hturn hI (.fin hP ha hst hr)
      output := fun hr hI => hturn hI (.output hr)
      rexmit := fun hst hI => hturn hI (.rexmit hst)
      rcvWndFin := fun hI => hturn hI .rcvWndFin
      mss := fun h0 hl hI => hturn hI (.mss h0 hl)
      establish := fun hst hu hq ha hI => hturn hI (.establish hst hu hq ha)
      accept := fun hst hb hI => hturn hI (.accept hst hb)
      receive := fun hs hQ hr hI => hturn hI (.receive hs hQ hr)
      receiveAccept := fun _ _ _ _ _ hQ hr hI => hturn hI (.receiveAccept hQ hr)
      purge := fun hl hI => hturn hI (.purge hl)
      timeWait := fun hr hl hst hu hk ho hI => hturn hI (.timeWait hr hl hst hu hk ho)
      closed := fun hl hu hk ho hI => hturn hI (.closed hl hu hk ho)
      clear := fun hl hst hI => hturn hI (.clear hl hst)
      ooseq := fun hI => hturn hI .ooseq
      rexmitRto := fun hr hI => hturn hI (.rexmitRto hr)
      probe := fun hI => hturn hI .probe }

/-- In every run of a host, each pcb has had the life of a single connection: whatever happens to the
    others, and however often it has been freed and allocated again, it has been reached from where a
    connection begins by turns of the stack and of its application on this connection alone. -/
theorem lives (happ : AppOk P app) (hpool : pool.Nodup) {callbackArg : W}
    (hr : Run.Reach (hostStep app) (fun h op => HostOk h op ∧
      EachOk (fun s a => P s.core a) (fun s seg => ∀ t, Receives app s seg t → Q t.core seg) h op)
      (Host.boot pool callbackArg) h) (a : ℕ) :
    ∃ s₀, Fresh s₀ ∧ ReflTransGen (Micro P Q) s₀ (h.mem a).st :=
  (Each.of_preserved preserved_life happ fun s hs => ⟨s, hs, .refl⟩).reach happ hpool hr a

/-- A run that passes such a check meets the conditions. -/
theorem okCheck_each {call : Core → Api → Bool} {A : Core → Api → Prop}
    (hA : ∀ c a, call c a = true → A c a) {op : (ℕ → List Bool) × HostOp W}
    (hok : okCheck call h op = true) :
    HostOk h op ∧ EachOk (fun s a => A s.core a) (fun _ _ => True) h op := by
  obtain ⟨hop, hcall⟩ := hostOk_of_check hok
  refine ⟨hop, ?_⟩
  obtain ⟨fails, op⟩ := op
  cases op with
  | api pcb a => exact hA _ _ (hcall pcb a rfl)
  | input seg iss serverId rstFails => exact fun _ _ => trivial
  | _ => trivial

theorem lives_crowded : ∃ s₀ : St Bool, Fresh s₀ ∧
    ReflTransGen (Micro (fun _ _ => True) fun _ _ => True) s₀ (crowded.mem 0).st := by
  have hpool : [0, 1, 2].Nodup := by decide
  exact lives (P := fun _ _ => True) (Q := fun _ _ => True) (appOk_pollApp fun _ => trivial) hpool
    ((reach_crowded fun _ _ => okCheck_each (A := fun _ _ => True) fun _ _ _ => trivial).mono
      fun _ _ hop => ⟨hop.1, hop.2.mono (fun _ _ h => h) fun _ _ _ _ _ => trivial⟩) 0

/-- In every run of a host whose application writes as `rudp_send` does, and no data in `SYN_SENT`,
    each connection hands `ip_output_if` whole datagrams that carry its own id: with any number of
    connections open, none speaks for another. -/
theorem packets_own (happ : AppOk (fun c a => IdCall c a ∧ DataCall c a) app) (hpool : pool.Nodup)
    {callbackArg : W}
    (hr : Run.Reach (hostStep app) (fun h op => HostOk h op ∧
      EachOk (fun s a => IdCall s.core a ∧ DataCall s.core a) (fun _ _ => True) h op)
      (Host.boot pool callbackArg) h) (a : ℕ) :
    ∀ o ∈ (h.mem a).st.trace, o.CarriesId ∧ o.Complete := by
  have hid : IdInv (h.mem a).st.core := by
    refine (Each.of_preserved preserved_idInv (happ.mono fun _ _ h => h.1)
      fun _ hs => hs.idInv).reach happ hpool (hr.mono fun h op hop => ⟨hop.1, ?_⟩) a
    exact hop.2.mono (fun _ _ h => h.1) fun _ _ _ _ _ => trivial
  have hdata : DataInv (h.mem a).st.core := by
    refine (Each.of_preserved preserved_dataInv (happ.mono fun _ _ h => h.2)
      fun _ hs => hs.dataInv).reach happ hpool (hr.mono fun h op hop => ⟨hop.1, ?_⟩) a
    exact hop.2.mono (fun _ _ h => h.2) fun _ _ _ _ _ => trivial
  intro o ho
  by_cases hc : o.isCtl = true
  · exact ⟨Out.carriesId_of_isCtl hc, Out.complete_of_isCtl hc⟩
  · have hlog : o ∈ (h.mem a).st.core.log := List.mem_filter.mpr ⟨ho, by simpa using hc⟩
    exact ⟨hid.log o hlog, hdata.log o hlog⟩

/-- Two connections are opened. The server answers the first one, and a byte is sent on it. -/
def chattyOps : List ((ℕ → List Bool) × HostOp Unit) :=
  [(fun _ => [], .new 1 ()), (fun _ => [], .api 0 (.connect 4000 1000)),
    (fun _ => [], .new 1 ()), (fun _ => [], .api 1 (.connect 4001 1000)),
    (fun _ => [], .input synAckSeg 1 0 []), (fun _ => [], .api 0 (.write [7] true false)),
    (fun _ => [], .api 0 .output)]

@[inherit_doc chattyOps] def chatty : Host Unit :=
  (Run.check (hostStep idleApp) (okCheck fun c a => decide (IdCall c a ∧ DataCall c a))
    (Host.boot [0, 1] ()) chattyOps).getD (Host.boot [] ())

theorem reach_chatty : Run.Reach (hostStep idleApp) (fun h op => HostOk h op ∧
    EachOk (fun s a => IdCall s.core a ∧ DataCall s.core a) (fun _ _ => True) h op)
    (Host.boot [0, 1] ()) chatty :=
  Run.Reach.check_getD (fun _ _ => okCheck_each (A := fun c a => IdCall c a ∧ DataCall c a)
    fun _ _ => of_decide_eq_true) (by decide +kernel)

/-- The byte has gone out with the id of its connection. -/
theorem packets_own_chatty : (∃ packet st id,
      Out.ipOutputIf packet true st id ∈ (chatty.mem 0).st.trace ∧ bytes packet.p = [7] ∧
        packet.tcphdr.HasId { connid1 := 4000, connid2 := 7 }) ∧
    ∀ o ∈ (chatty.mem 0).st.trace, o.CarriesId ∧ o.Complete := by
  refine ⟨?_, packets_own appOk_idleApp (by decide) reach_chatty 0⟩
  exact ⟨_, _, _, List.mem_of_getElem? (i := 4) rfl, rfl, rfl, rfl⟩

end Host

end Rudp
