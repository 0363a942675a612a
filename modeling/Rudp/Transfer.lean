import Rudp.Datagram
import Rudp.Lossless
import Rudp.Reader
import Rudp.Lib.Net

/-!
# A transfer

A sender and a reader with a network between them that loses datagrams, delays them, and delivers them
in any order and any number of times. Everything else happens as it will: timers expire, allocations
and `sendto` fail, the application of the reader refuses data, either connection is reset or removed.

Results:
* `transfer_integrity`: what the application of the reader has been given is a prefix of what the other
  one has written, and EOF comes behind all of it.
* `transfer_complete`: each byte that was written has been received, or is still queued.
-/

namespace Rudp

open Serial

variable {V W : Type} {s s' : St W} {base : U32} {S : List Byte} {n : ℕ} {app : App W}

/-! ## The parties -/

theorem AppOk.mono {P P' : Core → Api → Prop} (hP : ∀ c a, P c a → P' c a) (h : AppOk P app) :
    AppOk P' app := by
  intro e s ret s' hr
  refine Relation.ReflTransGen.mono ?_ _ _ (h e s ret s' hr)
  rintro t t' (hw | ⟨a, err, ha, hc⟩)
  · exact .inl hw
  · exact .inr ⟨a, err, hP _ _ ha, hc⟩

/-- What has been sent stays sent. -/
theorem mem_trace_connStep (happ : AppOk NoConnect app) {op : List Bool × Op}
    (hop : ∀ a, op.2 = .api a → NoConnect s.core a) (h : connStep app s op = .ok s') {o : Out}
    (ho : o ∈ s.trace) : o ∈ s'.trace := by
  have hk : Kept NoConnect (fun _ _ => True) (fun _ _ => True) app
      fun t : St W => s.trace <+: t.trace := (announces_extends s.trace).toKept
  refine (hk.step happ ?_ h List.prefix_rfl).subset ho
  obtain ⟨fails, op⟩ := op
  cases op with
  | api a => exact hop a rfl
  | input seg => exact fun _ _ => trivial
  | fasttmr => exact fun _ => trivial
  | slowtmr => exact fun _ => trivial
  | kill reset => trivial

/-- The packets that `sendto` took. -/
def sentPackets (s : St W) : Set Packet := {packet | ∃ st id, .ipOutputIf packet true st id ∈ s.trace}

theorem sentPackets_connStep (happ : AppOk NoConnect app) {op : List Bool × Op}
    (hop : ∀ a, op.2 = .api a → NoConnect s.core a) (h : connStep app s op = .ok s') :
    sentPackets s ⊆ sentPackets s' := by
  rintro packet ⟨st, id, ho⟩
  exact ⟨st, id, mem_trace_connStep happ hop h ho⟩

theorem sentPackets_own {P : Core → Api → Prop} (hP : ∀ c a, P c a → NoConnect c a)
    (happ : AppOk P app) (h : ∃ op : List Bool × Op, (∀ seg, op.2 ≠ .input seg) ∧
      (∀ a, op.2 = .api a → P s.core a) ∧ connStep app s op = .ok s') :
    sentPackets s ⊆ sentPackets s' := by
  obtain ⟨op, -, hop, h⟩ := h
  exact sentPackets_connStep (happ.mono hP) (fun a ha => hP _ a (hop a ha)) h

theorem sentPackets_input (happ : AppOk NoConnect app) {seg : InSegment}
    (h : ∃ fails, connStep app s (fails, .input seg) = .ok s') : sentPackets s ⊆ sentPackets s' := by
  obtain ⟨fails, h⟩ := h
  refine sentPackets_connStep happ (fun a ha => ?_) h
  cases ha

/-- A connection as a party, with an application that meets `P`. -/
def endpoint (P : Core → Api → Prop) (hP : ∀ c a, P c a → NoConnect c a) (app : App W)
    (happ : AppOk P app) : Net.Party (St W) InSegment Packet where
  move s s' := ∃ op : List Bool × Op, (∀ seg, op.2 ≠ .input seg) ∧
    (∀ a, op.2 = .api a → P s.core a) ∧ connStep app s op = .ok s'
  take seg s s' := ∃ fails, connStep app s (fails, .input seg) = .ok s'
  sent := sentPackets
  sent_move := sentPackets_own hP happ
  sent_take := sentPackets_input (happ.mono hP)

section Endpoint

variable {P : Core → Api → Prop} {hP : ∀ c a, P c a → NoConnect c a} {happ : AppOk P app}
variable {T : Set InSegment}

/-- A run of the party is a run of the connection. -/
theorem endpoint_reach {Q : Core → InSegment → Prop} (hQ : ∀ seg ∈ T, seg.flags.rst = false →
      ∀ c, Q c seg) (h : (endpoint P hP app happ).Run T s s') :
    Run.Reach (connStep app) (Preserved.StepOk P Q app) s s' := by
  induction h with
  | refl => exact .refl
  | tail _ hs ih =>
    rcases hs with ⟨op, hin, hop, h⟩ | ⟨seg, hT, fails, h⟩
    · refine .step op ih ?_ h
      obtain ⟨fails, op⟩ := op
      cases op with
      | api a => exact hop a rfl
      | input seg => exact absurd rfl (hin seg)
      | _ => trivial
    · refine .step _ ih (fun t ht => ?_) h
      obtain ⟨_, -, hrst, -⟩ := ht
      exact hQ seg hT hrst _

/-- The rule for invariants that one operation keeps. -/
theorem endpoint_invariant {I : St W → Prop} (h : (endpoint P hP app happ).Run T s s')
    (h₀ : I s) (hstep : ∀ t t' op, I t → (∀ a, op.2 = .api a → P t.core a) →
      (∀ seg, op.2 = .input seg → seg ∈ T) → connStep app t op = .ok t' → I t') : I s' := by
  apply h.invariant h₀
  · rintro t t' hI ⟨op, hin, hop, h⟩
    exact hstep t t' op hI hop (fun seg he => absurd he (hin seg)) h
  · rintro seg t t' hI hT ⟨fails, h⟩
    refine hstep t t' (fails, .input seg) hI (fun a ha => by cases ha) (fun seg' he => ?_) h
    cases he
    exact hT

end Endpoint

/-! ## The datagrams -/

/-- What `tcp_input` makes of a datagram: the header, and the data in whatever pbufs. -/
structure ArrivesAs (packet : Packet) (seg : InSegment) : Prop where
  tcphdr : seg.tcphdr = packet.tcphdr
  data : bytes seg.p = packet.sendto

/-- What arrives of a packet that carries its part of the stream, and went out whole, is from the
    peer. -/
theorem ArrivesAs.fromPeer {packet : Packet} {seg : InSegment} {done : Bool} (h : ArrivesAs packet seg)
    (hc : packet.Carries base S done) (hw : packet.sendto = bytes packet.p) :
    FromPeer S base seg := by
  intro hrst
  have hdata : bytes seg.p = bytes packet.p := h.data.trans hw
  have hlen : totLen seg.p = totLen packet.p := by
    rw [← length_bytes, hdata, length_bytes]
  have htl : seg.tcplen = packet.tcplen := by
    unfold InSegment.tcplen Packet.tcplen InSegment.flags
    rw [hlen, h.tcphdr]
  by_cases hl : 0 < packet.tcplen
  · rcases hc hl with ho | ⟨hsyn, k, hk⟩
    · left
      refine ⟨?_, htl.trans ho.tcplen, ?_⟩
      · rw [InSegment.seqno, h.tcphdr]
        exact ho.seqno
      · rw [InSegment.flags, h.tcphdr]
        exact ho.fin
    · right
      refine ⟨k, fun _ => ?_, fun _ => hdata ▸ hk.slice, fun hf => ?_, ?_, hrst⟩
      · rw [InSegment.seqno, h.tcphdr]
        exact hk.seqno
      · rw [InSegment.flags, h.tcphdr] at hf
        rw [hlen, ← length_bytes]
        exact (hk.fin hf).2
      · rw [InSegment.flags, h.tcphdr]
        exact hsyn
  · right
    have h0 : seg.tcplen = 0 := by omega
    have hfs : seg.flags.fin = false ∧ seg.flags.syn = false := by
      unfold InSegment.tcplen TcpFlags.finSyn at h0
      cases hf : seg.flags.fin <;> cases hs : seg.flags.syn <;> simp_all
    refine ⟨0, fun hl => ?_, fun hl => ?_, fun hf => ?_, hfs.2, hrst⟩
    · rw [h0] at hl
      cases hl
    · rw [h0] at hl
      cases hl
    · rw [hfs.1] at hf
      cases hf

/-- All datagrams of a pcb are complete where its connection begins. -/
theorem Begun.dataInv (h : Begun s) : DataInv s.core := by
  cases h with
  | @connect a _ newPort iss ha hr =>
    obtain ⟨⟨err, t⟩, h₁, hr⟩ := Run.bind_eq_ok.mp hr
    have hI := (Fresh.alloc ha).dataInv.connect h₁
    dsimp only at hr
    split at hr
    · obtain ⟨⟨err', s₁⟩, h₂, hr⟩ := Run.bind_eq_ok.mp hr
      cases hr
      exact hI.moves (moves_tcpOutput h₂)
    · cases hr
      exact hI
  | listen seg localPort serverId ha hr _ =>
    exact (Fresh.listen seg localPort serverId ha hr).dataInv

/-! ## What the sender gets to see -/

/-- Nothing behind the `n`-th byte of the stream is acknowledged. -/
def AckIn (base : U32) (n : ℕ) (_ : Core) (seg : InSegment) : Prop :=
  seg.flags.ack = true → seg.ackno ∈ upTo base n

/-- `lastack` is in front of the stream or behind a byte of it. -/
def Seen (base : U32) (n : ℕ) (c : Core) : Prop := c.lastack + 1 ∈ upTo base (n + 1)

theorem Seen.ackFresh {c : Core} {seg : InSegment} (h : Seen base n c) (hn : n < 1073741823)
    (hack : AckIn base n c seg) : AckFresh c seg := by
  intro ha
  obtain ⟨m, hm, hs⟩ := hack ha
  obtain ⟨l, hl, he⟩ := h
  have h1 : dist (base + u32 l) base = l := by
    rw [dist_add_u32 _ _ _ (by rw [dist_self]; omega), dist_self, zero_add]
  have h2 : dist (base + u32 m) base = m := by
    rw [dist_add_u32 _ _ _ (by rw [dist_self]; omega), dist_self, zero_add]
  have h3 : dist c.lastack base = l - 1 := by
    rw [eq_sub_of_add_eq he, dist_sub_one _ _ (by omega), h1]
  rw [hs, Near.dist (r := base) ⟨by omega, by omega⟩ ⟨by omega, by omega⟩, h2, h3]
  omega

theorem Seen.congr {c c' : Core} (h : Seen base n c) (hla : c'.lastack = c.lastack) :
    Seen base n c' := by
  unfold Seen
  rw [hla]
  exact h

/-- `tcp_receive` moves `lastack` to the ACK, if at all. -/
theorem lastack_tcpProcessReceive {seg : InSegment} {after : St W → St W}
    (hafter : ∀ t, Settles t.core (after t).core) (h : tcpProcessReceive s seg after = .ok s') :
    s'.pcb.lastack = s.pcb.lastack ∨ (seg.flags.ack = true ∧ s'.pcb.lastack = seg.ackno) := by
  obtain ⟨-, s₁, s₂, h₁, -, h₂, rfl⟩ := processReceive_parts h
  have hl : (after s₂).pcb.lastack = s₁.pcb.lastack :=
    (hafter s₂).lastack.trans (congrArg SndView.lastack (sndView_tcpReceiveData h₂))
  show (after s₂).pcb.lastack = _ ∨ _ ∧ (after s₂).pcb.lastack = _
  rw [hl]
  rcases h₁ with ⟨hack, h₁⟩ | ⟨-, rfl⟩
  · obtain ⟨q, hq, he⟩ := tcpReceiveAck_spec h₁
    have hla : s₁.pcb.lastack = q.lastack := congrArg AckedQueues.lastack he
    rw [hla]
    cases hq with
    | new => exact .inr ⟨hack, rfl⟩
    | _ => exact .inl rfl
  · exact .inl rfl

/-- The ACK of the SYN acknowledges no more. -/
theorem Carry.ackno_syn {seg : InSegment} {rseg : TcpSeg} {rest : List TcpSeg}
    (h : Carry base s.core) (hst : s.pcb.state = .SYN_SENT) (hq : s.pcb.unacked = rseg :: rest)
    (hack : seg.ackno = rseg.tcphdr.seqno + 1) : seg.ackno = base := by
  have hsyn : rseg.tcphdr.flags.syn = true := by
    have h0 := (h.flight.synSent hst).2.2
    rw [show s.core.unacked = rseg :: rest from hq] at h0
    rcases h0 with h0 | ⟨syn, q, he, hsyn, -⟩
    · cases h0
    · obtain ⟨rfl, -⟩ := List.cons.inj he
      exact hsyn
  have hmem : rseg ∈ s.core.segs :=
    List.mem_append_right _ (show rseg ∈ s.pcb.unacked by rw [hq]; exact List.mem_cons_self)
  rcases h.segs rseg hmem with ⟨-, hbase, -⟩ | ⟨hno, -⟩
  · exact hack.trans hbase
  · rw [hsyn] at hno
    cases hno

theorem AckIn.seen {c c' : Core} {seg : InSegment} (h : AckIn base n c seg)
    (hack : seg.flags.ack = true) (hla : c'.lastack = seg.ackno) : Seen base n c' := by
  obtain ⟨m, hm, he⟩ := h hack
  refine ⟨m + 1, by omega, ?_⟩
  rw [hla, he, u32_add, ← BitVec.add_assoc]
  rfl

/-- With such acknowledgments nothing is lost that has not been received. -/
theorem preserved_seen (hn : n < 1073741823) :
    Preserved InOrder (AckIn base n) fun s : St W => Lossless base s ∧ Seen base n s.core where
  frame hI hc hl := ⟨preserved_lossless.frame hI.1 hc hl, by rw [hc]; exact hI.2⟩
  callback ho hI := ⟨preserved_lossless.callback ho hI.1, hI.2⟩
  connect hP := hP.elim
  write {s s' arg copy more err} hP h hI := by
    refine ⟨preserved_lossless.write hP h hI.1, ?_⟩
    have hla : s'.pcb.lastack = s.pcb.lastack := (congrArg Pcb.lastack (tcpWrite_queues h).1 :)
    split <;> exact hI.2.congr hla
  recved hP h hI := ⟨preserved_lossless.recved hP h hI.1, hI.2⟩
  fin {s s' a st err} hP ha hst h hI := by
    refine ⟨preserved_lossless.fin hP ha hst h hI.1, ?_⟩
    have hla : s'.pcb.lastack = s.pcb.lastack := (congrArg Pcb.lastack (tcpSendFin_queues h).1 :)
    split <;> exact hI.2.congr hla
  output h hI := ⟨preserved_lossless.output h hI.1, hI.2.congr (lastack_tcpOutput h)⟩
  rexmitRto {s s'} h hI := by
    refine ⟨preserved_lossless.rexmitRto h hI.1, hI.2.congr ?_⟩
    unfold tcpRexmitRto at h
    split at h
    · cases h
      rfl
    · obtain ⟨⟨err, s₁⟩, h₁, h⟩ := Run.bind_eq_ok.mp h
      cases h
      exact (lastack_tcpOutput h₁).trans rfl
  probe {s} hI := by
    obtain ⟨log, he, -⟩ := probe_core s
    refine ⟨preserved_lossless.probe hI.1, ?_⟩
    rw [he]
    exact hI.2.congr rfl
  rexmit {s} hst hI := by
    refine ⟨preserved_lossless.rexmit hst hI.1, hI.2.congr ?_⟩
    unfold tcpRexmit
    split <;> rfl
  rcvWndFin {s} hI := by
    refine ⟨preserved_lossless.rcvWndFin hI.1, hI.2.congr ?_⟩
    unfold Rudp.rcvWndFin
    split <;> rfl
  mss h0 h1 hI := ⟨preserved_lossless.mss h0 h1 hI.1, hI.2⟩
  establish {s seg rseg rest} hst hq hlen hack hI := by
    refine ⟨preserved_lossless.establish hst hq hlen hack hI.1, 1, by omega, ?_⟩
    show seg.ackno + 1 = _
    rw [hI.1.carry.ackno_syn hst hq hack]
    rfl
  accept hst hbet hI := ⟨preserved_lossless.accept hst hbet hI.1, hI.2⟩
  receive {s s' seg} hsyn hQ h hI := by
    refine ⟨preserved_lossless.receive hsyn (hI.2.ackFresh hn hQ) h hI.1, ?_⟩
    rcases lastack_tcpProcessReceive (settles_tcpProcessAfter _ _) h with hla | ⟨hack, hla⟩
    · exact hI.2.congr hla
    · exact hQ.seen hack hla
  receiveAccept {app s s₁ s' seg} happ hst h₀ hack h₁ hQ h hI := by
    refine ⟨preserved_lossless.receiveAccept happ hst h₀.1 hack h₁ (hI.2.ackFresh hn hQ) h hI.1, ?_⟩
    rcases lastack_tcpProcessReceive settles_tcpProcessAcceptAfter h with hla | ⟨hack, hla⟩
    · exact hI.2.congr hla
    · exact hQ.seen hack hla
  purge {s} hl hI := by
    refine ⟨preserved_lossless.purge hl hI.1, hI.2.congr ?_⟩
    unfold tcpPcbPurge
    split <;> rfl
  timeWait hr hl hst hu ha ho hI := ⟨preserved_lossless.timeWait hr hl hst hu ha ho hI.1, hI.2⟩
  closed hl hu ha ho hI := ⟨preserved_lossless.closed hl hu ha ho hI.1, hI.2⟩
  clear hl hst hI := ⟨preserved_lossless.clear hl hst hI.1, hI.2⟩
  ooseq hI := ⟨preserved_lossless.ooseq hI.1, hI.2⟩

/-! ## Runs of the pair -/

/-- The application writes and closes in order, and `tcp_write` chains no pbuf. -/
def Sends (c : Core) (a : Api) : Prop := InOrder c a ∧ DataCall c a

theorem Sends.noConnect (c : Core) (a : Api) (h : Sends c a) : NoConnect c a := by
  cases a with
  | connect => exact h.1.elim
  | _ => trivial

theorem Reads.noConnect (c : Core) (a : Api) (h : Reads c a) : NoConnect c a := by
  cases a with
  | connect => exact h.elim
  | _ => trivial

theorem Preserved.StepOk.mono {P P' : Core → Api → Prop} {Q : Core → InSegment → Prop}
    (hP : ∀ c a, P c a → P' c a) {op : List Bool × Op} (h : Preserved.StepOk P Q app s op) :
    Preserved.StepOk P' Q app s op := by
  obtain ⟨fails, op⟩ := op
  cases op with
  | api a => exact hP _ _ h
  | input seg => exact h
  | _ => trivial

section Pair

variable {appV : App V} {appW : App W} (hV : AppOk Sends appV) (hW : ReadsOnly appW)

/-- The sender. -/
def sender : Net.Party (St V) InSegment Packet := endpoint Sends Sends.noConnect appV hV

/-- The reader. -/
def reader : Net.Party (St W) InSegment Packet := endpoint Reads Reads.noConnect appW hW.calls

/-- A run of the two. What `sendto` took arrives, or not, and when it will. -/
def Transfer : St V × St W → St V × St W → Prop :=
  Relation.ReflTransGen (Net.Step (sender hV) (reader hW) ArrivesAs ArrivesAs)

variable {hV hW} {a₀ a : St V} {b₀ b : St W} {syn : InSegment}

/-- All that the sender has sent is in place and complete. -/
theorem Transfer.carries (ha : Begun a₀) (h : Transfer hV hW (a₀, b₀) (a, b)) :
    ∀ packet ∈ sentPackets a, packet.Carries (a₀.pcb.lastack + 1) (written a.trace) a.pcb.tfFin ∧
      packet.sendto = bytes packet.p := by
  have hr := endpoint_reach (Q := fun _ _ => True) (fun _ _ _ _ => trivial) (Net.run_left h)
  have hc := preserved_carry.reach (hV.mono fun _ _ hP => hP.1) ha.carry
    (hr.mono fun _ _ hs => hs.mono fun _ _ hP => hP.1)
  have hd := preserved_dataInv.reach (hV.mono fun _ _ hP => hP.2) ha.dataInv
    (hr.mono fun _ _ hs => hs.mono fun _ _ hP => hP.2)
  rintro packet ⟨st, id, ho⟩
  refine ⟨hc.packets ho, ?_⟩
  by_cases hctl : (Out.ipOutputIf packet true st id).isCtl = true
  · exact Out.complete_of_isCtl hctl
  · exact hd.log _ (List.mem_filter.mpr ⟨ho, by simpa using hctl⟩)

/-- What the reader is, seen from the end of the run. -/
theorem Transfer.reader (ha : Begun a₀) (hb : AnswersSyn syn b₀)
    (hsyn : syn.seqno = a₀.pcb.lastack) (h : Transfer hV hW (a₀, b₀) (a, b))
    (hS : (written a.trace).length < 536870912) :
    Reader (written a.trace) (a₀.pcb.lastack + 1) b := by
  have hcar := h.carries ha
  have h₀ := hb.reader (written a.trace)
  rw [hsyn] at h₀
  refine endpoint_invariant (Net.run_right h) h₀ ?_
  intro t t' op hI hop hseg hs
  refine hI.step hW (by omega) ⟨hop, fun seg he => ?_⟩ hs
  obtain ⟨packet, hp, harr⟩ := hseg seg he
  obtain ⟨hc, hd⟩ := hcar packet hp
  exact harr.fromPeer hc hd

/-- In every run, what the application of the reader has been given is a prefix of what the other one
    has written, and EOF has come once at most, behind all of it. -/
theorem transfer_integrity (ha : Begun a₀) (hb : AnswersSyn syn b₀)
    (hsyn : syn.seqno = a₀.pcb.lastack) (h : Transfer hV hW (a₀, b₀) (a, b))
    (hS : (written a.trace).length < 536870912) : Told (written a.trace) (events b.trace) := by
  rcases (h.reader ha hb hsyn hS).reading with ⟨-, -, htold⟩ | hO
  · exact htold
  · exact hO.told

/-- Nothing is acknowledged that has not been received. -/
theorem Transfer.seen (ha : Begun a₀) (hb : AnswersSyn syn b₀) (hsyn : syn.seqno = a₀.pcb.lastack)
    (h : Transfer hV hW (a₀, b₀) (a, b)) (hS : (written a.trace).length < 536870912)
    (hf : b.freed = false) :
    Lossless (a₀.pcb.lastack + 1) a ∧ Seen (a₀.pcb.lastack + 1) b.taken a.core := by
  have hR := h.reader ha hb hsyn hS
  have hle : b.taken < 1073741823 := by
    rcases hR.reading with ⟨hg, -⟩ | hO
    · rw [hg] at hf
      cases hf
    · obtain ⟨-, hle, -⟩ := hO.received rfl
      have hle' : b.rcvView.received ≤ (written a.trace).length := hle
      have hb := Bool.toNat_le b.pcb.state.finTaken
      unfold St.taken
      omega
  have hA := (hR.acks hf).acks
  have hrun := endpoint_reach (Q := AckIn (a₀.pcb.lastack + 1) b.taken) ?_ (Net.run_left h)
  · refine (preserved_seen hle).reach (hV.mono fun _ _ hP => hP.1) ⟨ha.lossless, ?_⟩
      (hrun.mono fun _ _ hs => hs.mono fun _ _ hP => hP.1)
    exact ⟨0, Nat.zero_le _, (add_zero _).symm⟩
  · rintro seg ⟨packet, ⟨st, id, ho⟩, harr⟩ hrst c hack
    apply hA _ ho
    rw [InSegment.flags, harr.tcphdr] at hrst hack
    show seg.ackno ∈ (if _ then some packet.tcphdr.ackno else none : Option U32)
    rw [InSegment.ackno, harr.tcphdr, hack, hrst]
    rfl

/-- In every run, as long as both pcbs are in use, the reader has received a prefix of what was
    written, each further byte is still queued at its place, and so is the FIN. -/
theorem transfer_complete (ha : Begun a₀) (hb : AnswersSyn syn b₀)
    (hsyn : syn.seqno = a₀.pcb.lastack) (h : Transfer hV hW (a₀, b₀) (a, b))
    (hS : (written a.trace).length < 536870912) (hl : a.list = .active) (hf : b.freed = false) :
    ∃ k, accepted (events b.trace) ++ parked b.pcb.refusedData = (written a.trace).take k ∧
      (∀ j < (written a.trace).length, k ≤ j →
        a.core.HoldsByte (a₀.pcb.lastack + 1) (written a.trace) j) ∧
      (a.pcb.tfFin = true → b.pcb.state.finTaken = false →
        a.core.HoldsEnd (a₀.pcb.lastack + 1) (written a.trace)) := by
  obtain ⟨hL, m, hm, hla⟩ := h.seen ha hb hsyn hS hf
  obtain ⟨-, hC⟩ := hL.active hl
  rcases (h.reader ha hb hsyn hS).reading with ⟨hg, -⟩ | hO
  · rw [hg] at hf
    cases hf
  obtain ⟨-, hle, hdata, -, hend⟩ := hO.received rfl
  rw [show events b.rcvView.fresh.log = events b.trace from events_filter b.trace] at hdata
  change b.rcvView.received ≤ _ at hle
  change b.pcb.state.finTaken = true → b.rcvView.received = _ at hend
  -- `lastack` is not behind what has been received
  have hdist {j : ℕ} (hj : j ≤ (written a.trace).length) (hmj : m ≤ j + 1) :
      0 ≤ dist (a₀.pcb.lastack + 1 + u32 j) a.pcb.lastack := by
    have h1 : dist (a₀.pcb.lastack + 1 + u32 j) (a₀.pcb.lastack + 1) = j := by
      rw [dist_add_u32 _ _ _ (by rw [dist_self]; omega), dist_self, zero_add]
    have h2 : dist (a₀.pcb.lastack + 1 + u32 m) (a₀.pcb.lastack + 1) = m := by
      rw [dist_add_u32 _ _ _ (by rw [dist_self]; omega), dist_self, zero_add]
    have h3 : dist a.pcb.lastack (a₀.pcb.lastack + 1) = m - 1 := by
      rw [show a.pcb.lastack = _ from eq_sub_of_add_eq hla, dist_sub_one _ _ (by omega), h2]
    rw [Near.dist (r := a₀.pcb.lastack + 1) ⟨by omega, by omega⟩ ⟨by omega, by omega⟩, h1, h3]
    omega
  rw [show b.taken = b.rcvView.received + b.pcb.state.finTaken.toNat from rfl] at hm
  have hfin := Bool.toNat_le b.pcb.state.finTaken
  refine ⟨b.rcvView.received, hdata, fun j hj hkj => ?_, fun hsent htaken => ?_⟩
  · have hnot : b.pcb.state.finTaken = false := by
      by_contra ht
      have := hend (by simpa using ht)
      omega
    rw [hnot, Bool.toNat_false] at hm
    rw [← written_core] at hj hS ⊢
    refine hL.carry.holdsByte hj (by omega) (hC.data j hj (by omega) ?_)
    exact hdist (by rw [← written_core]; omega) (by omega)
  · rw [htaken, Bool.toNat_false] at hm
    rw [← written_core] at hS ⊢
    refine hL.carry.holdsEnd (hC.fin hsent ?_)
    rw [written_core]
    exact hdist le_rfl (by omega)

end Pair

/-! ### A run -/

theorem appOk_idle_sends : AppOk Sends idleApp := appOk_idleApp

/-- The answer of the server. -/
def synAckSeg : InSegment where
  tcphdr := { serverHdr 0 1000 { syn := true, ack := true } TCP_WND with hdrlen := 6 }
  p := []
  bound := noData_bound

/-- The sender calls the stack. -/
theorem sender_calls {t t' : St Unit} (call : Api) (hc : Sends t.core call)
    (h : connStep idleApp t ([], .api call) = .ok t') : (sender appOk_idle_sends).move t t' := by
  refine ⟨([], .api call), nofun, fun a ha => ?_, h⟩
  cases ha
  exact hc

/-- With nothing unsent, a byte may be written. -/
theorem sends_write {s : St Unit} {b : Byte} (hfin : s.pcb.tfFin = false) (hu : s.pcb.unsent = []) :
    Sends s.core (.write [b] true false) := by
  refine ⟨⟨hfin, .of_nil hu⟩, rfl, rfl, ?_⟩
  rintro ⟨last, hl, -⟩
  rw [show s.core.unsent = [] from hu] at hl
  cases hl

/-- The answer arrives, a byte is written and arrives, a second byte waits for the ACK of it, and the
    sender closes. -/
theorem transfer_of_bytes : ∃ a b : St Unit,
    Transfer appOk_idle_sends readsOnly_idle (connecting, answering) (a, b) ∧
      written a.trace = [7, 8] ∧ accepted (events b.trace) = [7] ∧
      parked b.pcb.refusedData = [] ∧ (a.list = .active ∧ a.pcb.tfFin = true) ∧
      b.freed = false ∧ b.pcb.state.finTaken = false := by
  have h₀ : Transfer appOk_idle_sends readsOnly_idle (connecting, answering)
    (connecting, answering) := .refl
  have h₁ := h₀.tail (.takeLeft (i := synAckSeg) ⟨_, _, List.mem_of_getElem? (i := 0) rfl⟩ ⟨rfl, rfl⟩
    ⟨[], rfl⟩)
  have h₂ := h₁.tail (.left (sender_calls (.write [7] true false) (sends_write rfl rfl) rfl))
  have h₃ := h₂.tail (.left (sender_calls .output ⟨trivial, trivial⟩ rfl))
  have h₄ := h₃.tail (.takeRight (k := byteSeg) ⟨_, _, List.mem_of_getElem? (i := 4) rfl⟩ ⟨rfl, rfl⟩
    ⟨[], rfl⟩)
  have h₅ := h₄.tail (.left (sender_calls (.write [8] true false) (sends_write rfl rfl) rfl))
  have h₆ := h₅.tail (.left (sender_calls .output ⟨trivial, trivial⟩ rfl))
  have h₇ := h₆.tail (.left (sender_calls .close ⟨fun _ => ⟨rfl, .of_getLast? rfl rfl⟩, trivial⟩ rfl))
  exact ⟨_, _, h₇, rfl, rfl, rfl, ⟨rfl, rfl⟩, rfl, rfl⟩

theorem transfer_integrity_bytes : ∃ a b : St Unit, written a.trace = [7, 8] ∧
    accepted (events b.trace) = [7] ∧ Told (written a.trace) (events b.trace) := by
  obtain ⟨a, b, h, hw, hacc, -⟩ := transfer_of_bytes
  exact ⟨a, b, hw, hacc, transfer_integrity begun_connecting answersSyn_answering rfl h
    (by rw [hw]; decide)⟩

/-- The second byte is queued, and the FIN behind it. -/
theorem transfer_complete_bytes : ∃ a b : St Unit, written a.trace = [7, 8] ∧
    accepted (events b.trace) = [7] ∧ a.core.HoldsByte 1000 [7, 8] 1 ∧
      a.core.HoldsEnd 1000 [7, 8] := by
  obtain ⟨a, b, h, hw, hacc, hp, ⟨hl, hfin⟩, hf, ht⟩ := transfer_of_bytes
  obtain ⟨k, hk, hj, he⟩ := transfer_complete begun_connecting answersSyn_answering rfl h
    (by rw [hw]; decide) hl hf
  rw [hw] at hk hj he
  have hk1 : k ≤ 1 := by
    have hlen := congrArg List.length hk
    rw [hacc, hp, List.length_take] at hlen
    simp only [List.append_nil, List.length_cons, List.length_nil] at hlen
    omega
  exact ⟨a, b, hw, hacc, hj 1 (by decide) hk1, he hfin ht⟩

end Rudp
