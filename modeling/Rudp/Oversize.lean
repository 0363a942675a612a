import Rudp.Room
import Rudp.Micro

/-!
# The spare room behind the last segment

`unsent_oversize` is how many bytes are spare behind the last segment of `unsent`, and the segment
says so as well, in `oversize_left`. `tcp_output` clears the segment's copy when it takes the segment
up, and the other one when nothing is left on `unsent`. When `ip_output_if` fails for the last segment
the two differ.

Results:
* `OversizeInv.tcpWrite`: `tcp_write` keeps the two equal.
* `OversizeInv.tcpOutput`: so does `tcp_output`, unless it loses the spare room (`LosesRoom`).
* `keepsRoom_of_reach`: a run is a sequence of turns in which none does, up to the first that does.
* `oversize_consistent`: they are equal in every run in which no `tcp_output` does.
* `oversize_consistent_fails`: a run in which it does.
-/

namespace Rudp

variable {W : Type} {s s' : St W}

open Run (Fails)
open Relation (ReflTransGen)

/-! ## The invariant -/

/-- The spare bytes behind the data of a chain. -/
def spareOf (p : List Pbuf) : ℕ := (p.getLast?.map (·.spare)).getD 0

@[simp] theorem spareOf_snoc (p : List Pbuf) (q : Pbuf) : spareOf (p ++ [q]) = q.spare := by
  unfold spareOf
  rw [List.getLast?_concat]
  rfl

/-- `oversize` is what the last segment says, and it is there. -/
structure Oversized (oversize : ℕ) (q : List TcpSeg) : Prop where
  empty : q = [] → oversize = 0
  last : ∀ seg ∈ q.getLast?, oversize = seg.oversizeLeft ∧ oversize ≤ spareOf seg.p

theorem Oversized.nil : Oversized 0 [] := ⟨fun _ => rfl, nofun⟩

theorem oversized_snoc {oversize : ℕ} {q : List TcpSeg} {seg : TcpSeg} :
    Oversized oversize (q ++ [seg]) ↔ oversize = seg.oversizeLeft ∧ oversize ≤ spareOf seg.p := by
  constructor
  · intro h
    apply h.last
    rw [List.getLast?_concat]
    rfl
  · intro h
    refine ⟨fun hq => absurd hq (by simp), fun last hl => ?_⟩
    rw [List.getLast?_concat] at hl
    obtain rfl := Option.mem_some.mp hl
    exact h

/-- The front of the queue does not matter. -/
theorem Oversized.congr {oversize : ℕ} {q q' : List TcpSeg} (h : Oversized oversize q)
    (hne : q' = [] → q = []) (hl : q'.getLast? = q.getLast?) : Oversized oversize q' := by
  constructor
  · intro hq
    exact h.empty (hne hq)
  · rw [hl]
    exact h.last

theorem Oversized.tail {oversize : ℕ} {seg : TcpSeg} {rest : List TcpSeg}
    (h : Oversized oversize (seg :: rest)) : rest = [] ∨ Oversized oversize rest := by
  rcases eq_nil_or_snoc rest with rfl | ⟨init, last, rfl⟩
  · exact .inl rfl
  · right
    exact oversized_snoc.mpr (oversized_snoc (q := seg :: init).mp h)

/-- What `tcp_write` may put behind a segment. -/
theorem tcp_oversize_small : TCP_OVERSIZE + TCP_OVERSIZE < 65536 := by decide

/-- The two copies of the spare room. A segment on `unacked` has none. -/
structure OversizeInv (pcb : Pcb) : Prop where
  unsent : Oversized pcb.unsentOversize pcb.unsent
  unacked : ∀ seg ∈ pcb.unacked, seg.oversizeLeft = 0
  small : pcb.unsentOversize ≤ TCP_OVERSIZE

/-- What it speaks of. -/
def Pcb.oversizes (pcb : Pcb) : ℕ × List TcpSeg × List TcpSeg :=
  (pcb.unsentOversize, pcb.unsent, pcb.unacked)

namespace OversizeInv

variable {pcb pcb' : Pcb}

theorem of_eq {o : ℕ} {q r : List TcpSeg} (h : pcb'.oversizes = (o, q, r)) (hq : Oversized o q)
    (hr : ∀ seg ∈ r, seg.oversizeLeft = 0) (ho : o ≤ TCP_OVERSIZE) : OversizeInv pcb' := by
  simp only [Pcb.oversizes, Prod.mk.injEq] at h
  obtain ⟨rfl, rfl, rfl⟩ := h
  exact ⟨hq, hr, ho⟩

theorem congr (h : OversizeInv pcb) (he : pcb'.oversizes = pcb.oversizes) : OversizeInv pcb' :=
  of_eq he h.unsent h.unacked h.small

theorem of_core (h : OversizeInv s.pcb) (he : s'.core = s.core) : OversizeInv s'.pcb :=
  h.congr (congrArg (fun c : Core => (c.unsentOversize, c.unsent, c.unacked)) he)

end OversizeInv

/-! ## `tcp_write` -/

/-- Phases 1 and 2. `bump` is the spare room of the new pbuf. -/
structure Placing (pcb pcb' : Pcb) (arg : List Byte) (t : TailPlan) : Prop where
  small : t.oversize ≤ TCP_OVERSIZE
  empty : pcb.unsent = [] → pcb' = pcb ∧ t.oversizeUsed = 0 ∧ t.concatP = none ∧ t.oversize = 0
  snoc {init : List TcpSeg} {last : TcpSeg} : pcb.unsent = init ++ [last] → ∃ bump,
    pcb' = { pcb with unsent := init ++ [{ last with oversizeLeft := last.oversizeLeft + bump }] } ∧
    t.oversize + t.oversizeUsed = last.oversizeLeft + bump ∧ t.oversizeUsed ≤ last.oversizeLeft ∧
    (t.pos < arg.length → bump = 0) ∧
    (t.concatP = none → bump = 0) ∧ ∀ q ∈ t.concatP, q.spare = t.oversize

theorem tcpPbufPrealloc_small {data : List Byte} {maxLength : ℕ} {more firstSeg : Bool} {q : Pbuf}
    (h : tcpPbufPrealloc s data maxLength more firstSeg = (some q, s')) :
    q.spare ≤ TCP_OVERSIZE := by
  unfold tcpPbufPrealloc at h
  dsimp only at h
  split at h
  · cases h
  · cases h
    dsimp only
    split <;> omega

theorem tcpWriteTail_placing {arg : List Byte} {copy more : Bool} {mssLocal : ℕ}
    {x : Option TailPlan} (hI : OversizeInv s.pcb)
    (h : tcpWriteTail s arg copy more mssLocal = .ok (x, s')) :
    (x = none → s'.pcb = s.pcb) ∧ ∀ t ∈ x, Placing s.pcb s'.pcb arg t := by
  have hsmall := hI.small
  have h2 := tcp_oversize_small
  unfold tcpWriteTail at h
  split at h
  · next hnil =>
    have hnil := List.getLast?_eq_none_iff.mp hnil
    obtain ⟨_, -, h⟩ := Run.bind_eq_ok.mp h
    cases h
    refine ⟨nofun, fun t ht => ?_⟩
    cases ht
    exact ⟨Nat.zero_le _, fun _ => ⟨rfl, rfl, rfl, rfl⟩, fun hu => absurd (hnil.symm.trans hu) (by simp)⟩
  next last hlast =>
  obtain ⟨_, -, h⟩ := Run.bind_eq_ok.mp h
  obtain ⟨_, hover, h⟩ := Run.bind_eq_ok.mp h
  obtain ⟨_, -, h⟩ := Run.bind_eq_ok.mp h
  obtain ⟨init, hinit⟩ : ∃ init, s.pcb.unsent = init ++ [last] := List.getLast?_eq_some_iff.mp hlast
  have hover : last.oversizeLeft = s.pcb.unsentOversize := (lwipAssert_ok hover).symm
  have hne (he : s.pcb.unsent = []) : False := by
    rw [hinit] at he
    simp at he
  have hplace {x : TailPlan} {pcb' : Pcb} (hs : x.oversize ≤ TCP_OVERSIZE)
      (hb : ∃ bump, pcb' = { s.pcb with
          unsent := init ++ [{ last with oversizeLeft := last.oversizeLeft + bump }] } ∧
        x.oversize + x.oversizeUsed = last.oversizeLeft + bump ∧ x.oversizeUsed ≤ last.oversizeLeft ∧
        (x.pos < arg.length → bump = 0) ∧ (x.concatP = none → bump = 0) ∧
        ∀ q ∈ x.concatP, q.spare = x.oversize) : Placing s.pcb pcb' arg x := by
    refine ⟨hs, fun he => (hne he).elim, fun hu => ?_⟩
    rw [hinit] at hu
    obtain ⟨rfl, h2⟩ := List.append_inj' hu rfl
    obtain rfl := (List.cons.inj h2).1
    exact hb
  have hkeep : s.pcb = { s.pcb with
      unsent := init ++ [{ last with oversizeLeft := last.oversizeLeft + 0 }] } := by
    show s.pcb = { s.pcb with unsent := init ++ [last] }
    rw [← hinit]
  dsimp only at h
  generalize u16 (mssLocal - (last.len + last.optlen) + 65536 -
    min s.pcb.unsentOversize arg.length) = space at h
  split at h
  · next hc =>
    have hused : min s.pcb.unsentOversize arg.length = s.pcb.unsentOversize := by omega
    rw [hused] at h
    split at h
    · split at h
      · next e =>
        cases h
        exact ⟨fun _ => (tcpPbufPrealloc_spec e).1, by simp⟩
      · next q s₁ e =>
        cases h
        refine ⟨nofun, fun t ht => ?_⟩
        cases ht
        obtain ⟨hp, hd⟩ := tcpPbufPrealloc_spec e
        have hpay := (hd q rfl).1
        have hq := tcpPbufPrealloc_small e
        have hbump : u16 (last.oversizeLeft + q.spare) = last.oversizeLeft + q.spare :=
          u16_of_lt (by omega)
        refine hplace hq ⟨q.spare, ?_, ?_, hover.ge, ?_, nofun, by simp⟩
        · rw [hp, hinit, modifyLast_append_singleton, hbump]
        · show q.spare + s.pcb.unsentOversize = _
          omega
        · -- the rest did not fit behind the segment: no room is left behind the new pbuf
          intro hlt
          apply tcpPbufPrealloc_spare e
          have hlt : s.pcb.unsentOversize + q.payload.length < arg.length := hlt
          rw [hpay] at hlt
          simp only [List.length_take, List.length_drop] at hlt ⊢
          omega
    · split at h
      · cases h
        exact ⟨fun _ => rfl, by simp⟩
      · cases h
        refine ⟨nofun, fun t ht => ?_⟩
        cases ht
        refine hplace (by simp) ⟨0, hkeep, ?_, hover.ge, fun _ => rfl, fun _ => rfl, by simp⟩
        simp [hover]
  · cases h
    refine ⟨nofun, fun t ht => ?_⟩
    cases ht
    refine hplace ?_ ⟨0, hkeep, ?_, ?_, fun _ => rfl, fun _ => rfl, by simp⟩
    · show s.pcb.unsentOversize - _ ≤ _
      omega
    · show s.pcb.unsentOversize - min s.pcb.unsentOversize arg.length +
        min s.pcb.unsentOversize arg.length = _
      omega
    · show min s.pcb.unsentOversize arg.length ≤ _
      omega

/-! ### Phase 3 -/

/-- The new segments say what is behind them. -/
theorem tcpWriteQueue_oversized {arg : List Byte} {copy more : Bool} {mssLocal fuel : ℕ}
    {pos oversize queuelen oversize' queuelen' : ℕ} {queue queue' : List TcpSeg}
    (hq : ∀ seg ∈ queue.getLast?, oversize = seg.oversizeLeft ∧ oversize ≤ spareOf seg.p)
    (ho : oversize ≤ TCP_OVERSIZE)
    (h : tcpWriteQueue arg copy more mssLocal fuel s pos oversize queuelen queue =
      .ok (some (oversize', queuelen', queue'), s')) :
    (∀ seg ∈ queue'.getLast?, oversize' = seg.oversizeLeft ∧ oversize' ≤ spareOf seg.p) ∧
      oversize' ≤ TCP_OVERSIZE ∧ (queue' = [] → queue = [] ∧ oversize' = oversize) := by
  induction fuel generalizing s pos oversize queuelen queue with
  | zero => cases h
  | succ fuel ih =>
    rw [tcpWriteQueue] at h
    split at h
    · obtain ⟨⟨y, s₁⟩, h₁, h⟩ := Run.bind_eq_ok.mp h
      cases y with
      | none => cases h
      | some x =>
        obtain ⟨p, o⟩ := x
        have hchain : o ≤ spareOf p ∧ o ≤ TCP_OVERSIZE := by
          unfold tcpWriteChain at h₁
          split at h₁
          · split at h₁
            · cases h₁
            · next q s₂ e =>
              cases h₁
              exact ⟨le_rfl, tcpPbufPrealloc_small e⟩
          · obtain ⟨_, ha, h₁⟩ := Run.bind_eq_ok.mp h₁
            have ha := lwipAssert_ok ha
            dsimp only at h₁
            split at h₁
            · cases h₁
            · split at h₁
              · cases h₁
              · cases h₁
                exact ⟨by omega, ho⟩
        dsimp only at h
        split at h
        · cases h
        split at h
        · cases h
        · next seg s₂ e =>
          have hseg : seg.p = p := by
            rw [(tcpCreateSegment_spec e).2 seg rfl]
            rfl
          have hlast : ∀ x ∈ (queue ++ [{ seg with oversizeLeft := o }]).getLast?,
              o = x.oversizeLeft ∧ o ≤ spareOf x.p := by
            intro x hx
            rw [List.getLast?_concat] at hx
            obtain rfl := Option.mem_some.mp hx
            refine ⟨rfl, ?_⟩
            show o ≤ spareOf seg.p
            rw [hseg]
            exact hchain.1
          obtain ⟨h1, h2, h3⟩ := ih hlast hchain.2 h
          exact ⟨h1, h2, fun hnil => absurd (h3 hnil).1 (by simp)⟩
    · cases h
      exact ⟨hq, ho, fun hnil => ⟨hnil, rfl⟩⟩

theorem tcpWriteQueue_memerr {arg : List Byte} {copy more : Bool} {mssLocal fuel : ℕ}
    {pos oversize queuelen : ℕ} {queue : List TcpSeg}
    (h : tcpWriteQueue arg copy more mssLocal (fuel + 1) s pos oversize queuelen queue =
      .ok (none, s')) : pos < arg.length := by
  rw [tcpWriteQueue] at h
  split at h
  · next hpos => exact hpos
  · cases h

/-! ### The commit -/

theorem spareOf_modifyLast {p : List Pbuf} {used : List Byte} {n : ℕ} (h : n + used.length ≤ spareOf p) :
    n ≤ spareOf (modifyLast
      (fun q => { payload := q.payload ++ used, spare := q.spare - used.length }) p) := by
  rcases eq_nil_or_snoc p with rfl | ⟨init, q, rfl⟩
  · have h : n + used.length ≤ 0 := h
    omega
  · rw [modifyLast_append_singleton, spareOf_snoc]
    rw [spareOf_snoc] at h
    dsimp only
    omega

/-- The last segment behind phases 1 and 2. -/
theorem Placing.commit {pcb pcb' : Pcb} {arg : List Byte} {t : TailPlan} {init : List TcpSeg}
    {last : TcpSeg} (h : Placing pcb pcb' arg t) (hp : Oversized pcb.unsentOversize pcb.unsent)
    (hu : pcb.unsent = init ++ [last]) (hused : t.oversizeUsed ≤ arg.length) : ∃ last₁,
      pcb' = { pcb with unsent := init ++ [last₁] } ∧
      t.oversize = (t.commit arg last₁).oversizeLeft ∧ t.oversize ≤ spareOf (t.commit arg last₁).p := by
  obtain ⟨bump, hpcb, hsum, hle, -, hb, hq⟩ := h.snoc hu
  rw [hu, oversized_snoc] at hp
  refine ⟨_, hpcb, ?_⟩
  have htake : (arg.take t.oversizeUsed).length = t.oversizeUsed := by
    rw [List.length_take]
    omega
  cases hc : t.concatP with
  | none =>
    have hb := hb hc
    unfold TailPlan.commit
    rw [hc]
    dsimp only
    split
    · refine ⟨?_, spareOf_modifyLast ?_⟩
      · show _ = last.oversizeLeft + bump - (arg.take t.oversizeUsed).length
        omega
      · show t.oversize + _ ≤ spareOf last.p
        omega
    · show _ = last.oversizeLeft + bump ∧ _ ≤ spareOf last.p
      omega
  | some q =>
    have hq := hq q hc
    unfold TailPlan.commit
    rw [hc]
    dsimp only
    split
    · refine ⟨?_, ?_⟩
      · show _ = last.oversizeLeft + bump - (arg.take t.oversizeUsed).length
        omega
      · show _ ≤ spareOf (_ ++ [q])
        rw [spareOf_snoc, hq]
    · refine ⟨?_, ?_⟩
      · show _ = last.oversizeLeft + bump
        omega
      · show _ ≤ spareOf (_ ++ [q])
        rw [spareOf_snoc, hq]

/-- The PSH flag says nothing about the room. -/
theorem Oversized.sameUnpsh {oversize : ℕ} {q q' : List TcpSeg} (h : Oversized oversize q)
    (hs : SameUnpsh q q') : Oversized oversize q' := by
  have hm := hs.map (fun x => (x.oversizeLeft, spareOf x.p)) fun _ => rfl
  constructor
  · intro hq
    apply h.empty
    rw [hq] at hm
    exact List.map_eq_nil_iff.mp hm.symm
  · intro seg hseg
    have hl : (q.map fun x => (x.oversizeLeft, spareOf x.p)).getLast? =
        some (seg.oversizeLeft, spareOf seg.p) := by
      rw [← hm, List.getLast?_map, Option.mem_def.mp hseg]
      rfl
    rw [List.getLast?_map] at hl
    obtain ⟨seg₀, h₀, he⟩ := Option.map_eq_some_iff.mp hl
    obtain ⟨he₁, he₂⟩ := Prod.mk.inj he
    rw [← he₁, ← he₂]
    exact h.last seg₀ h₀

theorem OversizeInv.tcpWrite {arg : List Byte} {copy more : Bool} {err : Err} (hI : OversizeInv s.pcb)
    (h : Rudp.tcpWrite s arg copy more = .ok (err, s')) : OversizeInv s'.pcb := by
  obtain ⟨⟨err₁, s₁⟩, h₁, h⟩ := Run.bind_eq_ok.mp h
  dsimp only at h
  rcases tcpWriteChecks_spec h₁ with ⟨herr, hp₁⟩ | ⟨rfl, rfl, -, -⟩
  · rw [if_pos herr] at h
    cases h
    rcases hp₁ with hp₁ | hp₁
    · exact hI.congr (by rw [hp₁])
    · exact hI.congr (by rw [hp₁]; rfl)
  rw [if_neg (by simp)] at h
  obtain ⟨⟨x, s₂⟩, h₂, h⟩ := Run.bind_eq_ok.mp h
  obtain ⟨hnone, hplace⟩ := tcpWriteTail_placing hI h₂
  have hfail {t : St W} (ht : t.pcb = s₁.pcb) (hr : tcpWriteMemerr t = .ok (err, s')) :
      OversizeInv s'.pcb := by
    obtain ⟨-, hp'⟩ := tcpWriteMemerr_spec hr
    exact hI.congr (by rw [hp', ht]; rfl)
  cases x with
  | none => exact hfail (hnone rfl) h
  | some t =>
    have ht := hplace t rfl
    obtain ⟨⟨y, s₃⟩, h₃, h⟩ := Run.bind_eq_ok.mp h
    have hp₃ := tcpWriteQueue_pcb h₃
    cases y with
    | none =>
      -- no bytes are left when phase 2 makes spare room
      refine hfail (hp₃.trans ?_) h
      have hpos := tcpWriteQueue_memerr h₃
      rcases eq_nil_or_snoc s₁.pcb.unsent with hu | ⟨init, last, hu⟩
      · exact (ht.empty hu).1
      · obtain ⟨bump, hp₂, -, -, hz, -⟩ := ht.snoc hu
        rw [hp₂, hz hpos, add_zero, ← hu]
    | some y =>
      obtain ⟨oversize, queuelen, queue⟩ := y
      obtain ⟨hlast, hsmall, hnil⟩ := tcpWriteQueue_oversized (by simp) ht.small h₃
      obtain ⟨-, hpcb, hnil', hsnoc⟩ := tcpWriteCommit_exact h
      rw [hp₃] at hpcb hnil' hsnoc
      have hun : s₂.pcb.unacked = s₁.pcb.unacked := by
        rcases eq_nil_or_snoc s₁.pcb.unsent with hu | ⟨init, last, hu⟩
        · rw [(ht.empty hu).1]
        · obtain ⟨bump, hp₂, -⟩ := ht.snoc hu
          rw [hp₂]
      have hover : s'.pcb.unsentOversize = oversize := by rw [hpcb]
      have hua : s'.pcb.unacked = s₂.pcb.unacked := by rw [hpcb]
      refine .of_eq (o := oversize) (q := s'.pcb.unsent) (r := s₁.pcb.unacked) ?_ ?_ hI.unacked hsmall
      · unfold Pcb.oversizes
        rw [hover, hua, hun]
      rcases eq_nil_or_snoc s₁.pcb.unsent with hu | ⟨init, last, hu⟩
      · obtain ⟨hp₂, -, -, hzero⟩ := ht.empty hu
        rw [hp₂] at hnil'
        refine Oversized.sameUnpsh ⟨fun hq => ?_, hlast⟩ (hnil' hu)
        rw [(hnil hq).2, hzero]
      · have hused : t.oversizeUsed ≤ arg.length := by
          rcases tcpWriteTail_spec h₂ with ⟨hu', -⟩ | ⟨init', last', b, -, -, -, -, hz⟩
          · rw [hu] at hu'
            simp at hu'
          · exact (hz t rfl).1
        obtain ⟨last₁, hp₂, hroom⟩ := ht.commit hI.unsent hu hused
        rw [hp₂] at hsnoc
        obtain ⟨new, hnew, hs⟩ := hsnoc init last₁ rfl
        rw [hnew]
        have hq : Oversized oversize (t.commit arg last₁ :: queue) := by
          rcases eq_nil_or_snoc queue with rfl | ⟨qs, x, rfl⟩
          · rw [(hnil rfl).2]
            exact (oversized_snoc (q := [])).mpr hroom
          · rw [← List.cons_append, oversized_snoc]
            exact hlast x (by rw [List.getLast?_concat]; rfl)
        have hnew := hq.sameUnpsh hs
        rcases eq_nil_or_snoc new with rfl | ⟨ns, x, rfl⟩
        · simp [SameUnpsh] at hs
        · rw [← List.append_assoc, oversized_snoc]
          exact oversized_snoc.mp hnew

/-! ## SYN and FIN -/

theorem oversizes_tcpEnqueueFlags {flags : TcpFlags} {err : Err}
    (h : tcpEnqueueFlags s flags = .ok (err, s')) :
    s'.pcb.oversizes = s.pcb.oversizes ∨ ∃ seg : TcpSeg, seg.oversizeLeft = 0 ∧
      s'.pcb.oversizes = (0, s.pcb.unsent ++ [seg], s.pcb.unacked) := by
  obtain ⟨_, -, h⟩ := Run.bind_eq_ok.mp h
  dsimp only at h
  split at h
  · cases h
    exact .inl rfl
  split at h
  · cases h
    exact .inl rfl
  split at h
  · cases h
    exact .inl rfl
  split at h
  · next e =>
    cases h
    exact .inl ((congrArg (fun q => Pcb.oversizes q) (tcpCreateSegment_spec e).1).trans rfl)
  · next seg s₁ e =>
    obtain ⟨_, -, h⟩ := Run.bind_eq_ok.mp h
    have hp : s₁.pcb = s.pcb := (tcpCreateSegment_spec e).1
    have hseg := (tcpCreateSegment_spec e).2 seg rfl
    cases h
    refine .inr ⟨seg, by rw [hseg]; rfl, ?_⟩
    show (0, s₁.pcb.unsent ++ [seg], s₁.pcb.unacked) = _
    rw [hp]

theorem OversizeInv.tcpEnqueueFlags {flags : TcpFlags} {err : Err} (hI : OversizeInv s.pcb)
    (h : Rudp.tcpEnqueueFlags s flags = .ok (err, s')) : OversizeInv s'.pcb := by
  rcases oversizes_tcpEnqueueFlags h with he | ⟨seg, hseg, he⟩
  · exact hI.congr he
  · refine .of_eq he ?_ hI.unacked (Nat.zero_le _)
    rw [oversized_snoc, hseg]
    exact ⟨rfl, Nat.zero_le _⟩

theorem OversizeInv.tcpSendFin {err : Err} (hI : OversizeInv s.pcb)
    (h : Rudp.tcpSendFin s = .ok (err, s')) : OversizeInv s'.pcb := by
  unfold Rudp.tcpSendFin at h
  split at h
  · next last hl =>
    split at h
    · cases h
      obtain ⟨init, hu⟩ := List.getLast?_eq_some_iff.mp hl
      refine .of_eq rfl ?_ hI.unacked hI.small
      have ht := hI.unsent
      show Oversized s.pcb.unsentOversize (modifyLast TcpSeg.setFin s.pcb.unsent)
      rw [hu] at ht ⊢
      rw [modifyLast_append_singleton, oversized_snoc]
      rw [oversized_snoc] at ht
      exact ht
    · exact hI.tcpEnqueueFlags h
  · exact hI.tcpEnqueueFlags h

/-! ## Retransmissions -/

theorem OversizeInv.tcpRexmit (hI : OversizeInv s.pcb) : OversizeInv (Rudp.tcpRexmit s).pcb := by
  unfold Rudp.tcpRexmit
  split
  · exact hI
  next seg rest hu =>
  have hseg : seg.oversizeLeft = 0 := hI.unacked seg (by simp [hu])
  refine .of_eq rfl ?_ (fun x hx => hI.unacked x (by simp [hu, hx])) ?_
  · split
    · next hlast =>
      rw [insertSeg_last hlast, oversized_snoc, hseg]
      exact ⟨rfl, Nat.zero_le _⟩
    · next hlast =>
      refine hI.unsent.congr (fun hnil => ?_) (getLast_insertSeg hlast)
      have hlen := (perm_insertSeg seg s.pcb.unsent).length_eq
      have hnil : insertSeg seg s.pcb.unsent = [] := hnil
      rw [hnil] at hlen
      simp at hlen
  · dsimp only
    split
    · exact Nat.zero_le _
    · exact hI.small

/-! ## Acknowledgments -/

theorem oversizes_cwndAck (pcb : Pcb) : (cwndAck pcb).oversizes = pcb.oversizes := by
  unfold cwndAck cwndInflate
  dsimp only
  split_ifs <;> rfl

theorem oversizes_tcpReceiveFree {next : TcpSeg} (h : tcpReceiveFree s next = .ok s') :
    s'.pcb.oversizes = s.pcb.oversizes := by
  obtain ⟨n, -, hp⟩ := tcpReceiveFree_spec h
  rw [hp]
  rfl

theorem OversizeInv.tcpReceiveNewAck {ackno : U32} (hI : OversizeInv s.pcb)
    (h : Rudp.tcpReceiveNewAck s ackno = .ok s') : OversizeInv s'.pcb := by
  obtain ⟨s₁, h₁, h⟩ := Run.bind_eq_ok.mp h
  cases h
  generalize hp : (if s.pcb.tfInfr then
    ({ s.pcb with tfInfr := false, cwnd := s.pcb.ssthresh } : Pcb) else s.pcb) = pcb at h₁
  have hpq : pcb.oversizes = s.pcb.oversizes := by
    rw [← hp]
    split <;> rfl
  dsimp only at h₁
  generalize hp₂ : cwndAck { pcb with
      nrtx := 0, rto := s16 (pcb.sa / 8 + pcb.sv), acked := u16 (ackno - pcb.lastack).toNat
      sndBuf := u16 (pcb.sndBuf + u16 (ackno - pcb.lastack).toNat), dupacks := 0,
      lastack := ackno } = pcb₂ at h₁
  have hpq₂ : pcb₂.oversizes = s.pcb.oversizes := by
    rw [← hp₂, oversizes_cwndAck]
    exact hpq
  have hua : pcb₂.unacked = pcb.unacked :=
    congrArg (fun r => r.2.2) (hpq₂.trans hpq.symm)
  obtain ⟨n, -, hp₁⟩ := tcpReceiveUnacked_spec (s := { s with pcb := pcb₂ }) hua h₁
  have hI₂ : OversizeInv pcb₂ := hI.congr hpq₂
  refine .of_eq (by rw [hp₁]; rfl) hI₂.unsent (fun x hx => ?_) hI₂.small
  rw [← hua] at hx
  exact hI₂.unacked x ((unackedFrom_suffix _ _).subset hx)

theorem OversizeInv.tcpReceiveUnsent {ackno : U32} {q : List TcpSeg} (hI : OversizeInv s.pcb)
    (hq : s.pcb.unsent = q) (h : Rudp.tcpReceiveUnsent ackno q s = .ok s') :
    OversizeInv s'.pcb := by
  induction q generalizing s with
  | nil =>
    cases h
    exact hI
  | cons next rest ih =>
    rw [Rudp.tcpReceiveUnsent] at h
    split at h
    · obtain ⟨s₁, h₁, h⟩ := Run.bind_eq_ok.mp h
      have he := oversizes_tcpReceiveFree h₁
      have ht := hI.unsent
      rw [hq] at ht
      have hI₁ : OversizeInv s₁.pcb := by
        refine .of_eq he ?_ hI.unacked ?_
        · split
          · next hnil =>
            rw [hnil]
            exact .nil
          · next hne => exact ht.tail.resolve_left hne
        · dsimp only
          split
          · exact Nat.zero_le _
          · exact hI.small
      exact ih hI₁ (congrArg (fun r => r.2.1) he) h
    · cases h
      exact hI

/-- A duplicate ACK retransmits or leaves the queues alone. -/
theorem OversizeInv.tcpReceiveDupack {seg : InSegment} {edge : U32} (hI : OversizeInv s.pcb) :
    OversizeInv (Rudp.tcpReceiveDupack s seg edge).pcb := by
  unfold Rudp.tcpReceiveDupack
  dsimp only
  split
  · generalize hs₁ : (if u8 (s.pcb.dupacks + 1) > s.pcb.dupacks then
      ({ s with pcb.acked := 0, pcb.dupacks := s.pcb.dupacks + 1 } : St W)
      else { s with pcb.acked := 0 }) = s₁
    have hI₁ : OversizeInv s₁.pcb := by
      rw [← hs₁]
      split <;> exact hI.congr rfl
    split
    · refine hI₁.congr ?_
      unfold cwndInflate
      split <;> rfl
    split
    · unfold tcpRexmitFast
      split
      · exact hI₁.tcpRexmit.congr rfl
      · exact hI₁
    · exact hI₁
  · exact hI.congr rfl

theorem OversizeInv.tcpReceiveAck {seg : InSegment} (hI : OversizeInv s.pcb)
    (h : Rudp.tcpReceiveAck s seg = .ok s') : OversizeInv s'.pcb := by
  obtain ⟨s₁, h₁, h⟩ := Run.bind_eq_ok.mp h
  obtain ⟨s₂, h₂, h⟩ := Run.bind_eq_ok.mp h
  cases h
  have hIw : OversizeInv (tcpReceiveWindow s.pcb seg) := by
    refine hI.congr ?_
    unfold tcpReceiveWindow
    split <;> rfl
  have hI₁ : OversizeInv s₁.pcb := by
    unfold tcpReceiveAckno at h₁
    split at h₁
    · cases h₁
      exact OversizeInv.tcpReceiveDupack (s := { s with pcb := tcpReceiveWindow s.pcb seg }) hIw
    split at h₁
    · exact OversizeInv.tcpReceiveNewAck (s := { s with pcb := tcpReceiveWindow s.pcb seg }) hIw h₁
    · cases h₁
      exact OversizeInv.of_core (s := { s with pcb := { tcpReceiveWindow s.pcb seg with acked := 0 } })
        (hIw.congr rfl) (core_tcpSendEmptyAck _)
  have hI₂ := hI₁.tcpReceiveUnsent rfl h₂
  refine hI₂.congr ?_
  unfold tcpReceiveRtt
  split <;> rfl

theorem OversizeInv.purge {pcb : Pcb} (h : OversizeInv pcb) : OversizeInv (tcpPcbPurge pcb) := by
  unfold tcpPcbPurge
  split
  · exact .of_eq rfl .nil (by simp) (Nat.zero_le _)
  · exact h

theorem OversizeInv.after {state : TcpState} {seg : InSegment} (h : OversizeInv s.pcb) :
    OversizeInv (tcpProcessAfter state seg s).pcb := by
  have htw (t : St W) (ht : OversizeInv t.pcb) : OversizeInv (toTimeWait t).pcb := ht.purge.congr rfl
  unfold tcpProcessAfter
  dsimp only
  split
  · split <;> exact h.congr rfl
  · split <;> exact h.congr rfl
  · split
    · split
      · exact htw _ (h.congr rfl)
      · exact h.congr rfl
    · split <;> exact h.congr rfl
  · split
    · exact htw _ (h.congr rfl)
    · exact h
  · split
    · exact htw _ h
    · exact h
  · split <;> exact h.congr rfl
  · exact h

/-- `tcp_receive` and what `tcp_process` does behind it. -/
theorem OversizeInv.processReceive {seg : InSegment} {after : St W → St W} (hI : OversizeInv s.pcb)
    (hafter : ∀ t : St W, OversizeInv t.pcb → OversizeInv (after t).pcb)
    (h : tcpProcessReceive s seg after = .ok s') : OversizeInv s'.pcb := by
  obtain ⟨-, s₁, s₂, h₁, -, h₂, rfl⟩ := processReceive_parts h
  have hI₁ : OversizeInv s₁.pcb := by
    rcases h₁ with ⟨-, h₁⟩ | ⟨-, rfl⟩
    · exact hI.tcpReceiveAck h₁
    · exact hI
  refine hafter s₂ (hI₁.congr ?_)
  exact congrArg (fun v : SndView => (v.unsentOversize, v.unsent, v.unacked))
    (sndView_tcpReceiveData h₂)

/-! ## `tcp_output` -/

/-- The loop of `tcp_output` comes to the last segment, behind which there is spare room, and
    `ip_output_if` fails. -/
def losesRoom : List TcpSeg → St W → Prop
  | [], _ => False
  | seg :: rest, s =>
    fitsWindow s.pcb seg ∧
      ¬ (tcpDoOutputNagle s.pcb = false ∧ s.pcb.tfNagleMemErr = false ∧ s.pcb.tfFin = false) ∧
      match tcpOutputSegment s (seg.prepare s.pcb) with
      | (err, seg', s') =>
        (err ≠ .ok ∧ rest = [] ∧ s.pcb.unsentOversize ≠ 0) ∨
          (err = .ok ∧ losesRoom rest (tcpOutputSent s' seg' rest))

/-- `tcp_output` loses the spare room of the last segment. -/
def LosesRoom (s : St W) : Prop :=
  s.inputPcb = false ∧
    ¬ (s.pcb.tfAckNow = true ∧ ∀ seg ∈ s.pcb.unsent.head?, ¬ fitsWindow s.pcb seg) ∧
    losesRoom s.pcb.unsent s

/-- `unsent_oversize` is cleared behind the loop. -/
structure OversizeLoop (pcb : Pcb) : Prop where
  unsent : pcb.unsent = [] ∨ Oversized pcb.unsentOversize pcb.unsent
  unacked : ∀ seg ∈ pcb.unacked, seg.oversizeLeft = 0
  small : pcb.unsentOversize ≤ TCP_OVERSIZE

theorem OversizeLoop.of_eq {pcb : Pcb} {o : ℕ} {q r : List TcpSeg} (h : pcb.oversizes = (o, q, r))
    (hq : q = [] ∨ Oversized o q) (hr : ∀ seg ∈ r, seg.oversizeLeft = 0) (ho : o ≤ TCP_OVERSIZE) :
    OversizeLoop pcb := by
  simp only [Pcb.oversizes, Prod.mk.injEq] at h
  obtain ⟨rfl, rfl, rfl⟩ := h
  exact ⟨hq, hr, ho⟩

theorem mem_putUnacked {seg x : TcpSeg} {q : List TcpSeg} (h : x ∈ putUnacked seg q) :
    x = seg ∨ x ∈ q := by
  have hp := (perm_putUnacked seg q).mem_iff.mp h
  simpa using hp

theorem OversizeLoop.tcpOutputLoop {q : List TcpSeg} {err : Err} (hq : s.pcb.unsent = q)
    (hI : OversizeLoop s.pcb) (hl : ¬ losesRoom q s)
    (h : Rudp.tcpOutputLoop q s = .ok (err, s')) :
    OversizeLoop s'.pcb ∧ (err ≠ .ok → s'.pcb.unsent ≠ []) := by
  induction q generalizing s with
  | nil =>
    cases h
    exact ⟨hI, fun hne => absurd rfl hne⟩
  | cons seg rest ih =>
    rw [Rudp.tcpOutputLoop] at h
    rw [losesRoom] at hl
    split at h
    · next hfit =>
      obtain ⟨_, -, h⟩ := Run.bind_eq_ok.mp h
      split at h
      · cases h
        exact ⟨hI, fun hne => absurd rfl hne⟩
      · next hnagle =>
        have hl := fun hm => hl ⟨hfit, hnagle, hm⟩
        have hroom := hI.unsent.resolve_left (by simp [hq])
        rw [hq] at hroom
        generalize hx : tcpOutputSegment s (seg.prepare s.pcb) = x at h hl
        obtain ⟨err', seg', s₁⟩ := x
        obtain ⟨hseg, -⟩ := tcpOutputSegment_eq hx
        have hzero : seg'.oversizeLeft = 0 := by
          rw [hseg]
          rfl
        dsimp only at h hl
        split at h
        · next hne =>
          cases h
          obtain ⟨-, hc⟩ := core_tcpOutputFail rest hx
          refine ⟨.of_eq (congrArg (fun c : Core => (c.unsentOversize, c.unsent, c.unacked)) hc)
            (.inr ?_) hI.unacked hI.small, fun _ => by simp⟩
          rcases eq_nil_or_snoc rest with rfl | ⟨init, last, rfl⟩
          · have hz : s.pcb.unsentOversize = 0 := by
              by_contra hz
              exact hl (.inl ⟨hne, rfl, hz⟩)
            refine (oversized_snoc (q := [])).mpr ⟨?_, ?_⟩
            · exact hz.trans hzero.symm
            · show s.pcb.unsentOversize ≤ _
              rw [hz]
              exact Nat.zero_le _
          · exact (oversized_snoc (q := seg' :: init)).mpr
              ((oversized_snoc (q := seg :: init)).mp hroom)
        · next hok =>
          have hok : err' = .ok := by simpa using hok
          subst hok
          obtain ⟨-, hc⟩ := core_tcpOutputSent rest hx
          refine ih ?_ ?_ (fun hm => hl (.inr ⟨rfl, hm⟩)) h
          · exact congrArg (fun c : Core => c.unsent) hc
          · refine .of_eq (congrArg (fun c : Core => (c.unsentOversize, c.unsent, c.unacked)) hc)
              hroom.tail (fun x hx => ?_) hI.small
            split at hx
            · rcases mem_putUnacked hx with rfl | hx
              · exact hzero
              · exact hI.unacked x hx
            · exact hI.unacked x hx
    · cases h
      exact ⟨hI, fun hne => absurd rfl hne⟩

theorem OversizeInv.tcpOutput {err : Err} (hI : OversizeInv s.pcb) (hl : ¬ LosesRoom s)
    (h : Rudp.tcpOutput s = .ok (err, s')) : OversizeInv s'.pcb := by
  unfold Rudp.tcpOutput at h
  split at h
  · cases h
    exact hI
  next hin =>
  split at h
  · have hs : (tcpSendEmptyAck s).2 = s' := congrArg Prod.snd (Except.ok.inj h)
    rw [← hs]
    exact hI.of_core (core_tcpSendEmptyAck s)
  next hack =>
  obtain ⟨⟨err', s₁⟩, h₁, h⟩ := Run.bind_eq_ok.mp h
  obtain ⟨hI₁, hne₁⟩ := OversizeLoop.tcpOutputLoop rfl ⟨.inr hI.unsent, hI.unacked, hI.small⟩
    (fun hm => hl ⟨by simpa using hin, hack, hm⟩) h₁
  dsimp only at h
  split at h
  · next hne =>
    cases h
    exact ⟨hI₁.unsent.resolve_left (hne₁ hne), hI₁.unacked, hI₁.small⟩
  · split at h
    · next hu =>
      cases h
      exact .of_eq rfl (by rw [hu]; exact .nil) hI₁.unacked (Nat.zero_le _)
    · next hu =>
      cases h
      exact .of_eq rfl (hI₁.unsent.resolve_left hu) hI₁.unacked hI₁.small

/-- The part of `tcp_rexmit_rto` in front of its call of `tcp_output`. -/
def St.requeue (s : St W) : St W :=
  { s with
    pcb.unsentOversize := if s.pcb.unsent = [] then
      (s.pcb.unacked.getLast?.map (·.oversizeLeft)).getD 0 else s.pcb.unsentOversize
    pcb.unsent := s.pcb.unacked ++ s.pcb.unsent
    pcb.unacked := []
    pcb.nrtx := u8 (s.pcb.nrtx + 1)
    pcb.rttest := 0 }

theorem OversizeInv.requeue (hI : OversizeInv s.pcb) (hne : s.pcb.unacked ≠ []) :
    OversizeInv s.requeue.pcb := by
  obtain ⟨init, last, hu⟩ := (eq_nil_or_snoc s.pcb.unacked).resolve_left hne
  have hlast : last.oversizeLeft = 0 := hI.unacked last (by simp [hu])
  have hzero : (s.pcb.unacked.getLast?.map (·.oversizeLeft)).getD 0 = 0 := by
    rw [hu, List.getLast?_concat]
    exact hlast
  have hq : s.requeue.pcb.oversizes = (if s.pcb.unsent = [] then 0 else s.pcb.unsentOversize,
      s.pcb.unacked ++ s.pcb.unsent, []) := by
    rw [← hzero]
    rfl
  by_cases hnil : s.pcb.unsent = []
  · rw [if_pos hnil] at hq
    refine .of_eq hq ?_ nofun (Nat.zero_le _)
    rw [hnil, List.append_nil, hu, oversized_snoc, hlast]
    exact ⟨rfl, Nat.zero_le _⟩
  · rw [if_neg hnil] at hq
    refine .of_eq hq ?_ nofun hI.small
    obtain ⟨us, x, e⟩ := (eq_nil_or_snoc s.pcb.unsent).resolve_left hnil
    have ht := hI.unsent
    rw [e] at ht ⊢
    rw [← List.append_assoc, oversized_snoc]
    rw [oversized_snoc] at ht
    exact ht

theorem tcpRexmitRto_requeue (h : tcpRexmitRto s = .ok s') :
    (s.pcb.unacked = [] ∧ s' = s) ∨
      (s.pcb.unacked ≠ [] ∧ ∃ err, tcpOutput s.requeue = .ok (err, s')) := by
  unfold tcpRexmitRto at h
  split at h
  · next hnil =>
    cases h
    exact .inl ⟨List.getLast?_eq_none_iff.mp hnil, rfl⟩
  · next seg hl =>
    obtain ⟨⟨err, s₁⟩, h₁, h⟩ := Run.bind_eq_ok.mp h
    cases h
    refine .inr ⟨fun hnil => ?_, err, ?_⟩
    · rw [hnil] at hl
      cases hl
    · unfold St.requeue
      rw [hl]
      exact h₁

/-! ## Runs -/

/-- A turn in which no `tcp_output` loses the spare room of the last segment. -/
def KeepsRoom (s s' : St W) : Prop :=
  Micro NoConnect (fun _ _ => True) s s' ∧ (∀ err, tcpOutput s = .ok (err, s') → ¬ LosesRoom s) ∧
    (tcpRexmitRto s = .ok s' → ¬ LosesRoom s.requeue)

/-- A call of `tcp_output`, or the one inside `tcp_rexmit_rto`, that loses it. -/
def LosesTurn (s s' : St W) : Prop :=
  (LosesRoom s ∧ ∃ err, tcpOutput s = .ok (err, s')) ∨ (LosesRoom s.requeue ∧ tcpRexmitRto s = .ok s')

theorem keepsRoom_or_loses (h : Micro NoConnect (fun _ _ => True) s s') :
    KeepsRoom s s' ∨ LosesTurn s s' := by
  by_cases hl : LosesTurn s s'
  · exact .inr hl
  · exact .inl ⟨h, fun err hr hs => hl (.inl ⟨hs, err, hr⟩), fun hr hs => hl (.inr ⟨hs, hr⟩)⟩

/-- A run is a sequence of turns that keep the room, up to the first call of `tcp_output` that loses
    it. -/
theorem keepsRoom_of_reach {app : App W} {s₀ : St W} (happ : AppOk NoConnect app)
    (hr : Run.Reach (connStep app) (Preserved.StepOk NoConnect (fun _ _ => True) app) s₀ s) :
    ReflTransGen KeepsRoom s₀ s ∨ ∃ t t', ReflTransGen KeepsRoom s₀ t ∧ LosesTurn t t' ∧
      ReflTransGen (Micro NoConnect fun _ _ => True) t' s := by
  have hm := micro_of_reach happ hr
  clear hr
  induction hm with
  | refl => exact .inl .refl
  | tail _ hturn ih =>
    rcases ih with hk | ⟨t, t', hk, hl, hm⟩
    · rcases keepsRoom_or_loses hturn with h | h
      · exact .inl (hk.tail h)
      · exact .inr ⟨_, _, hk, h, .refl⟩
    · exact .inr ⟨t, t', hk, hl, hm.tail hturn⟩

/-- The invariant, while the pcb is on the active list. -/
def OversizeActive (s : St W) : Prop := s.list = .active → OversizeInv s.pcb

theorem OversizeActive.turn (hI : OversizeActive s) (h : KeepsRoom s s') : OversizeActive s' := by
  obtain ⟨hm, hout, hrto⟩ := h
  intro hl
  replace hI := hI (hm.active hl)
  cases hm with
  | frame hc hl' => exact hI.of_core hc
  | callback ho => exact hI
  | connect hP hr => exact hP.elim
  | write hP hr =>
    have hI' := hI.tcpWrite hr
    split <;> exact hI'
  | recved hP hw => exact hI.congr rfl
  | fin hP ha hst hr =>
    have hI' := hI.tcpSendFin hr
    split
    · exact hI'.congr rfl
    · exact hI'
  | output hr => exact hI.tcpOutput (hout _ hr) hr
  | rexmit hst => exact hI.tcpRexmit
  | rcvWndFin =>
    refine hI.congr ?_
    unfold rcvWndFin
    split <;> rfl
  | mss h0 hle => exact hI.congr rfl
  | establish hst hu hq ha =>
    refine .of_eq rfl hI.unsent (fun x hx => hI.unacked x ?_) hI.small
    rw [hu]
    exact List.mem_cons_of_mem _ hx
  | accept hst hb => exact hI.congr rfl
  | receive hs hQ hr => exact hI.processReceive (fun _ ht => ht.after) hr
  | receiveAccept hQ hr =>
    refine hI.processReceive (fun t ht => ?_) hr
    unfold tcpProcessAcceptAfter
    dsimp only
    split <;> exact ht.congr rfl
  | purge hn => exact absurd hl hn
  | timeWait _ hn => exact absurd hl hn
  | closed hn => exact absurd hl hn
  | clear hn => exact absurd hl hn
  | ooseq => exact hI.congr rfl
  | rexmitRto hr =>
    rcases tcpRexmitRto_requeue hr with ⟨-, rfl⟩ | ⟨hne, err, h⟩
    · exact hI
    · exact (hI.requeue hne).tcpOutput (hrto hr) h
  | probe =>
    obtain ⟨log, hc, -⟩ := probe_core s
    exact hI.congr (congrArg (fun c : Core => (c.unsentOversize, c.unsent, c.unacked)) hc)

/-! ### The start -/

theorem OversizeInv.of_idle {pcb : Pcb} (h : pcb.oversizes = (0, [], [])) : OversizeInv pcb :=
  .of_eq h .nil nofun (Nat.zero_le _)

theorem not_losesRoom {q : List TcpSeg} (h : s.pcb.unsentOversize = 0) : ¬ losesRoom q s := by
  induction q generalizing s with
  | nil => exact id
  | cons seg rest ih =>
    rintro ⟨-, -, hm⟩
    generalize hx : tcpOutputSegment s (seg.prepare s.pcb) = x at hm
    obtain ⟨err, seg', s₁⟩ := x
    rcases hm with ⟨-, -, hne⟩ | ⟨rfl, hm⟩
    · exact hne h
    · obtain ⟨-, hc⟩ := core_tcpOutputSent rest hx
      have hz : (tcpOutputSent s₁ seg' rest).pcb.unsentOversize = s.pcb.unsentOversize :=
        congrArg (fun c : Core => c.unsentOversize) hc
      exact ih (hz.trans h) hm

/-- The SYN of an idle pcb is queued and given to `tcp_output`. -/
theorem OversizeInv.opening {flags : TcpFlags} {err err' : Err} {t u : St W}
    (hs : s.pcb.oversizes = (0, [], [])) (h : Rudp.tcpEnqueueFlags s flags = .ok (err, t))
    (hu : u.pcb.oversizes = t.pcb.oversizes) (ho : Rudp.tcpOutput u = .ok (err', s')) :
    OversizeInv s'.pcb := by
  have hz : u.pcb.unsentOversize = 0 := by
    rcases oversizes_tcpEnqueueFlags h with he | ⟨seg, -, he⟩
    · exact congrArg Prod.fst (hu.trans (he.trans hs))
    · exact congrArg Prod.fst (hu.trans he)
  have ht : OversizeInv t.pcb := (OversizeInv.of_idle hs).tcpEnqueueFlags h
  exact (ht.congr hu).tcpOutput (fun hl => not_losesRoom hz hl.2.2) ho

theorem Begun.oversizeInv (h : Begun s) : OversizeInv s.pcb := by
  cases h with
  | @connect a _ newPort iss ha hr =>
    obtain ⟨⟨prio, iss₀, ticks, port, hp⟩, -⟩ := ha
    obtain ⟨port', s₁, t, err, h₁, -, hps, h₂⟩ := tcpConnect_spec hr
    refine OversizeInv.opening ?_ h₁ (by rw [hps]; rfl) h₂
    rw [hp]
    rfl
  | @listen a _ err seg localPort serverId ha hr hf =>
    obtain ⟨t, h₁, h₂⟩ := tcpListenSynAck_spec hr hf
    obtain ⟨-, prio, iss, ticks, mss, -, -, hp⟩ := tcpListenPcb_spec ha seg localPort serverId
    refine OversizeInv.opening ?_ h₁ rfl h₂
    rw [hp]
    rfl

/-! ### The assertions -/

/-- The assertions of `tcp_write` on the two copies. -/
def mismatchMessages : List String :=
  ["unsent_oversize mismatch (pcb->unsent is NULL)", "unsent_oversize mismatch (pcb vs. last_unsent)"]

/-- Neither of them fails. -/
theorem OversizeInv.fails (hI : OversizeInv s.pcb) (arg : List Byte) (copy more : Bool) :
    Fails (fun e => ∀ m ∈ mismatchMessages, e ≠ .assert m) (Rudp.tcpWrite s arg copy more) := by
  have hother {m : String} {q : Prop} [Decidable q] (hm : m ∉ mismatchMessages) :
      Fails (fun e => ∀ m ∈ mismatchMessages, e ≠ .assert m) (lwipAssert m q) := by
    refine Fails.lwipAssert fun _ m' hm' he => ?_
    cases he
    exact hm hm'
  have hmem (t : St W) :
      Fails (fun e => ∀ m ∈ mismatchMessages, e ≠ .assert m) (tcpWriteMemerr t) :=
    .bind (hother (by simp [mismatchMessages])) fun _ _ => .ok _
  refine .bind ?_ fun x hx => ?_
  · unfold tcpWriteChecks
    split_ifs
    · exact .ok _
    · exact .ok _
    · exact .ok _
    · exact .ok _
    · exact .bind (hother (by simp [mismatchMessages])) fun _ _ => .ok _
    · exact .bind (hother (by simp [mismatchMessages])) fun _ _ => .ok _
  obtain ⟨err, s₁⟩ := x
  dsimp only
  split
  · exact .ok _
  next hok =>
  obtain rfl : s₁ = s := by
    rcases tcpWriteChecks_spec hx with ⟨herr, -⟩ | ⟨-, rfl, -, -⟩
    · exact absurd herr hok
    · rfl
  refine .bind ?_ fun y hy => ?_
  · unfold tcpWriteTail
    split
    · next hnil =>
      have hz := hI.unsent.empty (List.getLast?_eq_none_iff.mp hnil)
      exact .bind (Fails.lwipAssert fun hn => absurd hz hn) fun _ _ => .ok _
    next last hl =>
    refine .bind (hother (by simp [mismatchMessages])) fun _ _ => ?_
    refine .bind (Fails.lwipAssert fun hn => absurd (hI.unsent.last last hl).1 hn) fun _ _ => ?_
    refine .bind (hother (by simp [mismatchMessages])) fun _ _ => ?_
    dsimp only
    split
    · split
      · split <;> exact .ok _
      · split <;> exact .ok _
    · exact .ok _
  obtain ⟨y, s₂⟩ := y
  cases y with
  | none => exact hmem s₂
  | some t =>
    refine .bind (fails_tcpWriteQueue ?_ _ _ _ _ _ _ _ _ _ _) fun z hz => ?_
    · intro m hm he
      cases he
      simp [mismatchMessages] at hm
    · obtain ⟨z, s₃⟩ := z
      cases z with
      | none => exact hmem s₃
      | some z =>
        obtain ⟨oversize, queuelen, queue⟩ := z
        refine .bind (hother (by simp [mismatchMessages])) fun _ _ => ?_
        refine .bind (hother (by simp [mismatchMessages])) fun _ _ => ?_
        split <;> exact .ok _

/-- The two copies agree: `unsent_oversize` is what the last segment of `unsent` says, that many
    bytes are spare behind it, and the assertions on the two do not fail. -/
structure OversizeSound (s : St W) : Prop where
  empty : s.pcb.unsent = [] → s.pcb.unsentOversize = 0
  last : ∀ last ∈ s.pcb.unsent.getLast?, s.pcb.unsentOversize = last.oversizeLeft ∧
    s.pcb.unsentOversize ≤ spareOf last.p ∧ ∀ len, min s.pcb.unsentOversize len ≤ spareOf last.p
  write : ∀ arg copy more, ∀ m ∈ mismatchMessages, tcpWrite s arg copy more ≠ .error (.assert m)

/-- In every run (a sequence of turns, `micro_of_reach`) in which no `tcp_output` loses the spare room
    behind the last segment, the two copies agree, as long as the pcb is on the active list. -/
theorem oversize_consistent {s₀ : St W} (h₀ : Begun s₀) (hr : ReflTransGen KeepsRoom s₀ s)
    (hl : s.list = .active) : OversizeSound s := by
  have hI : OversizeActive s := by
    clear hl
    induction hr with
    | refl => exact fun _ => h₀.oversizeInv
    | tail _ hstep ih => exact ih.turn hstep
  have hI := hI hl
  refine ⟨hI.unsent.empty, fun last hlast => ?_, fun arg copy more m hm he => ?_⟩
  · obtain ⟨h1, h2⟩ := hI.unsent.last last hlast
    exact ⟨h1, h2, fun len => (min_le_left _ _).trans h2⟩
  · exact hI.fails arg copy more _ he m hm rfl

/-! ### Two runs -/

theorem keepsRoom_of_small (h : Micro NoConnect (fun _ _ => True) s s')
    (hz : s.pcb.unsentOversize = 0) (hq : s.requeue.pcb.unsentOversize = 0) : KeepsRoom s s' :=
  ⟨h, fun _ _ hl => not_losesRoom hz hl.2.2, fun _ hl => not_losesRoom hq hl.2.2⟩

/-- A client behind the handshake. -/
def opened : St Unit :=
  let seg : InSegment :=
    { tcphdr := serverHdr 0 1000 { syn := true, ack := true } TCP_WND, p := [], bound := noData_bound }
  { connecting with pcb := establish connecting.pcb seg [] }

/-- It has written a byte, with room for more behind it. -/
def wroteByte : St Unit :=
  match tcpWrite opened [7] true true with
  | .ok (_, s) => s.emit (.wrote [7])
  | .error _ => opened

/-- It has sent the byte. -/
def sentByte : St Unit :=
  match tcpOutput wroteByte with
  | .ok (_, s) => s
  | .error _ => wroteByte

/-- `ip_output_if` takes the byte, and the room behind it is gone with it. The next byte gets room of
    its own. -/
theorem oversize_consistent_written : ∃ s : St Unit, wroteByte.pcb.unsentOversize = 535 ∧
    tcpOutput wroteByte = .ok (.ok, sentByte) ∧ sentByte.pcb.unsentOversize = 0 ∧
    tcpWrite sentByte [8] true true = .ok (.ok, s) ∧ s.pcb.unsentOversize = 535 ∧
      OversizeSound (s.emit (.wrote [8])) := by
  obtain ⟨t, hw₁, ht⟩ : ∃ t, tcpWrite opened [7] true true = .ok (.ok, t) ∧
      t.emit (.wrote [7]) = wroteByte := ⟨_, rfl, rfl⟩
  have ho : tcpOutput wroteByte = .ok (.ok, sentByte) := rfl
  obtain ⟨s, hw₂, hover, hl⟩ : ∃ s, tcpWrite sentByte [8] true true = .ok (.ok, s) ∧
      s.pcb.unsentOversize = 535 ∧ s.list = .active := ⟨_, rfl, rfl, rfl⟩
  have h₁ : KeepsRoom connecting opened :=
    keepsRoom_of_small (.establish rfl rfl (by decide) rfl) rfl rfl
  have h₂ : KeepsRoom opened wroteByte := by
    rw [← ht]
    exact keepsRoom_of_small (.write trivial hw₁) rfl rfl
  have h₃ : KeepsRoom wroteByte sentByte := by
    refine ⟨.output ho, ?_, ?_⟩
    · rintro err - ⟨-, -, -, -, h⟩
      rcases h with ⟨h, -⟩ | ⟨-, h⟩
      · exact h rfl
      · exact h
    · rintro - ⟨-, -, -, -, h⟩
      rcases h with ⟨h, -⟩ | ⟨-, h⟩
      · exact h rfl
      · exact h
  have h₄ : KeepsRoom sentByte (s.emit (.wrote [8])) := keepsRoom_of_small (.write trivial hw₂) rfl rfl
  refine ⟨s, rfl, ho, rfl, hw₂, hover, oversize_consistent begun_connecting ?_ hl⟩
  exact .tail (.tail (.tail (.single h₁) h₂) h₃) h₄

/-- A byte is written with room for more behind it, and `ip_output_if` fails. The next `tcp_write`
    stops the process. -/
theorem oversize_consistent_fails : ∃ s : St Unit, Begun connecting ∧ AppOk NoConnect idleApp ∧
    Run.exec (connStep idleApp) connecting
      [synAckOp TCP_WND, ([], .api (.write [7] true true)), ([true], .api .output)] = .ok s ∧
    s.list = .active ∧ s.pcb.unsentOversize = 535 ∧ s.pcb.unsent.map (·.oversizeLeft) = [0] ∧
    connStep idleApp s ([], .api (.write [8] true true)) =
      .error (.assert "unsent_oversize mismatch (pcb vs. last_unsent)") ∧ ¬ OversizeSound s := by
  refine ⟨_, begun_connecting, appOk_idleApp, rfl, rfl, rfl, rfl, rfl, fun h => ?_⟩
  exact absurd (h.last _ rfl).1 (by decide)

end Rudp
