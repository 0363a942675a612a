import Rudp.Chain

/-!
# `pbuf_copy`

The function walks two chains with an offset into each. Between two passes of its loop the target
already holds what is copied, and `CopyState.final` says what it is going to hold.

Results:
* `copyStep_shorter`: every pass leaves a pbuf of one of the chains behind, so the loop ends.
* `copyStep_spec`: a pass keeps `CopyInv` and `CopyState.final`.
* `pbufCopy_abs`: on chains without empty pbufs, the front of the target becomes the source.
-/

namespace Rudp

open Overwrite

namespace Chain

/-! ## The loop -/

/-- The variables of `pbuf_copy`; `done` is the part of the target in front of `p_to`. -/
structure CopyState where
  done : List PbufNode
  pTo : List PbufNode
  pFrom : List PbufNode
  offsetTo : ℕ
  offsetFrom : ℕ

/-- "don't copy more than one packet!" (pbuf.c:920-929) -/
def noQueue (p : List PbufNode) : Prop :=
  ∀ q ∈ p.head?, q.len = q.totLen → p.tail = []

instance (p : List PbufNode) : Decidable (noQueue p) := by
  unfold noQueue
  infer_instance

/-- On to next p_from, if any (pbuf.c:909-913). -/
def CopyState.nextFrom (s : CopyState) : CopyState :=
  match s.pFrom with
  | [] => s
  | r :: next => if s.offsetFrom ≥ r.len then { s with pFrom := next, offsetFrom := 0 } else s

/-- On to next p_to, if any (pbuf.c:914-919). -/
def CopyState.nextTo (s : CopyState) : CopyState :=
  match s.pTo with
  | [] => s
  | q :: next =>
    if s.offsetTo = q.len then { s with done := s.done ++ [q], pTo := next, offsetTo := 0 } else s

/-- The body of the loop of `pbuf_copy` (pbuf.c:896-929). -/
def copyStep (s : CopyState) : Except Fault CopyState :=
  match s.pTo, s.pFrom with
  | q :: nextTo, r :: nextFrom => do
    let len :=
      if q.len - s.offsetTo ≥ r.len - s.offsetFrom then r.len - s.offsetFrom
      else q.len - s.offsetTo
    let src ← memRead r.memory s.offsetFrom len
    let q ← q.write s.offsetTo src
    lwipAssert "offset_to <= p_to->len" (s.offsetTo + len ≤ q.len)
    lwipAssert "offset_from <= p_from->len" (s.offsetFrom + len ≤ r.len)
    let s : CopyState :=
      { s with pTo := q :: nextTo, offsetTo := s.offsetTo + len, pFrom := r :: nextFrom
               offsetFrom := s.offsetFrom + len }
    let s := s.nextFrom.nextTo
    lwipAssert "p_to != NULL" (s.pTo ≠ [] ∨ s.pFrom = [])
    lwipAssert "pbuf_copy() does not allow packet queues!" (noQueue s.pFrom)
    lwipAssert "pbuf_copy() does not allow packet queues!" (noQueue s.pTo)
    .ok s
  | _, _ => .error .nullDeref

/-! ## The loop of `pbuf_copy` ends -/

@[simp] theorem CopyState.nextFrom_pTo (s : CopyState) : s.nextFrom.pTo = s.pTo := by
  unfold CopyState.nextFrom
  split
  · rfl
  · split_ifs <;> rfl

@[simp] theorem CopyState.nextFrom_offsetTo (s : CopyState) : s.nextFrom.offsetTo = s.offsetTo := by
  unfold CopyState.nextFrom
  split
  · rfl
  · split_ifs <;> rfl

@[simp] theorem CopyState.nextFrom_done (s : CopyState) : s.nextFrom.done = s.done := by
  unfold CopyState.nextFrom
  split
  · rfl
  · split_ifs <;> rfl

@[simp] theorem CopyState.nextTo_pFrom (s : CopyState) : s.nextTo.pFrom = s.pFrom := by
  unfold CopyState.nextTo
  split
  · rfl
  · split_ifs <;> rfl

@[simp] theorem CopyState.nextTo_offsetFrom (s : CopyState) :
    s.nextTo.offsetFrom = s.offsetFrom := by
  unfold CopyState.nextTo
  split
  · rfl
  · split_ifs <;> rfl

theorem CopyState.nextFrom_cons {s : CopyState} {r : PbufNode} {next : List PbufNode}
    (h : s.pFrom = r :: next) :
    s.nextFrom =
      if s.offsetFrom ≥ r.len then { s with pFrom := next, offsetFrom := 0 } else s := by
  unfold CopyState.nextFrom
  rw [h]

theorem CopyState.nextTo_cons {s : CopyState} {q : PbufNode} {next : List PbufNode}
    (h : s.pTo = q :: next) :
    s.nextTo =
      if s.offsetTo = q.len then { s with done := s.done ++ [q], pTo := next, offsetTo := 0 }
      else s := by
  unfold CopyState.nextTo
  rw [h]

theorem length_nextFrom_le (s : CopyState) : s.nextFrom.pFrom.length ≤ s.pFrom.length := by
  unfold CopyState.nextFrom
  split
  · exact le_rfl
  · next hs =>
    split_ifs
    · rw [hs]
      exact Nat.le_succ _
    · exact le_rfl

theorem length_nextTo_le (s : CopyState) : s.nextTo.pTo.length ≤ s.pTo.length := by
  unfold CopyState.nextTo
  split
  · exact le_rfl
  · next hs =>
    split_ifs
    · rw [hs]
      exact Nat.le_succ _
    · exact le_rfl

/-- Every pass leaves a pbuf of one of the chains behind. -/
theorem copyStep_shorter {s s' : CopyState} (h : copyStep s = .ok s') :
    s'.pTo.length + s'.pFrom.length < s.pTo.length + s.pFrom.length := by
  unfold copyStep at h
  split at h
  · next q nextTo r nextFrom hto hfrom =>
    dsimp only at h
    obtain ⟨src, -, h⟩ := Run.bind_eq_ok.mp h
    obtain ⟨q', hq, h⟩ := Run.bind_eq_ok.mp h
    obtain ⟨_, hoffTo, h⟩ := Run.bind_eq_ok.mp h
    obtain ⟨_, hoffFrom, h⟩ := Run.bind_eq_ok.mp h
    obtain ⟨-, -, h⟩ := Run.bind_eq_ok.mp h
    obtain ⟨-, -, h⟩ := Run.bind_eq_ok.mp h
    obtain ⟨-, -, h⟩ := Run.bind_eq_ok.mp h
    have hlen := PbufNode.write_len hq
    have hoffTo := lwipAssert_ok hoffTo
    have hoffFrom := lwipAssert_ok hoffFrom
    cases h
    set len := if q.len - s.offsetTo ≥ r.len - s.offsetFrom then r.len - s.offsetFrom
      else q.len - s.offsetTo with hl
    set m : CopyState :=
      { s with pTo := q' :: nextTo, offsetTo := s.offsetTo + len, pFrom := r :: nextFrom
               offsetFrom := s.offsetFrom + len } with hm
    have hT : m.nextFrom.nextTo.pTo.length ≤ (q' :: nextTo).length := by
      have := length_nextTo_le m.nextFrom
      rwa [CopyState.nextFrom_pTo] at this
    have hF : m.nextFrom.nextTo.pFrom.length ≤ (r :: nextFrom).length := by
      rw [CopyState.nextTo_pFrom]
      exact length_nextFrom_le m
    rw [hto, hfrom]
    by_cases hend : s.offsetFrom + len ≥ r.len
    · have hF : m.nextFrom.nextTo.pFrom.length = nextFrom.length := by
        rw [CopyState.nextTo_pFrom, CopyState.nextFrom_cons (s := m) rfl, if_pos hend]
      simp only [List.length_cons] at hT ⊢
      omega
    · have hend : s.offsetTo + len = q'.len := by
        rw [hl] at hend ⊢
        split_ifs at hend ⊢ <;> omega
      have hT : m.nextFrom.nextTo.pTo.length = nextTo.length := by
        have hcons : m.nextFrom.pTo = q' :: nextTo := CopyState.nextFrom_pTo m
        rw [CopyState.nextTo_cons hcons, if_pos (by rw [CopyState.nextFrom_offsetTo]; exact hend)]
      simp only [List.length_cons] at hF ⊢
      omega
  · cases h

/-- The loop of `pbuf_copy`, which ends with the first chain. -/
def copyLoop (s : CopyState) : Except Fault CopyState :=
  match _h : copyStep s with
  | .error e => .error e
  | .ok s' => if s'.pFrom = [] then .ok s' else copyLoop s'
termination_by s.pTo.length + s.pFrom.length
decreasing_by exact copyStep_shorter (by assumption)

/-- `pbuf_copy(p_to, p_from)` (pbuf.c:884-933). -/
def pbufCopy (pTo pFrom : List PbufNode) : Except Fault (Err × List PbufNode) := do
  lwipAssert "pbuf_copy: target not big enough to hold source" (pTo ≠ [] ∧ pFrom ≠ [] ∧
    ∀ q ∈ pTo.head?, ∀ r ∈ pFrom.head?, q.totLen ≥ r.totLen)
  let s ← copyLoop { done := [], pTo := pTo, pFrom := pFrom, offsetTo := 0, offsetFrom := 0 }
  .ok (.ok, s.done ++ s.pTo)

/-! ## `pbuf_copy` -/

/-- No pbuf is empty. -/
def NoneEmpty (p : List PbufNode) : Prop := ∀ q ∈ p, 0 < q.len

/-- What the target is going to hold. -/
def CopyState.final (s : CopyState) : List Byte :=
  abs s.done ++ overwrite (abs s.pTo) s.offsetTo ((abs s.pFrom).drop s.offsetFrom)

/-- Between two steps: the offsets are inside the pbufs, and the rest of the source fits into the
    rest of the target. -/
structure CopyInv (s : CopyState) : Prop where
  to_pos : NoneEmpty s.pTo
  from_pos : NoneEmpty s.pFrom
  toTot : TotLens s.pTo
  fromTot : TotLens s.pFrom
  offsetTo : ∀ q ∈ s.pTo.head?, s.offsetTo ≤ q.len
  offsetFrom : ∀ r ∈ s.pFrom.head?, s.offsetFrom ≤ r.len
  fits : (abs s.pFrom).length + s.offsetTo ≤ (abs s.pTo).length + s.offsetFrom

theorem noQueue_of_noneEmpty {p : List PbufNode} (h : NoneEmpty p) (ht : TotLens p) : noQueue p := by
  intro q hq hlen
  cases p with
  | nil => cases hq
  | cons q' next =>
    cases hq
    have htot := ht.1
    rw [abs_cons, List.length_append, ← hlen] at htot
    cases next with
    | nil => rfl
    | cons r rest =>
      have hr := h r (.tail _ (.head _))
      rw [abs_cons, List.length_append] at htot
      unfold PbufNode.len at hr htot
      omega

theorem CopyInv.nextFrom {s : CopyState} (h : CopyInv s) :
    CopyInv s.nextFrom ∧ s.nextFrom.final = s.final ∧
      ∀ r ∈ s.nextFrom.pFrom.head?, s.nextFrom.offsetFrom < r.len := by
  cases hp : s.pFrom with
  | nil =>
    have he : s.nextFrom = s := by
      unfold CopyState.nextFrom
      rw [hp]
    rw [he, hp]
    exact ⟨h, rfl, by simp⟩
  | cons r next =>
    have hoff : s.offsetFrom ≤ r.len := h.offsetFrom r (by rw [hp]; rfl)
    have hpos : NoneEmpty (r :: next) := hp ▸ h.from_pos
    have htot : TotLens (r :: next) := hp ▸ h.fromTot
    rw [CopyState.nextFrom_cons hp]
    split_ifs with hend
    · have hfits := h.fits
      have hrlen : r.len = r.payload.length := rfl
      rw [hp, abs_cons, List.length_append] at hfits
      refine ⟨⟨h.to_pos, fun x hx => hpos x (.tail _ hx), h.toTot, htot.2, h.offsetTo,
        fun _ _ => Nat.zero_le _, ?_⟩, ?_, ?_⟩
      · show (abs next).length + s.offsetTo ≤ (abs s.pTo).length + 0
        omega
      · show _ ++ overwrite _ _ ((abs next).drop 0) = _ ++ overwrite _ _ ((abs s.pFrom).drop _)
        rw [hp, abs_cons, List.drop_append, List.drop_of_length_le hend, List.nil_append]
        congr 3
        omega
      · intro x hx
        exact hpos x (.tail _ (List.mem_of_mem_head? hx))
    · refine ⟨h, rfl, ?_⟩
      rw [hp]
      intro x hx
      cases hx
      exact Nat.lt_of_not_le hend

theorem CopyInv.nextTo {s : CopyState} (h : CopyInv s) :
    CopyInv s.nextTo ∧ s.nextTo.final = s.final ∧
      s.nextTo.done ++ s.nextTo.pTo = s.done ++ s.pTo ∧
      (s.pFrom ≠ [] → s.offsetFrom < (abs s.pFrom).length → s.nextTo.pTo ≠ []) := by
  cases hp : s.pTo with
  | nil =>
    have he : s.nextTo = s := by
      unfold CopyState.nextTo
      rw [hp]
    have hfits := h.fits
    rw [hp, abs_nil, List.length_nil] at hfits
    rw [he, hp]
    exact ⟨h, rfl, rfl, fun _ hlt => absurd hfits (by omega)⟩
  | cons q next =>
    have hpos : NoneEmpty (q :: next) := hp ▸ h.to_pos
    have htot : TotLens (q :: next) := hp ▸ h.toTot
    have hfits := h.fits
    have hqlen : q.len = q.payload.length := rfl
    rw [hp, abs_cons, List.length_append] at hfits
    rw [CopyState.nextTo_cons hp]
    split_ifs with hend
    · refine ⟨⟨fun x hx => hpos x (.tail _ hx), h.from_pos, htot.2, h.fromTot,
        fun _ _ => Nat.zero_le _, h.offsetFrom, ?_⟩, ?_, ?_, ?_⟩
      · show (abs s.pFrom).length + 0 ≤ (abs next).length + s.offsetFrom
        omega
      · show abs (s.done ++ [q]) ++ overwrite (abs next) 0 _ = abs s.done ++ overwrite (abs s.pTo) _ _
        have hoff : s.offsetTo = q.payload.length + 0 := hend
        rw [hp, abs_cons, hoff, overwrite_append_right]
        simp [abs]
      · show s.done ++ [q] ++ next = _
        rw [List.append_assoc]
        rfl
      · rintro - hlt (rfl : next = [])
        rw [abs_nil, List.length_nil] at hfits
        omega
    · refine ⟨h, rfl, by rw [hp], fun _ _ => ?_⟩
      rw [hp]
      simp

/-- One pass copies into the current pbuf and keeps what the target is going to hold. -/
theorem copyStep_spec {s : CopyState} (h : CopyInv s) (hfrom : s.pFrom ≠ [])
    (hlt : s.offsetFrom < (abs s.pFrom).length) :
    ∃ s', copyStep s = .ok s' ∧ CopyInv s' ∧ s'.final = s.final ∧
      (s'.done ++ s'.pTo).map PbufNode.blank = (s.done ++ s.pTo).map PbufNode.blank ∧
      (s'.pFrom ≠ [] → s'.offsetFrom < (abs s'.pFrom).length) := by
  have hfits := h.fits
  cases hpf : s.pFrom with
  | nil => exact absurd hpf hfrom
  | cons r nextFrom =>
    cases hpt : s.pTo with
    | nil =>
      rw [hpt, abs_nil, List.length_nil] at hfits
      omega
    | cons q nextTo =>
      have hoffTo : s.offsetTo ≤ q.len := h.offsetTo q (by rw [hpt]; rfl)
      have hoffFrom : s.offsetFrom ≤ r.len := h.offsetFrom r (by rw [hpf]; rfl)
      set n := if q.len - s.offsetTo ≥ r.len - s.offsetFrom then r.len - s.offsetFrom
        else q.len - s.offsetTo with hn
      have hnle : n ≤ q.len - s.offsetTo ∧ n ≤ r.len - s.offsetFrom := by
        rw [hn]
        split_ifs <;> omega
      set src := (r.payload.drop s.offsetFrom).take n with hsrc
      have hlen : src.length = n := by
        have hrlen : r.len = r.payload.length := rfl
        rw [hsrc, List.length_take, List.length_drop]
        omega
      have hw : s.offsetTo + src.length ≤ q.len := by omega
      have hwlen : (overwrite q.payload s.offsetTo src).length = q.payload.length :=
        length_overwrite hw
      set q' : PbufNode := { q with payload := overwrite q.payload s.offsetTo src } with hq'
      have hbl : q'.blank = q.blank := blank_overwrite hw
      set m : CopyState :=
        { s with pTo := q' :: nextTo, offsetTo := s.offsetTo + n, pFrom := r :: nextFrom
                 offsetFrom := s.offsetFrom + n } with hm
      -- the same bytes, the first of them now in place
      have hrest : (abs s.pFrom).drop s.offsetFrom =
          src ++ (abs (r :: nextFrom)).drop (s.offsetFrom + n) := by
        have hsplit := List.take_append_drop n (r.payload.drop s.offsetFrom)
        rw [List.drop_drop] at hsplit
        rw [hpf, abs_cons, List.drop_append_of_le_length (by unfold PbufNode.len at hoffFrom; omega),
          List.drop_append_of_le_length (by unfold PbufNode.len at hoffFrom hnle; omega),
          ← List.append_assoc, hsplit]
      have hfinal : m.final = s.final := by
        show abs s.done ++ overwrite (abs (q' :: nextTo)) _ _ = abs s.done ++ _
        have hall : s.offsetTo + src.length ≤ (abs (q :: nextTo)).length := by
          rw [abs_cons, List.length_append]
          exact hw.trans (Nat.le_add_right _ _)
        rw [hrest, hpt, ← overwrite_overwrite hall, abs_cons q, overwrite_append_left _ hw, hlen]
        rfl
      have hinv : CopyInv m := by
        have htot : TotLens (q :: nextTo) := hpt ▸ h.toTot
        have hpos : NoneEmpty (r :: nextFrom) := hpf ▸ h.from_pos
        have hfromTot : TotLens (r :: nextFrom) := hpf ▸ h.fromTot
        have hblank : (q' :: nextTo).map PbufNode.blank = (q :: nextTo).map PbufNode.blank := by
          rw [List.map_cons, List.map_cons, hbl]
        have hqlen : q'.len = q.len := hwlen
        refine ⟨?_, hpos, htot.of_blank hblank, hfromTot, ?_, ?_, ?_⟩
        · intro x hx
          rcases List.mem_cons.mp hx with rfl | hx
          · rw [hqlen]
            exact h.to_pos q (by rw [hpt]; exact .head _)
          · exact h.to_pos x (by rw [hpt]; exact .tail _ hx)
        · rintro x ⟨⟩
          show s.offsetTo + n ≤ q'.len
          omega
        · rintro x ⟨⟩
          show s.offsetFrom + n ≤ r.len
          omega
        · show (abs (r :: nextFrom)).length + (s.offsetTo + n) ≤
            (abs (q' :: nextTo)).length + (s.offsetFrom + n)
          rw [length_abs_of_blank hblank, ← hpf, ← hpt]
          omega
      obtain ⟨hF, hfinalF, hstrict⟩ := hinv.nextFrom
      obtain ⟨hT, hfinalT, hkeep, hne⟩ := hF.nextTo
      have hlast : m.nextFrom.nextTo.pFrom ≠ [] →
          m.nextFrom.nextTo.offsetFrom < (abs m.nextFrom.nextTo.pFrom).length := by
        rw [CopyState.nextTo_pFrom, CopyState.nextTo_offsetFrom]
        intro hfrom
        cases hp : m.nextFrom.pFrom with
        | nil => exact absurd hp hfrom
        | cons x l =>
          have hx : m.nextFrom.offsetFrom < x.len := hstrict x (by rw [hp]; rfl)
          rw [abs_cons, List.length_append]
          exact hx.trans_le (Nat.le_add_right _ _)
      refine ⟨m.nextFrom.nextTo, ?_, hT, hfinalT.trans (hfinalF.trans hfinal), ?_, hlast⟩
      · unfold copyStep
        rw [hpt, hpf]
        show (memRead r.memory s.offsetFrom n >>= _) = _
        rw [PbufNode.read_ok (by omega), ← hsrc]
        show (q.write s.offsetTo src >>= _) = _
        rw [PbufNode.write_ok hw, ← hq']
        show (lwipAssert _ (s.offsetTo + n ≤ q'.len) >>= _) = _
        rw [lwipAssert_pos (by show _ ≤ (overwrite _ _ _).length; rw [hwlen]; unfold PbufNode.len at hw; omega)]
        show (lwipAssert _ (s.offsetFrom + n ≤ r.len) >>= _) = _
        rw [lwipAssert_pos (by omega)]
        have hto : m.nextFrom.nextTo.pTo ≠ [] ∨ m.nextFrom.nextTo.pFrom = [] := by
          by_cases hp : m.nextFrom.pFrom = []
          · right
            rw [CopyState.nextTo_pFrom]
            exact hp
          · refine .inl (hne hp ?_)
            have := hlast (by rw [CopyState.nextTo_pFrom]; exact hp)
            rwa [CopyState.nextTo_pFrom, CopyState.nextTo_offsetFrom] at this
        show (lwipAssert _ (m.nextFrom.nextTo.pTo ≠ [] ∨ m.nextFrom.nextTo.pFrom = []) >>= _) = _
        rw [lwipAssert_pos hto]
        show (lwipAssert _ (noQueue m.nextFrom.nextTo.pFrom) >>= _) = _
        rw [lwipAssert_pos (noQueue_of_noneEmpty hT.from_pos hT.fromTot)]
        show (lwipAssert _ (noQueue m.nextFrom.nextTo.pTo) >>= _) = _
        rw [lwipAssert_pos (noQueue_of_noneEmpty hT.to_pos hT.toTot)]
        rfl
      · rw [hkeep, CopyState.nextFrom_done, CopyState.nextFrom_pTo]
        show (s.done ++ q' :: nextTo).map _ = _
        rw [List.map_append, List.map_append, List.map_cons, List.map_cons, hbl]

/-- The loop fills the target. -/
theorem copyLoop_spec (s : CopyState) (h : CopyInv s) (hfrom : s.pFrom ≠ [])
    (hlt : s.offsetFrom < (abs s.pFrom).length) :
    ∃ s', copyLoop s = .ok s' ∧ abs (s'.done ++ s'.pTo) = s.final ∧
      (s'.done ++ s'.pTo).map PbufNode.blank = (s.done ++ s.pTo).map PbufNode.blank := by
  obtain ⟨s₁, hs₁, hinv, hfinal, hbl, hnext⟩ := copyStep_spec h hfrom hlt
  have hshort := copyStep_shorter hs₁
  have hloop : copyLoop s = if s₁.pFrom = [] then .ok s₁ else copyLoop s₁ := by
    rw [copyLoop]
    split
    · next e he =>
      rw [hs₁] at he
      cases he
    · next s₂ hs₂ =>
      rw [hs₁] at hs₂
      cases hs₂
      rfl
  rw [hloop]
  split_ifs with hend
  · refine ⟨s₁, rfl, ?_, hbl⟩
    rw [← hfinal, CopyState.final, hend, abs_nil, List.drop_nil, overwrite_nil]
    exact List.flatMap_append
  · obtain ⟨s', hs', habs, hbl'⟩ := copyLoop_spec s₁ hinv hend (hnext hend)
    exact ⟨s', hs', habs.trans hfinal, hbl'.trans hbl⟩
termination_by s.pTo.length + s.pFrom.length

/-- `pbuf_copy` makes the source the front of the target. -/
theorem pbufCopy_abs (t f : PbufChain) (ht : NoneEmpty t.pbufs) (hf : NoneEmpty f.pbufs)
    (hle : f.abs.length ≤ t.abs.length) :
    ∃ c : PbufChain, pbufCopy t.pbufs f.pbufs = .ok (.ok, c.pbufs) ∧
      c.abs = f.abs ++ t.abs.drop f.abs.length ∧
      c.pbufs.map PbufNode.blank = t.pbufs.map PbufNode.blank := by
  have hpos : 0 < f.abs.length := by
    have hfne := f.ne_nil
    unfold PbufChain.abs
    cases hp : f.pbufs with
    | nil => exact absurd hp hfne
    | cons r next =>
      have hr : 0 < r.payload.length := hf r (by rw [hp]; exact .head _)
      rw [abs_cons, List.length_append]
      omega
  have hinv : CopyInv { done := [], pTo := t.pbufs, pFrom := f.pbufs, offsetTo := 0, offsetFrom := 0 } :=
    ⟨ht, hf, t.totLens, f.totLens, fun _ _ => Nat.zero_le _, fun _ _ => Nat.zero_le _,
      Nat.add_le_add_right hle 0⟩
  obtain ⟨s', hs', habs, hbl⟩ := copyLoop_spec _ hinv f.ne_nil hpos
  have hhead : ∀ q ∈ t.pbufs.head?, ∀ r ∈ f.pbufs.head?, q.totLen ≥ r.totLen := by
    intro q hq r hr
    have htt := t.totLens
    have hft := f.totLens
    unfold PbufChain.abs at hle
    cases hpt : t.pbufs with
    | nil => exact absurd hpt t.ne_nil
    | cons q' nextTo =>
      cases hpf : f.pbufs with
      | nil => exact absurd hpf f.ne_nil
      | cons r' nextFrom =>
        rw [hpt] at hq htt hle
        rw [hpf] at hr hft hle
        cases hq
        cases hr
        rw [htt.1, hft.1]
        exact hle
  refine ⟨t.ofBlank _ hbl, ?_, ?_, hbl⟩
  · unfold pbufCopy
    rw [lwipAssert_pos ⟨t.ne_nil, f.ne_nil, hhead⟩]
    show (copyLoop _ >>= _) = _
    rw [hs']
    rfl
  · refine habs.trans ?_
    show abs [] ++ overwrite (abs t.pbufs) 0 ((abs f.pbufs).drop 0) = _
    rw [List.drop_zero, overwrite_zero]
    rfl

end Chain

end Rudp
