import Rudp.Lib.Scan
import Rudp.Frame

/-!
# The victim of `tcp_alloc`

When the pool of pcbs is exhausted, `tcp_alloc` kills the pcb of longest inactivity in `TIME_WAIT`,
`LAST_ACK` or `CLOSING`, and at last one on the active list whose priority is not higher than that of
the new pcb (tcp.c:1348-1497). `tcp_input` moves the pcb of a segment to the front of the active list,
so every order of that list occurs.

Results:
* `tcpAbandon_unlinks`: what `tcp_abandon` does to the lists and the pool.
* `tcpKillState_oldest`, `tcpKillTimewait_oldest`: these two kill the right pcb in every order.
* `victims_right_iff`: `tcp_kill_prio` does so exactly when `LowestIsOldest`.
-/

namespace Rudp

/-! ## The lists and the pool -/

/-- A pcb and its address. -/
structure Slot where
  addr : ℕ
  pcb : Pcb

/-- `(u32_t)(tcp_ticks - pcb->tmr)` -/
def Slot.inactivity (x : Slot) (ticks : U32) : ℕ := (ticks - x.pcb.tmr).toNat

/-- `tcp_ticks`, the two lists that the functions walk, how many elements of `MEMP_TCP_PCB` are free,
    and the calls of `tcp_abandon`: the pcb, and whether a RST is sent. -/
structure Store where
  ticks : U32
  active : List Slot
  tw : List Slot
  free : ℕ := 0
  abandoned : List (Slot × Bool) := []

/-- `tcp_abandon(inactive, reset)` with its effect on the lists and the pool. -/
def Store.abandon (s : Store) (inactive : Slot) (reset : Bool) : Store :=
  { s with
    active := s.active.filter (·.addr ≠ inactive.addr)
    tw := s.tw.filter (·.addr ≠ inactive.addr)
    free := s.free + 1
    abandoned := s.abandoned ++ [(inactive, reset)] }

/-- `if (inactive != NULL) tcp_abandon(inactive, reset)` -/
def Store.abandonIf (s : Store) (inactive : Option Slot) (reset : Bool) : Store :=
  match inactive with
  | none => s
  | some inactive => s.abandon inactive reset

/-- The pcb is on no list any more and its element is back in the pool. -/
theorem tcpAbandon_unlinks {W : Type} {s s' : St W} {reset : Bool}
    (h : tcpAbandon s reset = .ok s') : s'.list = .none ∧ s'.freed = true := by
  obtain ⟨pcb, changed, outs, hv, -⟩ := rcvView_tcpAbandon h
  exact ⟨congrArg (fun v => v.list) hv, congrArg (fun v => v.freed) hv⟩

/-! ## The functions -/

/-- `TCP_PRIO_MAX` (tcp.h). -/
def TCP_PRIO_MAX : ℕ := 127

/-- The loop of `tcp_kill_prio` (tcp.c:1364-1374). -/
def killPrioLoop (ticks : U32) (prio : ℕ) :
    List Slot → (mprio inactivity : ℕ) → (inactive : Option Slot) → Option Slot
  | [], _, _, inactive => inactive
  | pcb :: rest, mprio, inactivity, inactive =>
    if pcb.pcb.prio ≤ prio ∧ pcb.pcb.prio ≤ mprio ∧ pcb.inactivity ticks ≥ inactivity then
      killPrioLoop ticks prio rest pcb.pcb.prio (pcb.inactivity ticks) (some pcb)
    else killPrioLoop ticks prio rest mprio inactivity inactive

/-- `tcp_kill_prio` (tcp.c:1354-1380). -/
def tcpKillPrio (s : Store) (prio : ℕ) : Store :=
  s.abandonIf (killPrioLoop s.ticks prio s.active TCP_PRIO_MAX 0 none) true

/-- The loop of `tcp_kill_state` and `tcp_kill_timewait` (tcp.c:1394-1405 and 1424-1432). -/
def killLoop (ticks : U32) (kind : Slot → Prop) [DecidablePred kind] :
    List Slot → (inactivity : ℕ) → (inactive : Option Slot) → Option Slot
  | [], _, inactive => inactive
  | pcb :: rest, inactivity, inactive =>
    if kind pcb ∧ pcb.inactivity ticks ≥ inactivity then
      killLoop ticks kind rest (pcb.inactivity ticks) (some pcb)
    else killLoop ticks kind rest inactivity inactive

/-- `tcp_kill_state` (tcp.c:1386-1412). -/
def tcpKillState (s : Store) (state : TcpState) : Except Fault Store := do
  lwipAssert "invalid state" (state = .CLOSING ∨ state = .LAST_ACK)
  .ok (s.abandonIf (killLoop s.ticks (fun pcb => pcb.pcb.state = state) s.active 0 none) false)

/-- `tcp_kill_timewait` (tcp.c:1418-1438). -/
def tcpKillTimewait (s : Store) : Store :=
  s.abandonIf (killLoop s.ticks (fun _ => True) s.tw 0 none) true

/-- The segment is for the pcb (tcp_in.c:192-193). -/
def Slot.found (hdr : TcpHdr) (x : Slot) : Bool :=
  decide (x.pcb.connId.connid1 = hdr.connid1 ∧
    (x.pcb.state = .SYN_SENT ∨ x.pcb.connId.connid2 = hdr.connid2))

/-- The walk of `tcp_input` over the active list (tcp_in.c:188-207): the pcb that is found moves to
    the front. -/
def toFront (hdr : TcpHdr) (active : List Slot) : List Slot :=
  match active.find? (Slot.found hdr) with
  | none => active
  | some x => x :: active.eraseP (Slot.found hdr)

/-! ## What they choose -/

/-- A pcb of longest inactivity among those of `l` that meet `kind` is abandoned, or there is none. -/
def AbandonsOldest (kind : Slot → Prop) (l : List Slot) (reset : Bool) (s s' : Store) : Prop :=
  (s' = s ∧ ∀ x ∈ l, ¬ kind x) ∨
    ∃ v ∈ l, kind v ∧ (∀ x ∈ l, kind x → x.inactivity s.ticks ≤ v.inactivity s.ticks) ∧
      s' = s.abandon v reset

section Loops

variable (ticks : U32)

/-- At least as inactive. -/
def Slot.AsOld (x y : Slot) : Prop := x.inactivity ticks ≤ y.inactivity ticks

instance : DecidableRel (Slot.AsOld ticks) := fun _ _ => inferInstanceAs (Decidable (_ ≤ _))

instance : IsPreorder Slot (Slot.AsOld ticks) where
  refl _ := Nat.le_refl _
  trans _ _ _ := Nat.le_trans

/-- At least as inactive, and of no higher priority. -/
def Slot.AsFit (x y : Slot) : Prop := y.pcb.prio ≤ x.pcb.prio ∧ Slot.AsOld ticks x y

instance : DecidableRel (Slot.AsFit ticks) := fun _ _ => inferInstanceAs (Decidable (_ ∧ _))

instance : IsPreorder Slot (Slot.AsFit ticks) where
  refl _ := ⟨Nat.le_refl _, Nat.le_refl _⟩
  trans _ _ _ h h' := ⟨h'.1.trans h.1, h.2.trans h'.2⟩

theorem killLoop_eq (kind : Slot → Prop) [DecidablePred kind] (l : List Slot) :
    killLoop ticks kind l 0 none = Scan.best (Slot.AsOld ticks) (l.filter kind) none := by
  have hkept (l : List Slot) (b : Slot) : killLoop ticks kind l (b.inactivity ticks) (some b) =
      Scan.best (Slot.AsOld ticks) (l.filter kind) (some b) := by
    induction l generalizing b with
    | nil => rfl
    | cons x l ih =>
      rw [killLoop, List.filter_cons]
      by_cases hk : kind x
      · rw [if_pos (decide_eq_true hk), Scan.best]
        by_cases hx : Slot.AsOld ticks b x
        · rw [if_pos ⟨hk, hx⟩, if_pos hx, ih]
        · rw [if_neg (fun h => hx h.2), if_neg hx, ih]
      · rw [if_neg (fun h => hk h.1), if_neg (by simpa using hk), ih]
  induction l with
  | nil => rfl
  | cons x l ih =>
    rw [killLoop, List.filter_cons]
    by_cases hk : kind x
    · rw [if_pos ⟨hk, Nat.zero_le _⟩, if_pos (decide_eq_true hk), Scan.best, hkept]
    · rw [if_neg (fun h => hk h.1), if_neg (by simpa using hk), ih]

/-- The pcbs that `tcp_kill_prio` looks at. -/
def Slot.Eligible (prio : ℕ) (x : Slot) : Prop := x.pcb.prio ≤ prio ∧ x.pcb.prio ≤ TCP_PRIO_MAX

instance (prio : ℕ) : DecidablePred (Slot.Eligible prio) := fun _ =>
  inferInstanceAs (Decidable (_ ∧ _))

theorem killPrioLoop_eq (prio : ℕ) (l : List Slot) :
    killPrioLoop ticks prio l TCP_PRIO_MAX 0 none =
      Scan.best (Slot.AsFit ticks) (l.filter (Slot.Eligible prio)) none := by
  have hkept (l : List Slot) (b : Slot) (hb : b.pcb.prio ≤ TCP_PRIO_MAX) :
      killPrioLoop ticks prio l b.pcb.prio (b.inactivity ticks) (some b) =
        Scan.best (Slot.AsFit ticks) (l.filter (Slot.Eligible prio)) (some b) := by
    induction l generalizing b with
    | nil => rfl
    | cons x l ih =>
      rw [killPrioLoop, List.filter_cons]
      by_cases hk : Slot.Eligible prio x
      · rw [if_pos (decide_eq_true hk), Scan.best]
        by_cases hx : Slot.AsFit ticks b x
        · rw [if_pos ⟨hk.1, hx⟩, if_pos hx, ih x hk.2]
        · rw [if_neg (fun h => hx h.2), if_neg hx, ih b hb]
      · -- what is not eligible has too high a priority for the loop
        rw [if_neg (fun h => hk ⟨h.1, h.2.1.trans hb⟩), if_neg (by simpa using hk), ih b hb]
  induction l with
  | nil => rfl
  | cons x l ih =>
    rw [killPrioLoop, List.filter_cons]
    by_cases hk : Slot.Eligible prio x
    · rw [if_pos ⟨hk.1, hk.2, Nat.zero_le _⟩, if_pos (decide_eq_true hk), Scan.best,
        hkept l x hk.2]
    · rw [if_neg (fun h => hk ⟨h.1, h.2.1⟩), if_neg (by simpa using hk), ih]

end Loops

/-- The loop of `tcp_kill_state` and `tcp_kill_timewait` is right in every order. -/
theorem killLoop_oldest (s : Store) (kind : Slot → Prop) [DecidablePred kind] (l : List Slot)
    (reset : Bool) :
    AbandonsOldest kind l reset s (s.abandonIf (killLoop s.ticks kind l 0 none) reset) := by
  rw [killLoop_eq]
  cases hv : Scan.best (Slot.AsOld s.ticks) (l.filter kind) none with
  | none =>
    left
    refine ⟨rfl, fun x hx hk => ?_⟩
    have hnil := Scan.best_none.mp hv
    have hm : x ∈ l.filter kind := List.mem_filter.mpr ⟨hx, decide_eq_true hk⟩
    rw [hnil] at hm
    cases hm
  | some v =>
    right
    have hm := List.mem_filter.mp (Scan.mem_of_best hv)
    refine ⟨v, hm.1, of_decide_eq_true hm.2, fun x hx hk => ?_, rfl⟩
    -- any two pcbs can be compared, so there is a greatest one
    have hf : x ∈ l.filter kind := List.mem_filter.mpr ⟨hx, decide_eq_true hk⟩
    classical
    obtain ⟨g, hg, hmax⟩ := (l.filter kind).toFinset.exists_max_image
      (fun y => y.inactivity s.ticks) ⟨x, List.mem_toFinset.mpr hf⟩
    have hgv : Slot.AsOld s.ticks g v := Scan.best_of_greatest (List.mem_toFinset.mp hg)
      (fun y hy => hmax y (List.mem_toFinset.mpr hy)) hv
    exact (hmax x (List.mem_toFinset.mpr hf)).trans hgv

theorem tcpKillTimewait_oldest (s : Store) :
    AbandonsOldest (fun _ => True) s.tw true s (tcpKillTimewait s) :=
  killLoop_oldest s _ s.tw true

theorem tcpKillState_ok (s : Store) {state : TcpState} (h : state = .CLOSING ∨ state = .LAST_ACK) :
    ∃ s', tcpKillState s state = .ok s' := by
  unfold tcpKillState lwipAssert
  rw [if_pos h]
  exact ⟨_, rfl⟩

theorem tcpKillState_oldest {s s' : Store} {state : TcpState} (h : tcpKillState s state = .ok s') :
    AbandonsOldest (fun x => x.pcb.state = state) s.active false s s' := by
  obtain ⟨_, -, h⟩ := Run.bind_eq_ok.mp h
  cases h
  exact killLoop_oldest s _ s.active false

/-! ## The result -/

/-- How long the abandoned pcbs have been inactive. -/
def Store.idleTimes (s : Store) : List ℕ := s.abandoned.map (·.1.inactivity s.ticks)

/-- Up to ties, the choice does not depend on the order of the list. -/
theorem AbandonsOldest.idleTimes {kind : Slot → Prop} {l l' : List Slot} {reset : Bool}
    {s s' t t' : Store} (h : AbandonsOldest kind l reset s s') (h' : AbandonsOldest kind l' reset t t')
    (hl : l.Perm l') (ht : t.ticks = s.ticks) (ha : t.abandoned = s.abandoned) :
    t'.idleTimes = s'.idleTimes := by
  have hs : t.idleTimes = s.idleTimes := by
    unfold Store.idleTimes
    rw [ht, ha]
  have habandon (s : Store) (v : Slot) : (s.abandon v reset).idleTimes =
      s.idleTimes ++ [v.inactivity s.ticks] := by
    unfold Store.idleTimes Store.abandon
    rw [List.map_append]
    rfl
  rcases h with ⟨rfl, hn⟩ | ⟨v, hv, hk, hold, rfl⟩
  · rcases h' with ⟨rfl, -⟩ | ⟨v, hv, hk, -, -⟩
    · exact hs
    · exact absurd hk (hn v (hl.symm.subset hv))
  · rcases h' with ⟨-, hn⟩ | ⟨w, hw, hkw, hold', rfl⟩
    · exact absurd hk (hn v (hl.subset hv))
    · have h1 := hold w (hl.symm.subset hw) hkw
      have h2 := hold' v (hl.subset hv) hk
      rw [ht] at h2
      rw [habandon, habandon, hs, ht, Nat.le_antisymm h1 h2]

/-- The three functions find the right pcb in every order of the lists: each abandons the pcb of its
    kind that is inactive for longest, and does so if there is one; how long that is does not depend
    on the order. -/
structure VictimsRight (s : Store) (prio : ℕ) : Prop where
  killPrio : ∀ active, active.Perm s.active →
    AbandonsOldest (fun x => x.pcb.prio ≤ prio) active true { s with active := active }
      (tcpKillPrio { s with active := active } prio)
  killState : ∀ active, active.Perm s.active → ∀ state, state = .CLOSING ∨ state = .LAST_ACK →
    ∃ s', tcpKillState { s with active := active } state = .ok s' ∧
      AbandonsOldest (fun x => x.pcb.state = state) active false { s with active := active } s'
  killTimewait : ∀ tw, tw.Perm s.tw →
    AbandonsOldest (fun _ => True) tw true { s with tw := tw } (tcpKillTimewait { s with tw := tw })
  orderActive : ∀ active active', active.Perm s.active → active'.Perm s.active →
    (tcpKillPrio { s with active := active' } prio).idleTimes =
        (tcpKillPrio { s with active := active } prio).idleTimes ∧
      ∀ state t t', tcpKillState { s with active := active } state = .ok t →
        tcpKillState { s with active := active' } state = .ok t' → t'.idleTimes = t.idleTimes
  orderTw : ∀ tw tw', tw.Perm s.tw → tw'.Perm s.tw →
    (tcpKillTimewait { s with tw := tw' }).idleTimes =
      (tcpKillTimewait { s with tw := tw }).idleTimes

/-- Among the active pcbs whose priority is at most `prio`, if there are any, one has both the lowest
    priority, which is at most `TCP_PRIO_MAX`, and the longest inactivity. -/
def LowestIsOldest (s : Store) (prio : ℕ) : Prop :=
  (∀ x ∈ s.active, ¬ x.pcb.prio ≤ prio) ∨
    ∃ g ∈ s.active, Slot.Eligible prio g ∧
      ∀ x ∈ s.active, x.pcb.prio ≤ prio → Slot.AsFit s.ticks x g

/-- `tcp_kill_prio` is right in every order if one pcb is the best victim in both respects. -/
theorem LowestIsOldest.killPrio {s : Store} {prio : ℕ} (h : LowestIsOldest s prio) :
    AbandonsOldest (fun x => x.pcb.prio ≤ prio) s.active true s (tcpKillPrio s prio) := by
  unfold tcpKillPrio
  rw [killPrioLoop_eq]
  cases hv : Scan.best (Slot.AsFit s.ticks) (s.active.filter (Slot.Eligible prio)) none with
  | none =>
    left
    refine ⟨rfl, ?_⟩
    rcases h with h | ⟨g, hg, hel, -⟩
    · exact h
    · have hnil := Scan.best_none.mp hv
      have hm : g ∈ s.active.filter (Slot.Eligible prio) :=
        List.mem_filter.mpr ⟨hg, decide_eq_true hel⟩
      rw [hnil] at hm
      cases hm
  | some v =>
    right
    have hm := List.mem_filter.mp (Scan.mem_of_best hv)
    have hel : Slot.Eligible prio v := of_decide_eq_true hm.2
    refine ⟨v, hm.1, hel.1, fun x hx hk => ?_, rfl⟩
    rcases h with h | ⟨g, hg, hgel, hgr⟩
    · exact absurd hk (h x hx)
    · have hgv : Slot.AsFit s.ticks g v := by
        refine Scan.best_of_greatest (List.mem_filter.mpr ⟨hg, decide_eq_true hgel⟩) ?_ hv
        intro y hy
        have hy := List.mem_filter.mp hy
        have hye : Slot.Eligible prio y := of_decide_eq_true hy.2
        exact hgr y hy.1 hye.1
      exact (hgr x hx hk).2.trans hgv.2

/-- If it is right when a pcb of lowest priority comes first, that one has the longest inactivity. -/
theorem VictimsRight.lowestIsOldest {s : Store} {prio : ℕ} (h : VictimsRight s prio) :
    LowestIsOldest s prio := by
  by_cases hnone : ∀ x ∈ s.active, ¬ x.pcb.prio ≤ prio
  · exact .inl hnone
  push Not at hnone
  obtain ⟨x, hx, hxp⟩ := hnone
  have hxf : x ∈ (s.active.filter (·.pcb.prio ≤ prio)) :=
    List.mem_filter.mpr ⟨hx, decide_eq_true hxp⟩
  classical
  obtain ⟨y, hy, hmin⟩ := (s.active.filter (·.pcb.prio ≤ prio)).toFinset.exists_min_image
    (fun z => z.pcb.prio) ⟨x, List.mem_toFinset.mpr hxf⟩
  have hy := List.mem_filter.mp (List.mem_toFinset.mp hy)
  have hyp : y.pcb.prio ≤ prio := of_decide_eq_true hy.2
  have hmin (z : Slot) (hz : z ∈ s.active) (hzp : z.pcb.prio ≤ prio) : y.pcb.prio ≤ z.pcb.prio :=
    hmin z (List.mem_toFinset.mpr (List.mem_filter.mpr ⟨hz, decide_eq_true hzp⟩))
  -- the order with `y` in front
  obtain ⟨rest, hrest⟩ : ∃ rest, (y :: rest).Perm s.active := by
    obtain ⟨l₁, l₂, he⟩ := List.append_of_mem hy.1
    exact ⟨l₁ ++ l₂, by rw [he]; exact List.perm_middle.symm⟩
  rcases h.killPrio _ hrest with ⟨-, hn⟩ | ⟨v, hv, hvp, hold, habandon⟩
  · exact absurd hyp (hn y List.mem_cons_self)
  -- the victim is the one that the loop finds behind `y`
  have hloop := killPrioLoop_eq s.ticks prio (y :: rest)
  change { s with active := y :: rest }.abandonIf
    (killPrioLoop s.ticks prio (y :: rest) TCP_PRIO_MAX 0 none) true = _ at habandon
  rw [hloop] at habandon
  cases hbest : Scan.best (Slot.AsFit s.ticks) ((y :: rest).filter (Slot.Eligible prio)) none with
  | none =>
    rw [hbest] at habandon
    have hlen := congrArg (fun t : Store => t.free) habandon
    exact absurd hlen (by simp [Store.abandonIf, Store.abandon])
  | some w =>
    have hwm := List.mem_filter.mp (Scan.mem_of_best hbest)
    have hwe : Slot.Eligible prio w := of_decide_eq_true hwm.2
    have hwa : w ∈ s.active := hrest.subset hwm.1
    have hye : Slot.Eligible prio y := ⟨hyp, (hmin w hwa hwe.1).trans hwe.2⟩
    rw [List.filter_cons, if_pos (decide_eq_true hye), Scan.best] at hbest
    have hyw : Slot.AsFit s.ticks y w := Scan.best_ge hbest
    have hw : w = v := by
      rw [List.filter_cons, if_pos (decide_eq_true hye), Scan.best, hbest] at habandon
      have hlog := congrArg (fun t : Store => t.abandoned) habandon
      have hlog : s.abandoned ++ [(w, true)] = s.abandoned ++ [(v, true)] := hlog
      simpa using hlog
    refine .inr ⟨w, hwa, hwe, fun z hz hzp => ⟨hyw.1.trans (hmin z hz hzp), ?_⟩⟩
    rw [hw]
    exact hold z (hrest.symm.subset hz) hzp

theorem toFront_perm (hdr : TcpHdr) (active : List Slot) : (toFront hdr active).Perm active := by
  unfold toFront
  split
  · exact .refl _
  · next x hx =>
    obtain ⟨hf, l₁, l₂, rfl, hl⟩ := List.find?_eq_some_iff_append.mp hx
    have hl : ∀ y ∈ l₁, ¬ Slot.found hdr y = true := fun y hy => by simpa using hl y hy
    rw [List.eraseP_append_right _ hl, List.eraseP_cons_of_pos hf]
    exact List.perm_middle.symm

/-- For every set of pcbs: all three functions are right in every order exactly when one pcb is the
    best victim of `tcp_kill_prio` in both respects. -/
theorem victims_right_iff (s : Store) (prio : ℕ) : VictimsRight s prio ↔ LowestIsOldest s prio := by
  constructor
  · exact VictimsRight.lowestIsOldest
  · intro h
    have hprio (active : List Slot) (hp : active.Perm s.active) :
        AbandonsOldest (fun x => x.pcb.prio ≤ prio) active true { s with active := active }
          (tcpKillPrio { s with active := active } prio) := by
      refine LowestIsOldest.killPrio (s := { s with active := active }) ?_
      rcases h with h | ⟨g, hg, hel, hgr⟩
      · exact .inl fun x hx => h x (hp.subset hx)
      · exact .inr ⟨g, hp.symm.subset hg, hel, fun x hx => hgr x (hp.subset hx)⟩
    refine ⟨hprio, fun active _ state hst => ?_, fun tw _ => ?_, fun active active' hp hp' => ?_,
      fun tw tw' hp hp' => ?_⟩
    · obtain ⟨s', hs'⟩ := tcpKillState_ok { s with active := active } hst
      exact ⟨s', hs', tcpKillState_oldest hs'⟩
    · exact tcpKillTimewait_oldest { s with tw := tw }
    · have hl := hp.trans hp'.symm
      refine ⟨(hprio active hp).idleTimes (hprio active' hp') hl rfl rfl, fun state t t' ht ht' => ?_⟩
      exact (tcpKillState_oldest ht).idleTimes (tcpKillState_oldest ht') hl rfl rfl
    · exact (tcpKillTimewait_oldest { s with tw := tw }).idleTimes
        (tcpKillTimewait_oldest { s with tw := tw' }) (hp.trans hp'.symm) rfl rfl

/-- Two connections: the first has the normal priority and has been idle for ten ticks, the second has
    the lowest priority and has been idle for five. -/
def twoConns : Store where
  ticks := 10
  active :=
    [⟨0, { tcpAllocPcb TCP_PRIO_NORMAL 0 0 with state := .ESTABLISHED, connId := ⟨49153, 7⟩ }⟩,
      ⟨1, { tcpAllocPcb 1 0 5 with state := .ESTABLISHED, connId := ⟨49154, 9⟩ }⟩]
  tw := []

/-- The header of a segment for the second of them. -/
def secondHdr : TcpHdr :=
  { connid1 := 49154, connid2 := 9, seqno := 0, ackno := 0, hdrlen := 5, flags := {}, wnd := 0 }

/-- As they are, the first is killed. Behind a segment for the second, the second is, which has not
    been idle for as long. -/
theorem victims_right_fails : ∃ hdr : TcpHdr,
    (tcpKillPrio twoConns TCP_PRIO_NORMAL).abandoned.map (·.1.addr) = [0] ∧
    (tcpKillPrio { twoConns with active := toFront hdr twoConns.active }
      TCP_PRIO_NORMAL).abandoned.map (·.1.addr) = [1] ∧
    ¬ VictimsRight twoConns TCP_PRIO_NORMAL := by
  refine ⟨secondHdr, by decide, by decide, fun h => ?_⟩
  rcases h.killPrio _ (toFront_perm secondHdr twoConns.active) with ⟨he, -⟩ | ⟨v, -, -, hold, he⟩
  · have he := congrArg (fun s : Store => s.free) he
    exact absurd he (by decide)
  · have hlog := congrArg (fun s : Store => s.abandoned) he
    have hv : v.inactivity 10 = 5 := by
      have h5 := congrArg (fun l : List (Slot × Bool) => l.map (·.1.inactivity 10)) hlog
      have h5 : [5] = [v.inactivity 10] := h5
      simpa using h5.symm
    have hten := hold ⟨0, { tcpAllocPcb TCP_PRIO_NORMAL 0 0 with
      state := .ESTABLISHED, connId := ⟨49153, 7⟩ }⟩ (.tail _ (.head _)) (by decide)
    have hten : 10 ≤ v.inactivity 10 := hten
    omega

end Rudp
