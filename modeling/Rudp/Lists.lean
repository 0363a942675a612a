import Rudp.Linked
import Rudp.Micro

/-!
# The lists and the pool in a run

Results:
* `Host.lists_sane`: in every run of a host each pcb is on the list that its functions believe it to
  be on, once, and on no other; the free elements of the pool are those that have been freed, and
  none of them is on a list.
* `Host.lists_sane_busy`: a run in which a host has three connections.
-/

namespace Rudp

variable {W : Type} {app : App W} {pool : List ℕ} {h h' : Host W} {pcb : ℕ}

namespace Host

/-! ## The lists follow a pcb -/

/-- The list of the host with this name. -/
def listOf (h : Host W) : PcbList → List ℕ
  | .none => []
  | .bound => h.boundPcbs
  | .active => h.activePcbs
  | .tw => h.twPcbs

theorem listOf_rmv (l l' : PcbList) :
    (h.rmv pcb l).listOf l' = if l = l' then (h.listOf l').erase pcb else h.listOf l' := by
  cases l <;> cases l' <;> rfl

theorem listOf_reg (l l' : PcbList) :
    (h.reg pcb l).listOf l' = if l = l' ∧ l ≠ .none then pcb :: h.listOf l' else h.listOf l' := by
  cases l <;> cases l' <;> rfl

@[simp] theorem free_rmv (l : PcbList) : (h.rmv pcb l).free = h.free := by
  cases l <;> rfl

@[simp] theorem free_reg (l : PcbList) : (h.reg pcb l).free = h.free := by
  cases l <;> rfl

/-- The lists and the pool hold what each pcb says of itself. -/
structure Lists (pool : List ℕ) (list : ℕ → PcbList) (freed : ℕ → Bool) (h : Host W) : Prop where
  mem_iff : ∀ l, l ≠ .none → ∀ a, a ∈ h.listOf l ↔ list a = l
  nodup : ∀ l, (h.listOf l).Nodup
  free_iff : ∀ a, a ∈ h.free ↔ a ∈ pool ∧ freed a = true
  free_nodup : h.free.Nodup

/-- `follow` writes the lists and the pool. -/
theorem follow_frame (h : Host W) (pcb : ℕ) (old : St W) : ∃ free bound active tw, follow old pcb h =
    { h with free := free, boundPcbs := bound, activePcbs := active, twPcbs := tw } := by
  have hmove (h : Host W) (l l' : PcbList) : ∃ bound active tw, (h.rmv pcb l).reg pcb l' =
      { h with boundPcbs := bound, activePcbs := active, twPcbs := tw } := by
    cases l <;> cases l' <;> exact ⟨_, _, _, rfl⟩
  unfold follow
  dsimp only
  obtain ⟨free, e⟩ : ∃ free, (if old.freed = false ∧ (h.mem pcb).st.freed = true then
      { h with free := pcb :: h.free } else h) = { h with free := free } := by
    split
    · exact ⟨_, rfl⟩
    · exact ⟨_, rfl⟩
  rw [e]
  split
  · exact ⟨_, _, _, _, rfl⟩
  · obtain ⟨bound, active, tw, e⟩ := hmove { h with free := free } old.list (h.mem pcb).st.list
    exact ⟨_, bound, active, tw, e⟩

theorem mem_follow (old : St W) : (follow old pcb h).mem = h.mem := by
  obtain ⟨_, _, _, _, e⟩ := follow_frame h pcb old
  rw [e]

theorem timerCtr_follow (old : St W) : (follow old pcb h).timerCtr = h.timerCtr := by
  obtain ⟨_, _, _, _, e⟩ := follow_frame h pcb old
  rw [e]

theorem ticks_follow (old : St W) : (follow old pcb h).ticks = h.ticks := by
  obtain ⟨_, _, _, _, e⟩ := follow_frame h pcb old
  rw [e]

theorem mem_put (s : St W) :
    (h.put pcb s).mem = Function.update h.mem pcb { h.mem pcb with st := s } :=
  mem_follow _

theorem activePcbs_put {s : St W} (hold : (h.mem pcb).st.list ≠ .active) (hnew : s.list ≠ .active) :
    (h.put pcb s).activePcbs = h.activePcbs := by
  have hmove (h : Host W) (l : PcbList) (hl : l ≠ .active) :
      ((h.rmv pcb l).reg pcb s.list).activePcbs = h.activePcbs := by
    show ((h.rmv pcb l).reg pcb s.list).listOf .active = h.listOf .active
    rw [listOf_reg, listOf_rmv, if_neg fun e => hnew e.1, if_neg hl]
  unfold put follow
  simp only [Function.update_self]
  split_ifs <;> first | rfl | exact hmove _ _ hold

theorem ticks_put (s : St W) : (h.put pcb s).ticks = h.ticks := ticks_follow _

theorem nextCtr_put (s : St W) : (h.put pcb s).nextCtr = h.nextCtr :=
  congrArg (fun n => u8 (n + 1)) (timerCtr_follow _)

section Follow

variable {list : ℕ → PcbList} {freed : ℕ → Bool}

theorem Lists.congr {list' : ℕ → PcbList} {freed' : ℕ → Bool} (hL : Lists pool list freed h)
    (hl : ∀ a, list' a = list a) (hf : ∀ a, freed' a = freed a) : Lists pool list' freed' h := by
  rw [funext hl, funext hf]
  exact hL

/-- The pool behind a function that may have freed the pcb. -/
theorem Lists.pushFree {old new : Bool} (hL : Lists pool list freed h) (hfreed : freed pcb = old)
    (hmono : old = true → new = true) (hpool : pcb ∈ pool ∨ new = old) :
    Lists pool list (Function.update freed pcb new)
      (if old = false ∧ new = true then { h with free := pcb :: h.free } else h) := by
  split
  · next hc =>
    have hmem : pcb ∈ pool := by
      apply hpool.resolve_right
      rw [hc.1, hc.2]
      decide
    have hnot : pcb ∉ h.free := by
      rw [hL.free_iff, hfreed, hc.1]
      simp
    refine ⟨hL.mem_iff, hL.nodup, fun a => ?_, List.nodup_cons.mpr ⟨hnot, hL.free_nodup⟩⟩
    rw [List.mem_cons, hL.free_iff]
    by_cases ha : a = pcb
    · subst ha
      simp [hmem, hc.2]
    · simp [ha]
  · next hc =>
    refine hL.congr (fun _ => rfl) fun a => ?_
    by_cases ha : a = pcb
    · subst ha
      rw [Function.update_self, hfreed]
      cases old <;> cases new <;> simp_all
    · rw [Function.update_of_ne ha]

/-- The lists behind a function that may have moved the pcb. -/
theorem Lists.move {old new : PcbList} (hL : Lists pool list freed h) (hlist : list pcb = old) :
    Lists pool (Function.update list pcb new) freed
      (if new = old then h else (h.rmv pcb old).reg pcb new) := by
  split
  · next hc =>
    refine hL.congr (fun a => ?_) fun _ => rfl
    by_cases ha : a = pcb
    · subst ha
      rw [Function.update_self, hc, hlist]
    · rw [Function.update_of_ne ha]
  · next hc =>
    have hnot (hn : new ≠ .none) : pcb ∉ h.listOf new := by
      rw [hL.mem_iff new hn, hlist]
      exact Ne.symm hc
    refine ⟨fun l hl a => ?_, fun l => ?_, by simpa using hL.free_iff, by simpa using hL.free_nodup⟩
    · rw [listOf_reg, listOf_rmv]
      by_cases ha : a = pcb
      · subst ha
        rw [Function.update_self]
        by_cases hnew : new = l
        · subst hnew
          simp [hl]
        · rw [if_neg (fun e => hnew e.1)]
          refine iff_of_false ?_ hnew
          split
          · exact (hL.nodup l).not_mem_erase
          · next hol =>
            rw [hL.mem_iff l hl, hlist]
            exact hol
      · rw [Function.update_of_ne ha, ← hL.mem_iff l hl]
        split_ifs <;> simp [ha, List.mem_erase_of_ne ha]
    · rw [listOf_reg, listOf_rmv]
      have herase : ((h.listOf l).erase pcb).Nodup := (hL.nodup l).erase pcb
      by_cases hnew : new = l ∧ new ≠ .none
      · rw [if_pos hnew, ← hnew.1, if_neg (Ne.symm hc)]
        exact List.nodup_cons.mpr ⟨hnot hnew.2, hL.nodup new⟩
      · rw [if_neg hnew]
        split
        · exact herase
        · exact hL.nodup l

theorem Lists.follow (pcb : ℕ) (old : St W) (hL : Lists pool list freed h) (hlist : list pcb = old.list)
    (hfreed : freed pcb = old.freed) (hmono : old.freed = true → (h.mem pcb).st.freed = true)
    (hpool : pcb ∈ pool ∨ (h.mem pcb).st.freed = old.freed) :
    Lists pool (Function.update list pcb (h.mem pcb).st.list)
      (Function.update freed pcb (h.mem pcb).st.freed) (Host.follow old pcb h) :=
  (hL.pushFree hfreed hmono hpool).move hlist

end Follow

/-! ## What holds of a host -/

/-- The lists and the pool hold what the pcbs say, each pcb is where its state belongs, and what lies
    outside of the pool is not in use. -/
structure Sane (pool : List ℕ) (h : Host W) : Prop where
  lists : Lists pool (fun a => (h.mem a).st.list) (fun a => (h.mem a).st.freed) h
  listed : ∀ a, (h.mem a).st.Listed
  outside : ∀ a, a ∉ pool → (h.mem a).st.freed = true

namespace Sane

theorem mem_active (hS : Sane pool h) {a : ℕ} :
    a ∈ h.activePcbs ↔ (h.mem a).st.list = .active :=
  hS.lists.mem_iff .active (by simp) a

theorem mem_tw (hS : Sane pool h) {a : ℕ} : a ∈ h.twPcbs ↔ (h.mem a).st.list = .tw :=
  hS.lists.mem_iff .tw (by simp) a

/-- A pcb on a list is in use. -/
theorem live (hS : Sane pool h) {a : ℕ} (ha : (h.mem a).st.list ≠ .none) :
    (h.mem a).st.freed = false := by
  by_contra hf
  exact ha ((hS.listed a).unlinked (by simpa using hf))

theorem live_ok (hS : Sane pool h) {a : ℕ} (ha : (h.mem a).st.list ≠ .none) :
    (h.mem a).st.live = .ok () := by
  unfold St.live
  rw [hS.live ha]
  rfl

/-- A walk over a list meets no freed pcb. -/
theorem reads (hS : Sane pool h) {l : PcbList} (hl : l ≠ .none) : h.reads (h.listOf l) = .ok ⟨⟩ :=
  Run.forM_eq_ok.mpr fun a ha => hS.live_ok (by rwa [(hS.lists.mem_iff l hl a).mp ha])

/-- `tcp_pcbs_sane` asserts what holds. -/
theorem tcpPcbsSane (hS : Sane pool h) : h.tcpPcbsSane = .ok ⟨⟩ := by
  refine Run.bind_eq_ok.mpr ⟨⟨⟩, Run.forM_eq_ok.mpr fun a ha => ?_, Run.forM_eq_ok.mpr fun a ha => ?_⟩
  · have hl := hS.mem_active.mp ha
    have hs := (hS.listed a).state
    rw [hl] at hs
    obtain ⟨h1, h2, h3⟩ := hs
    rw [hS.live_ok (by rw [hl]; decide)]
    simp [lwipAssert, h1, h2, h3, bind, Except.bind]
  · have hl := hS.mem_tw.mp ha
    have hs := (hS.listed a).state
    rw [hl] at hs
    rw [hS.live_ok (by rw [hl]; decide)]
    exact lwipAssert_pos hs

theorem put {s : St W} (hS : Sane pool h) (hu : s.Listed)
    (hmono : (h.mem pcb).st.freed = true → s.freed = true) : Sane pool (h.put pcb s) := by
  have hst (a : ℕ) : (Function.update h.mem pcb { h.mem pcb with st := s } a).st =
      Function.update (fun a => (h.mem a).st) pcb s a := by
    by_cases ha : a = pcb
    · subst ha
      simp
    · simp [ha]
  have hpcb : (Function.update h.mem pcb { h.mem pcb with st := s } pcb).st = s := by simp
  have hmem : (h.put pcb s).mem = Function.update h.mem pcb { h.mem pcb with st := s } := mem_put s
  have hL : Lists pool (fun a => (h.mem a).st.list) (fun a => (h.mem a).st.freed)
      { h with mem := Function.update h.mem pcb { h.mem pcb with st := s } } :=
    ⟨hS.lists.mem_iff, hS.lists.nodup, hS.lists.free_iff, hS.lists.free_nodup⟩
  have hpool : pcb ∈ pool ∨ s.freed = (h.mem pcb).st.freed := by
    by_cases hp : pcb ∈ pool
    · exact .inl hp
    · have hf := hS.outside pcb hp
      exact .inr ((hmono hf).trans hf.symm)
  have hL' := hL.follow pcb (h.mem pcb).st rfl rfl (by rw [hpcb]; exact hmono)
    (by rw [hpcb]; exact hpool)
  rw [hpcb] at hL'
  refine ⟨?_, fun a => ?_, fun a ha => ?_⟩
  · refine hL'.congr (fun a => ?_) fun a => ?_
    · rw [hmem, hst, Function.apply_update fun _ t => St.list t]
    · rw [hmem, hst, Function.apply_update fun _ t => St.freed t]
  · rw [hmem, hst]
    by_cases he : a = pcb
    · subst he
      rw [Function.update_self]
      exact hu
    · rw [Function.update_of_ne he]
      exact hS.listed a
  · rw [hmem, hst]
    by_cases he : a = pcb
    · subst he
      rw [Function.update_self]
      exact hmono (hS.outside a ha)
    · rw [Function.update_of_ne he]
      exact hS.outside a ha

/-- `memp_malloc` returns a pcb that has been freed, so one that is on no list. -/
theorem malloc {prio : ℕ} {iss : U32} {callbackArg : W} {r : Option ℕ} (hS : Sane pool h)
    (hr : h.malloc prio iss callbackArg = (r, h')) :
    Sane pool h' ∧ ∀ a, r = some a → (h.mem a).st.list = .none ∧ (h'.mem a).st.freed = false ∧
      (h'.mem a).st.list = .none := by
  unfold Host.malloc at hr
  split at hr
  · cases hr
    exact ⟨hS, nofun⟩
  · next pcb free he =>
    cases hr
    have hin : pcb ∈ h.free := by
      rw [he]
      exact List.mem_cons_self
    obtain ⟨hpool, hfreed⟩ := (hS.lists.free_iff pcb).mp hin
    have hnone : (h.mem pcb).st.list = .none := (hS.listed pcb).unlinked hfreed
    have hnodup := hS.lists.free_nodup
    rw [he, List.nodup_cons] at hnodup
    refine ⟨⟨⟨fun l hl a => ?_, fun l => ?_, fun a => ?_, hnodup.2⟩, fun a => ?_, fun a ha => ?_⟩, ?_⟩
    · show a ∈ h.listOf l ↔ _
      rw [hS.lists.mem_iff l hl]
      by_cases ha : a = pcb
      · subst ha
        simp [hnone]
      · simp [ha]
    · exact hS.lists.nodup l
    · show a ∈ free ↔ _
      by_cases ha : a = pcb
      · subst ha
        simp [hnodup.1]
      · have h1 := hS.lists.free_iff a
        rw [he, List.mem_cons] at h1
        simpa [ha] using h1
    · by_cases ha : a = pcb
      · subst ha
        show (Function.update h.mem a _ a).st.Listed
        rw [Function.update_self]
        exact ⟨fun _ => rfl, trivial, fun _ _ => .inl rfl⟩
      · simpa [ha] using hS.listed a
    · by_cases he' : a = pcb
      · subst he'
        exact absurd hpool ha
      · simpa [he'] using hS.outside a ha
    · intro a hsome
      cases hsome
      refine ⟨hnone, ?_, ?_⟩
      · simp
      · simp

end Sane

theorem timerCtr_ne_nextCtr (h : Host W) : h.timerCtr ≠ h.nextCtr := by
  unfold nextCtr u8
  omega

/-- Nothing but `tcp_connect` puts a pcb on the active list. -/
theorem active_apiCall {s s' : St W} {call : Api} {err : Err} (hcall : NoConnect s.core call)
    (hr : apiCall s call = .ok (err, s')) (hl : s'.list = .active) : s.list = .active := by
  have hp : Preserved NoConnect (fun _ _ => True)
      (Relation.ReflTransGen (Micro NoConnect fun _ _ => True) s) := preserved_micro s
  have hk : Kept NoConnect _ _ (fun _ t => .ok (.ok, t)) _ := hp.toKept
  have hm := hk.apiCall hcall hr .refl
  clear hr
  induction hm with
  | refl => exact hl
  | tail _ hm ih => exact ih (hm.active hl)

/-- No pcb on the active list has the number of the next call of a timer. -/
def Marked (h : Host W) : Prop := ∀ a ∈ h.activePcbs, (h.mem a).lastTimer ≠ h.nextCtr

/-- What holds between two operations. -/
structure Inv (pool : List ℕ) (h : Host W) : Prop extends Sane pool h where
  marked : Marked h

/-! ### The searches -/

theorem mem_of_findActive {hdr : TcpHdr} {l : List ℕ} (hr : h.findActive hdr l = .ok (some pcb)) :
    pcb ∈ l := by
  induction l with
  | nil => cases hr
  | cons a l ih =>
    obtain ⟨_, -, hr⟩ := Run.bind_eq_ok.mp hr
    obtain ⟨_, -, hr⟩ := Run.bind_eq_ok.mp hr
    obtain ⟨_, -, hr⟩ := Run.bind_eq_ok.mp hr
    obtain ⟨_, -, hr⟩ := Run.bind_eq_ok.mp hr
    split at hr
    · cases hr
      exact List.mem_cons_self
    · exact List.mem_cons_of_mem a (ih hr)

theorem mem_of_findTw {hdr : TcpHdr} {l : List ℕ} (hr : h.findTw hdr l = .ok (some pcb)) :
    pcb ∈ l := by
  induction l with
  | nil => cases hr
  | cons a l ih =>
    obtain ⟨_, -, hr⟩ := Run.bind_eq_ok.mp hr
    obtain ⟨_, -, hr⟩ := Run.bind_eq_ok.mp hr
    split at hr
    · cases hr
      exact List.mem_cons_self
    · exact List.mem_cons_of_mem a (ih hr)

/-! ### The walks -/

/-- What a turn leaves. -/
def Turns (h : Host W) (visit : ℕ → Elem W → Except Fault (Walk.Turn × Elem W)) : Prop :=
  ∀ a e turn e', visit a e = .ok (turn, e') →
    turn = turnOf e'.st ∧ e'.lastTimer = h.nextCtr ∧ (e.st.Listed → e'.st.Listed)

variable {visit : ℕ → Elem W → Except Fault (Walk.Turn × Elem W)}

/-- The walk is the loop that gives each pcb one turn. -/
theorem walk_eq (hS : Sane pool h) (hM : Marked h) (hv : Turns h visit) :
    h.walk visit = (fun r => ({ h.activePcbs.foldl (fun h' pcb => follow (h.mem pcb).st pcb h')
      { h with mem := r.2 } with activePcbs := r.1 } : Host W)) <$>
        Walk.once visit notFirst false true h.activePcbs h.mem := by
  unfold walk
  rw [Walk.sweep_eq_once]
  · cases Walk.once visit notFirst false true h.activePcbs h.mem <;> rfl
  · intro a e turn e' he
    simpa [seen] using (hv a e turn e' he).2.1
  · exact Nat.lt_succ_self _
  · exact hS.lists.nodup .active
  · intro a ha
    simpa [seen] using hM a ha

theorem Lists.foldl {list : ℕ → PcbList} {freed : ℕ → Bool} {l : List ℕ} (old : ℕ → St W)
    (hnodup : l.Nodup) (hL : Lists pool list freed h)
    (hold : ∀ a ∈ l, list a = (old a).list ∧ freed a = false ∧ (old a).freed = false ∧ a ∈ pool) :
    Lists pool (fun a => if a ∈ l then (h.mem a).st.list else list a)
      (fun a => if a ∈ l then (h.mem a).st.freed else freed a)
      (l.foldl (fun h' a => Host.follow (old a) a h') h) := by
  induction l generalizing h list freed with
  | nil => exact hL.congr (fun a => by simp) fun a => by simp
  | cons b l ih =>
    obtain ⟨hb, hnodup⟩ := List.nodup_cons.mp hnodup
    obtain ⟨h1, h2, h3, h4⟩ := hold b List.mem_cons_self
    have hL' := hL.follow b (old b) h1 (h2.trans h3.symm) (by simp [h3]) (.inl h4)
    have hf := ih (h := Host.follow (old b) b h) hnodup hL' (by
      intro a ha
      have hne : a ≠ b := ne_of_mem_of_not_mem ha hb
      rw [Function.update_of_ne hne, Function.update_of_ne hne]
      exact hold a (List.mem_cons_of_mem b ha))
    rw [mem_follow] at hf
    refine hf.congr (fun a => ?_) fun a => ?_
    · by_cases he : a = b
      · subst he
        simp [hb]
      · simp [he]
    · by_cases he : a = b
      · subst he
        simp [hb]
      · simp [he]

theorem mem_foldl_follow (old : ℕ → St W) (l : List ℕ) :
    (l.foldl (fun h' a => follow (old a) a h') h).mem = h.mem := by
  induction l generalizing h with
  | nil => rfl
  | cons a l ih => exact ih.trans (mem_follow (old a))

theorem ticks_foldl_follow (old : ℕ → St W) (l : List ℕ) :
    (l.foldl (fun h' a => follow (old a) a h') h).ticks = h.ticks := by
  induction l generalizing h with
  | nil => rfl
  | cons a l ih => exact ih.trans (ticks_follow (old a))

/-- What a walk leaves: each pcb of the active list has had its turn, and the lists are sane. -/
theorem Sane.walk (hS : Sane pool h) (hM : Marked h) (hv : Turns h visit)
    (hr : h.walk visit = .ok h') :
    Sane pool h' ∧ (∀ a ∈ h.activePcbs, ∃ turn, visit a (h.mem a) = .ok (turn, h'.mem a)) ∧
      (∀ a ∉ h.activePcbs, h'.mem a = h.mem a) ∧ ∀ a ∈ h'.activePcbs, a ∈ h.activePcbs := by
  rw [walk_eq hS hM hv] at hr
  obtain ⟨⟨l, mem⟩, ho, rfl⟩ := Run.map_eq_ok.mp hr
  have hnodup : h.activePcbs.Nodup := hS.lists.nodup .active
  obtain ⟨hin, hout, hsub⟩ := Walk.once_spec hnodup ho
  have hactive {a : ℕ} (ha : a ∈ h.activePcbs) : (h.mem a).st.freed = false := hS.live (by
    rw [hS.mem_active.mp ha]
    decide)
  have hL : Lists pool (fun a => (h.mem a).st.list) (fun a => (h.mem a).st.freed)
      { h with mem := mem } :=
    ⟨hS.lists.mem_iff, hS.lists.nodup, hS.lists.free_iff, hS.lists.free_nodup⟩
  have hpool {a : ℕ} (ha : a ∈ h.activePcbs) : a ∈ pool := by
    by_contra hp
    have hf := hS.outside a hp
    rw [hactive ha] at hf
    cases hf
  have hL' := hL.foldl (fun a => (h.mem a).st) hnodup fun a ha => ⟨rfl, hactive ha, hactive ha, hpool ha⟩
  have hL₂ : Lists pool (fun a => (mem a).st.list) (fun a => (mem a).st.freed) _ := hL'.congr
    (fun a => by
      by_cases ha : a ∈ h.activePcbs
      · simp only [if_pos ha]
      · simp only [if_neg ha, hout a ha]) fun a => by
      by_cases ha : a ∈ h.activePcbs
      · simp only [if_pos ha]
      · simp only [if_neg ha, hout a ha]
  have hmem : (h.activePcbs.foldl (fun h' pcb => follow (h.mem pcb).st pcb h')
      { h with mem := mem }).mem = mem := mem_foldl_follow (fun a => (h.mem a).st) h.activePcbs
  have hstay (a : ℕ) : a ∈ l ↔ (mem a).st.list = .active := by
    by_cases ha : a ∈ h.activePcbs
    · obtain ⟨turn, hva, hiff⟩ := hin a ha
      rw [hiff, (hv a _ turn _ hva).1]
      unfold turnOf
      split_ifs with h1 h2
      · exact iff_of_true rfl h1
      · exact iff_of_false (by decide) h1
      · exact iff_of_false (by decide) h1
    · rw [hout a ha, ← hS.mem_active]
      exact iff_of_false (fun hl => ha (hsub.subset hl)) ha
  refine ⟨⟨⟨fun l' hl' a => ?_, fun l' => ?_, fun a => ?_, hL₂.free_nodup⟩, fun a => ?_, fun a ha => ?_⟩,
    fun a ha => ?_, fun a ha => ?_, fun a ha => hsub.subset ha⟩
  · rw [hmem]
    cases l' with
    | active => exact hstay a
    | none => exact absurd rfl hl'
    | bound => exact hL₂.mem_iff .bound hl' a
    | tw => exact hL₂.mem_iff .tw hl' a
  · cases l' with
    | active => exact hnodup.sublist hsub
    | none => exact hL₂.nodup .none
    | bound => exact hL₂.nodup .bound
    | tw => exact hL₂.nodup .tw
  · rw [hmem]
    exact hL₂.free_iff a
  · rw [hmem]
    by_cases ha : a ∈ h.activePcbs
    · obtain ⟨turn, hva, -⟩ := hin a ha
      exact (hv a _ turn _ hva).2.2 (hS.listed a)
    · rw [hout a ha]
      exact hS.listed a
  · rw [hmem, hout a fun hm => ha (hpool hm)]
    exact hS.outside a ha
  · rw [hmem]
    obtain ⟨turn, hva, -⟩ := hin a ha
    exact ⟨turn, hva⟩
  · rw [hmem]
    exact hout a ha

namespace Inv

/-- Whatever becomes of a pcb that is not put on the active list with the number of the next call. -/
theorem put {s : St W} (hI : Inv pool h) (hu : s.Listed)
    (hmono : (h.mem pcb).st.freed = true → s.freed = true)
    (hact : s.list = .active →
      (h.mem pcb).st.list = .active ∨ (h.mem pcb).lastTimer ≠ h.nextCtr) :
    Inv pool (h.put pcb s) := by
  have hS := hI.toSane.put hu hmono
  refine ⟨hS, fun a ha => ?_⟩
  rw [hS.mem_active, mem_put] at ha
  rw [mem_put, nextCtr_put]
  by_cases he : a = pcb
  · subst he
    rw [Function.update_self] at ha ⊢
    rcases hact ha with hl | hn
    · exact hI.marked a (hI.mem_active.mpr hl)
    · exact hn
  · rw [Function.update_of_ne he] at ha ⊢
    exact hI.marked a (hI.mem_active.mpr ha)

/-- The pcb was in use. -/
theorem putLive {s : St W} (hI : Inv pool h) (hl : (h.mem pcb).st.freed = false) (hu : s.Listed)
    (hact : s.list = .active →
      (h.mem pcb).st.list = .active ∨ (h.mem pcb).lastTimer ≠ h.nextCtr) :
    Inv pool (h.put pcb s) := by
  refine hI.put hu (fun hf => ?_) hact
  rw [hl] at hf
  cases hf

/-- The pcb is gone. -/
theorem putFreed {s : St W} (hI : Inv pool h) (hl : s.list = .none) (hf : s.freed = true) :
    Inv pool (h.put pcb s) := by
  have hs : s.Listed := by
    refine ⟨fun _ => hl, ?_, fun _ hf' => ?_⟩
    · rw [hl]
      trivial
    · rw [hf] at hf'
      cases hf'
  refine hI.put hs (fun _ => hf) fun hact => ?_
  rw [hl] at hact
  cases hact

/-! ### `tcp_alloc` -/

theorem abandonIf {fails : ℕ → List Bool} {inactive : Option Slot} {reset : Bool} (hI : Inv pool h)
    (hr : h.abandonIf fails inactive reset = .ok h') : Inv pool h' := by
  unfold Host.abandonIf at hr
  split at hr
  · cases hr
    exact hI
  · obtain ⟨s, h₁, hr⟩ := Run.bind_eq_ok.mp hr
    cases hr
    obtain ⟨hl, hf⟩ := tcpAbandon_unlinks h₁
    exact hI.putFreed hl hf

theorem kill {fails : ℕ → List Bool} {pcbs : List ℕ} {inactive : Option Slot} {reset : Bool}
    (hI : Inv pool h) (hr : (do h.reads pcbs; h.abandonIf fails inactive reset) = .ok h') :
    Inv pool h' := by
  obtain ⟨_, -, hr⟩ := Run.bind_eq_ok.mp hr
  exact hI.abandonIf hr

theorem killState {fails : ℕ → List Bool} {state : TcpState} (hI : Inv pool h)
    (hr : h.tcpKillState fails state = .ok h') : Inv pool h' := by
  obtain ⟨_, -, hr⟩ := Run.bind_eq_ok.mp hr
  exact hI.kill hr

/-- One of the attempts of `tcp_alloc`. -/
theorem attempt {x : Except Fault (Host W)} (hI : Inv pool h) (hx : x = .ok h' → Inv pool h')
    (hr : (if h.free = [] then x else .ok h) = .ok h') : Inv pool h' := by
  split at hr
  · exact hx hr
  · cases hr
    exact hI

/-- The pcb that `tcp_alloc` returns is in use, on no list, and has the number of the last call. -/
theorem alloc {fails : ℕ → List Bool} {prio : ℕ} {iss : U32} {callbackArg : W} {r : Option ℕ}
    (hI : Inv pool h) (hr : h.tcpAlloc fails prio iss callbackArg = .ok (r, h')) :
    Inv pool h' ∧ ∀ a, r = some a → (h'.mem a).st.freed = false ∧
      (h'.mem a).lastTimer ≠ h'.nextCtr := by
  obtain ⟨h₁, e₁, hr⟩ := Run.bind_eq_ok.mp hr
  have hI₁ := hI.attempt hI.kill e₁
  obtain ⟨h₂, e₂, hr⟩ := Run.bind_eq_ok.mp hr
  have hI₂ := hI₁.attempt hI₁.killState e₂
  obtain ⟨h₃, e₃, hr⟩ := Run.bind_eq_ok.mp hr
  have hI₃ := hI₂.attempt hI₂.killState e₃
  obtain ⟨h₄, e₄, hr⟩ := Run.bind_eq_ok.mp hr
  have hI₄ := hI₃.attempt hI₃.kill e₄
  have hm := Except.ok.inj hr
  obtain ⟨hS, hnew⟩ := hI₄.toSane.malloc hm
  unfold Host.malloc at hm
  split at hm
  · cases hm
    exact ⟨hI₄, nofun⟩
  · next pcb free he =>
    cases hm
    obtain ⟨hnone, hl, -⟩ := hnew pcb rfl
    refine ⟨⟨hS, fun a ha => ?_⟩, fun a hsome => ?_⟩
    · have hne : a ≠ pcb := by
        intro e
        have hact := hI₄.mem_active.mp ha
        rw [e, hnone] at hact
        cases hact
      show (Function.update h₄.mem pcb _ a).lastTimer ≠ _
      rw [Function.update_of_ne hne]
      exact hI₄.marked a ha
    · cases hsome
      refine ⟨hl, ?_⟩
      show (Function.update h₄.mem pcb _ pcb).lastTimer ≠ _
      rw [Function.update_self]
      exact timerCtr_ne_nextCtr h₄

/-! ### The API -/

theorem setprio {prio : ℕ} (hI : Inv pool h) (hr : h.tcpSetprio pcb prio = .ok h') :
    Inv pool h' := by
  obtain ⟨_, -, hr⟩ := Run.bind_eq_ok.mp hr
  cases hr
  exact hI.put ((hI.listed pcb).congr rfl rfl rfl rfl) id .inl

theorem bind {port : ℕ} (hI : Inv pool h) (hr : h.tcpBind pcb port = .ok h') : Inv pool h' := by
  obtain ⟨_, hlive, hr⟩ := Run.bind_eq_ok.mp hr
  obtain ⟨_, hst, hr⟩ := Run.bind_eq_ok.mp hr
  have hl := live_of_ok hlive
  split at hr
  · cases hr
    exact hI
  split at hr
  · cases hr
  · cases hr
    have hclosed : (h.mem pcb).st.pcb.state = .CLOSED := lwipAssert_ok hst
    exact hI.putLive hl (.move hl nofun hclosed) nofun

theorem listen {fails : List Bool} (hI : Inv pool h) (hr : h.tcpListen fails pcb = .ok h') :
    Inv pool h' := by
  obtain ⟨_, -, hr⟩ := Run.bind_eq_ok.mp hr
  obtain ⟨_, -, hr⟩ := Run.bind_eq_ok.mp hr
  split at hr
  · cases hr
    exact hI
  · cases hr
    have hI' : Inv pool (h.put pcb { (h.mem pcb).st with list := .none, freed := true }) :=
      hI.putFreed rfl rfl
    exact ⟨⟨⟨hI'.lists.mem_iff, hI'.lists.nodup, hI'.lists.free_iff, hI'.lists.free_nodup⟩,
      hI'.listed, hI'.outside⟩, hI'.marked⟩

theorem api {fails : List Bool} {call : Api} (hI : Inv pool h)
    (hcall : ∀ newPort iss, call = .connect newPort iss → (h.mem pcb).lastTimer ≠ h.nextCtr)
    (hr : h.api fails pcb call = .ok h') : Inv pool h' := by
  obtain ⟨⟨err, s⟩, h₁, hr⟩ := Run.bind_eq_ok.mp hr
  cases hr
  obtain ⟨_, hlive, -⟩ := Run.bind_eq_ok.mp h₁
  have hs : (h.load fails pcb).Listed := (hI.listed pcb).congr rfl rfl rfl rfl
  refine hI.putLive (live_of_ok hlive) (listed_apiCall hs h₁) fun hact => ?_
  cases call with
  | connect newPort iss => exact .inr (hcall newPort iss rfl)
  | _ => exact .inl (active_apiCall (s := h.load fails pcb) (by exact trivial) h₁ hact)

/-! ### Segments -/

theorem front (hI : Inv pool h) (hp : pcb ∈ h.activePcbs) : Inv pool (h.toFront pcb) := by
  have hperm : (pcb :: h.activePcbs.erase pcb).Perm h.activePcbs := (List.perm_cons_erase hp).symm
  refine ⟨⟨⟨fun l hl a => ?_, fun l => ?_, hI.lists.free_iff, hI.lists.free_nodup⟩, hI.listed,
    hI.outside⟩, fun a ha => hI.marked a (hperm.mem_iff.mp ha)⟩
  · change a ∈ (h.toFront pcb).listOf l ↔ (h.mem a).st.list = l
    rw [← hI.lists.mem_iff l hl]
    cases l with
    | active => exact hperm.mem_iff
    | _ => exact Iff.rfl
  · cases l with
    | active => exact hperm.nodup_iff.mpr (hI.lists.nodup .active)
    | none => exact hI.lists.nodup .none
    | bound => exact hI.lists.nodup .bound
    | tw => exact hI.lists.nodup .tw

theorem listenInput {fails : ℕ → List Bool} {rstFails : List Bool} {lpcb : ListenPcb W}
    {seg : InSegment} {iss serverId : U32} (hI : Inv pool h)
    (hr : h.tcpListenInput fails rstFails lpcb seg iss serverId = .ok h') : Inv pool h' := by
  unfold Host.tcpListenInput at hr
  split at hr
  · cases hr
    exact hI
  split at hr
  · cases hr
    exact ⟨⟨⟨hI.lists.mem_iff, hI.lists.nodup, hI.lists.free_iff, hI.lists.free_nodup⟩, hI.listed,
      hI.outside⟩, hI.marked⟩
  split at hr
  · obtain ⟨⟨npcb, h₁⟩, e₁, hr⟩ := Run.bind_eq_ok.mp hr
    obtain ⟨hI₁, hnew⟩ := hI.alloc e₁
    cases npcb with
    | none =>
      cases hr
      exact hI₁
    | some npcb =>
      obtain ⟨⟨err, s⟩, e₂, hr⟩ := Run.bind_eq_ok.mp hr
      cases hr
      obtain ⟨hl, hmark⟩ := hnew npcb rfl
      exact hI₁.putLive hl (listed_tcpListenSynAck (by exact hl) e₂) fun _ => .inr hmark
  · cases hr
    exact hI

end Inv

variable {P : Core → Api → Prop}

/-- A segment for a connection. -/
theorem Inv.found (happ : AppOk P app) {fails : List Bool} {seg : InSegment} {s : St W}
    (hI : Inv pool h) (hp : pcb ∈ h.activePcbs)
    (hr : Rudp.tcpInput app (h.load fails pcb) seg = .ok s) :
    Inv pool ((h.toFront pcb).put pcb s) := by
  have hact := hI.mem_active.mp hp
  have hne : (h.mem pcb).st.list ≠ .none := by
    rw [hact]
    decide
  have hl : (h.mem pcb).st.freed = false := hI.live hne
  have hs : (h.load fails pcb).Listed := (hI.listed pcb).congr rfl rfl rfl rfl
  exact (hI.front hp).putLive hl (listed_tcpInput happ hs hne hl hr) fun _ => .inl hact

theorem Inv.input (happ : AppOk P app) {fails : ℕ → List Bool} {rstFails : List Bool}
    {seg : InSegment} {iss serverId : U32} (hI : Inv pool h)
    (hr : h.tcpInput app fails rstFails seg iss serverId = .ok h') : Inv pool h' := by
  obtain ⟨found, e₁, hr⟩ := Run.bind_eq_ok.mp hr
  cases found with
  | some pcb =>
    obtain ⟨s, e₂, hr⟩ := Run.bind_eq_ok.mp hr
    obtain ⟨_, -, hr⟩ := Run.bind_eq_ok.mp hr
    obtain ⟨_, -, hr⟩ := Run.bind_eq_ok.mp hr
    cases hr
    exact hI.found happ (mem_of_findActive e₁) e₂
  | none =>
    obtain ⟨found, e₂, hr⟩ := Run.bind_eq_ok.mp hr
    cases found with
    | some pcb =>
      obtain ⟨s, e₃, hr⟩ := Run.bind_eq_ok.mp hr
      cases hr
      have hl : (h.mem pcb).st.freed = false := hI.live (by
        rw [hI.mem_tw.mp (mem_of_findTw e₂)]
        decide)
      have hv := rcvView_tcpTimewaitInput e₃
      have hs : (h.load (fails pcb) pcb).Listed := (hI.listed pcb).congr rfl rfl rfl rfl
      refine hI.putLive hl (hs.view hv) fun hact => .inl ?_
      rw [list_of_rcvView hv] at hact
      exact hact
    | none =>
      dsimp only at hr
      split at hr
      · exact hI.listenInput hr
      · split at hr
        · obtain ⟨_, -, hr⟩ := Run.bind_eq_ok.mp hr
          cases hr
          exact hI
        · cases hr

/-! ### The timers -/

theorem turns_fastVisit (happ : AppOk P app) (fails : ℕ → List Bool) :
    Turns h (h.fastVisit app fails) := by
  intro a e turn e' hv
  obtain ⟨_, -, hv⟩ := Run.bind_eq_ok.mp hv
  obtain ⟨s, hs, hv⟩ := Run.bind_eq_ok.mp hv
  cases hv
  exact ⟨rfl, rfl, fun hu => listed_tcpFasttmr happ
    (s := { e.st with fails := fails a, ticks := h.ticks, changed := false })
    (hu.congr rfl rfl rfl rfl) hs⟩

theorem turns_slowVisit (happ : AppOk P app) (fails : ℕ → List Bool) :
    Turns h (h.slowVisit app fails) := by
  intro a e turn e' hv
  obtain ⟨_, -, hv⟩ := Run.bind_eq_ok.mp hv
  obtain ⟨_, -, hv⟩ := Run.bind_eq_ok.mp hv
  obtain ⟨_, -, hv⟩ := Run.bind_eq_ok.mp hv
  obtain ⟨_, -, hv⟩ := Run.bind_eq_ok.mp hv
  obtain ⟨s, hs, hv⟩ := Run.bind_eq_ok.mp hv
  cases hv
  exact ⟨rfl, rfl, fun hu => listed_tcpSlowtmr happ
    (s := { e.st with fails := fails a, ticks := h.ticks + 1, changed := false })
    (hu.congr rfl rfl rfl rfl) hs⟩

/-- Behind a walk the pcbs of the active list have the number of the call. -/
theorem Inv.walked {ticks : U32} (hI : Inv pool h) (hv : Turns h visit) (hr : h.walk visit = .ok h') :
    Inv pool { h' with timerCtr := h.nextCtr, ticks := ticks } := by
  obtain ⟨hS, hin, -, hsub⟩ := hI.toSane.walk hI.marked hv hr
  refine ⟨⟨⟨hS.lists.mem_iff, hS.lists.nodup, hS.lists.free_iff, hS.lists.free_nodup⟩, hS.listed,
    hS.outside⟩, fun a ha => ?_⟩
  obtain ⟨turn, hva⟩ := hin a (hsub a ha)
  show (h'.mem a).lastTimer ≠ _
  rw [(hv a _ turn _ hva).2.1]
  exact timerCtr_ne_nextCtr { h' with timerCtr := h.nextCtr }

theorem Inv.slowtmrTw {l : List ℕ} (hI : Inv pool h) (hr : h.slowtmrTw l = .ok h') : Inv pool h' := by
  induction l generalizing h with
  | nil =>
    cases hr
    exact hI
  | cons a l ih =>
    obtain ⟨_, -, hr⟩ := Run.bind_eq_ok.mp hr
    obtain ⟨_, -, hr⟩ := Run.bind_eq_ok.mp hr
    have hu : (tcpSlowtmrTw (h.load [] a)).Listed :=
      listed_tcpSlowtmrTw ((hI.listed a).congr rfl rfl rfl rfl)
    refine ih (hI.put hu (fun hf => ?_) fun hact => .inl ?_) hr
    · unfold tcpSlowtmrTw
      split
      · rfl
      · exact hf
    · revert hact
      unfold tcpSlowtmrTw
      split
      · exact nofun
      · exact id

/-! ## Runs -/

/-- What the operations rest on: a pcb is not connected just where the number of the timer calls,
    which is an `u8_t`, has come round to the one that it was allocated with. -/
def HostOk (h : Host W) (op : (ℕ → List Bool) × HostOp W) : Prop :=
  match op.2 with
  | .api pcb (.connect _ _) => (h.mem pcb).lastTimer ≠ h.nextCtr
  | _ => True

theorem Inv.step {op : (ℕ → List Bool) × HostOp W} (happ : AppOk P app) (hI : Inv pool h)
    (hop : HostOk h op) (hr : hostStep app h op = .ok h') : Inv pool h' := by
  obtain ⟨fails, op⟩ := op
  unfold hostStep at hr
  cases op with
  | new iss callbackArg =>
    obtain ⟨⟨r, h₁⟩, e₁, rfl⟩ := Run.map_eq_ok.mp hr
    exact (hI.alloc e₁).1
  | setprio pcb prio => exact hI.setprio hr
  | bind pcb port => exact hI.bind hr
  | listen pcb => exact hI.listen hr
  | api pcb call =>
    refine hI.api (fun newPort iss hcall => ?_) hr
    subst hcall
    exact hop
  | input seg iss serverId rstFails => exact hI.input happ hr
  | fasttmr =>
    obtain ⟨h₁, e₁, hr⟩ := Run.bind_eq_ok.mp hr
    cases hr
    exact hI.walked (turns_fastVisit happ fails) e₁
  | slowtmr =>
    obtain ⟨h₁, e₁, hr⟩ := Run.bind_eq_ok.mp hr
    exact (hI.walked (turns_slowVisit happ fails) e₁).slowtmrTw hr

theorem Inv.boot (hpool : pool.Nodup) (callbackArg : W) : Inv pool (Host.boot pool callbackArg) where
  lists := by
    refine ⟨fun l hl a => ?_, fun l => ?_, fun a => ?_, hpool⟩
    · cases l <;> simp [Host.boot, listOf] at hl ⊢
    · cases l <;> simp [Host.boot, listOf]
    · simp [Host.boot]
  listed _ := ⟨fun _ => rfl, trivial, nofun⟩
  outside _ _ := rfl
  marked := nofun

/-- Every run. -/
theorem inv_of_reach (happ : AppOk P app) (hpool : pool.Nodup) {callbackArg : W}
    (hr : Run.Reach (hostStep app) HostOk (Host.boot pool callbackArg) h) : Inv pool h :=
  hr.invariant (Inv.boot hpool callbackArg) fun _ _ _ hI hop he => hI.step happ hop he

/-- In every run, each pcb is on the list that it was last registered on, once, and on no other, in a
    state that belongs to this list; the free elements of the pool are those that have been freed, each
    once, and no pcb that has been freed is on a list. -/
theorem lists_sane (happ : AppOk P app) (hpool : pool.Nodup) {callbackArg : W}
    (hr : Run.Reach (hostStep app) HostOk (Host.boot pool callbackArg) h) :
    (∀ l, (h.listOf l).Nodup ∧ ∀ a ∈ h.listOf l, (h.mem a).st.list = l ∧
        l.Holds (h.mem a).st.pcb.state ∧ a ∈ pool ∧ a ∉ h.free) ∧
      (∀ a, (h.mem a).st.list ≠ .none → a ∈ h.listOf (h.mem a).st.list) ∧
      h.free.Nodup ∧ ∀ a ∈ pool, a ∈ h.free ↔ (h.mem a).st.freed = true := by
  have hI := inv_of_reach happ hpool hr
  have hL := hI.lists
  refine ⟨fun l => ⟨hL.nodup l, fun a ha => ?_⟩, fun a ha => (hL.mem_iff _ ha a).mpr rfl,
    hL.free_nodup, fun a hp => by simp [hL.free_iff, hp]⟩
  have hne : l ≠ .none := by
    rintro rfl
    cases ha
  have hl : (h.mem a).st.list = l := (hL.mem_iff l hne a).mp ha
  have hlive : (h.mem a).st.freed = false := hI.live (hl ▸ hne)
  refine ⟨hl, hl ▸ (hI.listed a).state, ?_, fun hf => ?_⟩
  · by_contra hp
    have hf := hI.outside a hp
    rw [hlive] at hf
    cases hf
  · have hf' := ((hL.free_iff a).mp hf).2
    rw [hlive] at hf'
    cases hf'

/-- A check of the operations of a run, whose calls pass `call`. -/
def okCheck (call : Core → Api → Bool) (h : Host W) (op : (ℕ → List Bool) × HostOp W) : Bool :=
  match op.2 with
  | .api pcb (.connect newPort iss) =>
    decide ((h.mem pcb).lastTimer ≠ h.nextCtr) &&
      call (h.load (op.1 pcb) pcb).core (.connect newPort iss)
  | .api pcb a => call (h.load (op.1 pcb) pcb).core a
  | _ => true

theorem hostOk_of_check {call : Core → Api → Bool} {op : (ℕ → List Bool) × HostOp W}
    (hok : okCheck call h op = true) :
    HostOk h op ∧ ∀ pcb a, op.2 = .api pcb a → call (h.load (op.1 pcb) pcb).core a = true := by
  obtain ⟨fails, op⟩ := op
  cases op with
  | api pcb a =>
    cases a with
    | connect newPort iss =>
      obtain ⟨h1, h2⟩ := (Bool.and_eq_true _ _).mp hok
      refine ⟨of_decide_eq_true (p := (h.mem pcb).lastTimer ≠ h.nextCtr) h1, ?_⟩
      rintro _ _ ⟨⟩
      exact h2
    | _ =>
      refine ⟨trivial, ?_⟩
      rintro _ _ ⟨⟩
      exact hok
  | _ =>
    refine ⟨trivial, ?_⟩
    rintro _ _ ⟨⟩

/-- An application that refuses data at first, and aborts the connection when it is offered again. -/
def refusingApp : App Bool := fun e s =>
  match e with
  | .recv _ => if s.world = true then apiCall s .abort else .ok (.mem, { s with world := true })
  | _ => .ok (.ok, s)

theorem appOk_refusingApp {P : Core → Api → Prop} (hP : ∀ c, P c .abort) : AppOk P refusingApp := by
  intro e s ret s' h
  unfold refusingApp at h
  split at h
  · split at h
    · exact .single (.inr ⟨.abort, ret, hP _, h⟩)
    · cases h
      exact .single (.inl ⟨true, rfl⟩)
  · cases h
    exact .refl

/-- The client with this number sends a byte, behind the answer of the server. -/
def clientByte (connid1 connid2 : U32) : InSegment where
  tcphdr := { connid1 := connid1, connid2 := connid2, seqno := 1000, ackno := 2, hdrlen := 5
              flags := { ack := true, psh := true }, wnd := TCP_WND }
  p := [{ payload := [7] }]
  bound := oneByte_bound

/-- An application that listens on port 80 has three pcbs. Two clients connect, and a byte of each is
    refused; then the application opens a connection of its own. -/
def busyOps : List ((ℕ → List Bool) × HostOp Bool) :=
  [(fun _ => [], .new 1 false), (fun _ => [], .bind 0 80), (fun _ => [], .listen 0),
    (fun _ => [], .input clientSyn 1 7 []), (fun _ => [], .input (clientByte 4000 7) 1 7 []),
    (fun _ => [], .input { clientSyn with tcphdr.connid1 := 4001 } 1 8 []),
    (fun _ => [], .input (clientByte 4001 8) 1 8 []),
    (fun _ => [], .new 1 false), (fun _ => [], .api 2 (.connect 4002 1000))]

@[inherit_doc busyOps] def busy : Host Bool :=
  (Run.check (hostStep refusingApp) (okCheck fun _ _ => true) (Host.boot [0, 1, 2] false)
    busyOps).getD (Host.boot [] false)

theorem reach_busy : Run.Reach (hostStep refusingApp) HostOk (Host.boot [0, 1, 2] false) busy :=
  Run.Reach.check_getD (fun _ _ hok => (hostOk_of_check hok).1) (by decide +kernel)

theorem lists_sane_busy : busy.activePcbs = [2, 1, 0] ∧ (busy.mem 0).st.pcb.state = .ESTABLISHED ∧
    (∀ l, (busy.listOf l).Nodup ∧ ∀ a ∈ busy.listOf l, (busy.mem a).st.list = l ∧
      l.Holds (busy.mem a).st.pcb.state ∧ a ∈ [0, 1, 2] ∧ a ∉ busy.free) ∧
    (∀ a, (busy.mem a).st.list ≠ .none → a ∈ busy.listOf (busy.mem a).st.list) ∧
    busy.free.Nodup ∧ ∀ a ∈ [0, 1, 2], a ∈ busy.free ↔ (busy.mem a).st.freed = true := by
  refine ⟨?_, ?_, lists_sane (P := fun _ _ => True) (appOk_refusingApp fun _ => trivial) (by decide)
    reach_busy⟩
  · decide +kernel
  · decide +kernel

end Host

end Rudp
