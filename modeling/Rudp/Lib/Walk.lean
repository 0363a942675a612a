import Rudp.Lib.Run

/-!
# Walks over a linked list whose visits change it

A walk visits each element of a singly linked list that it does not find marked. Behind a visit the
element stays on the list, or the walk unlinks it from the element it came from, or the visit itself
has taken it off, and then the walk starts again at the head. A marked element is passed over, and
does not become the one the walk came from.

Results:
* `Walk.sweep_eq_once`: however often it starts again, the walk is the loop `once` that visits each
  element of the list once.
* `Walk.once_spec`: what that loop does to the list and to the elements.
* `Walk.once_exact`: when the visits succeed, it fails exactly if an element is unlinked directly
  behind one that has taken itself off, with one that has stayed in front of them.
* `Walk.once_fails`: it fails only as the visits do, or as the unlinking does.
-/

namespace Walk

variable {α S ε : Type}

/-- What becomes of an element in a visit. -/
inductive Turn
  | stays
  | unlink
  | again
  deriving DecidableEq, Repr

/-- The elements in memory, and the list. -/
structure Nodes (α S : Type) where
  mem : α → S
  list : List α

section Walk

variable [DecidableEq α] (seen : S → Bool) (visit : α → S → Except ε (Turn × S)) (cut mid : ε)

/-- `a` is unlinked: from `prev` if there is one, and then it is not expected at the head, otherwise
    it is. `rest` is what follows it. -/
def relink (prev : Option α) (a : α) (rest l : List α) : Except ε (List α) :=
  match prev with
  | some p => if l.head? = some a then .error mid else .ok (l.takeWhile (· ≠ p) ++ p :: rest)
  | none => if l.head? = some a then .ok rest else .error cut

/-- The walk from an element on, up to the next start: with `true` when it has to start again. -/
def pass : List α → Option α → Nodes α S → Except ε (Bool × Nodes α S)
  | [], _, h => .ok (false, h)
  | a :: rest, prev, h =>
    if seen (h.mem a) then pass rest prev h
    else do
      let (turn, s) ← visit a (h.mem a)
      let h := { h with mem := Function.update h.mem a s }
      match turn with
      | .stays => pass rest (some a) h
      | .unlink => do
        let list ← relink cut mid prev a rest h.list
        pass rest prev { h with list := list }
      | .again => .ok (true, { h with list := h.list.erase a })

/-- The walk with at most `n` starts. -/
def sweep : ℕ → Nodes α S → Except ε (Nodes α S)
  | 0, h => .ok h
  | n + 1, h => do
    let (again, h) ← pass seen visit cut mid h.list none h
    if again then sweep n h else .ok h

/-- The loop that visits each element of a list once, and returns what is left of the list. `kept`
    says that an element in front has stayed, `fresh` that none has since the last start. -/
def once : (kept fresh : Bool) → List α → (α → S) → Except ε (List α × (α → S))
  | _, _, [], mem => .ok ([], mem)
  | kept, fresh, a :: l, mem => do
    let (turn, s) ← visit a (mem a)
    let mem := Function.update mem a s
    match turn with
    | .stays => do
      let (l, mem) ← once true false l mem
      .ok (a :: l, mem)
    | .unlink => if kept && fresh then .error cut else once kept fresh l mem
    | .again => once kept true l mem

end Walk

/-! ## The walk visits each element once -/

section Sweep

variable [DecidableEq α] {seen : S → Bool} {visit : α → S → Except ε (Turn × S)} {cut mid : ε}
variable {mem : α → S} {done rest : List α} {prev : Option α}

/-- Elements that are marked are passed over. -/
theorem pass_append (hdone : ∀ a ∈ done, seen (mem a) = true) (l : List α) :
    pass seen visit cut mid (done ++ rest) prev ⟨mem, l⟩ = pass seen visit cut mid rest prev ⟨mem, l⟩ := by
  induction done with
  | nil => rfl
  | cons a done ih =>
    have ha : seen (mem a) = true := hdone a List.mem_cons_self
    rw [List.cons_append, pass, if_pos ha]
    exact ih fun b hb => hdone b (List.mem_cons_of_mem a hb)

/-- The element that the walk came from is the last one that stayed, or it has just started. -/
def CameFrom (done : List α) (prev : Option α) : Prop :=
  prev = none ∨ ∃ l p, done = l ++ [p] ∧ prev = some p

/-- An element is unlinked from the last one that stayed in front of it. -/
theorem relink_eq {a : α} (hp : CameFrom done prev) (hn : (done ++ a :: rest).Nodup) :
    relink cut mid prev a rest (done ++ a :: rest) =
      if !done.isEmpty && prev.isNone then .error cut else .ok (done ++ rest) := by
  rcases hp with rfl | ⟨l, p, rfl, rfl⟩
  · cases done with
    | nil => simp [relink]
    | cons b done =>
      have hne : b ≠ a := by
        intro e
        simp [e] at hn
      simp [relink, hne]
  · have hp : p ∉ l := by
      intro h
      rw [List.append_assoc, List.nodup_append] at hn
      exact hn.2.2 p h p (by simp) rfl
    have htake : (l ++ ([p] ++ a :: rest)).takeWhile (fun x => decide (x ≠ p)) = l := by
      rw [List.takeWhile_append_of_pos (by
        intro x hx
        have : x ≠ p := fun e => hp (e ▸ hx)
        simpa using this)]
      simp
    have hhead : (l ++ ([p] ++ a :: rest)).head? ≠ some a := by
      intro h
      cases l with
      | nil =>
        have e : p = a := by simpa using h
        simp [e] at hn
      | cons b l =>
        have e : b = a := by simpa using h
        simp [e] at hn
    simp only [relink, List.append_assoc, htake, if_neg hhead]
    simp

theorem sweep_from (hseen : ∀ a s turn s', visit a s = .ok (turn, s') → seen s' = true) (n : ℕ)
    (done : List α) (prev : Option α) (mem : α → S) (hn : rest.length ≤ n)
    (hnodup : (done ++ rest).Nodup) (hp : CameFrom done prev)
    (hdone : ∀ a ∈ done, seen (mem a) = true) (hrest : ∀ a ∈ rest, seen (mem a) = false) :
    (do
      let (again, h) ← pass seen visit cut mid rest prev ⟨mem, done ++ rest⟩
      if again then sweep seen visit cut mid n h else .ok h) =
    (fun r => ⟨r.2, done ++ r.1⟩) <$> once visit cut (!done.isEmpty) prev.isNone rest mem := by
  induction rest generalizing n done prev mem with
  | nil =>
    change (Except.ok (⟨mem, done ++ []⟩ : Nodes α S) : Except ε (Nodes α S)) = .ok ⟨mem, done ++ []⟩
    rfl
  | cons a rest ih =>
    obtain ⟨hne, hn'⟩ : a ∉ done ++ rest ∧ (done ++ rest).Nodup :=
      List.nodup_middle.mp hnodup |> List.nodup_cons.mp
    rw [List.mem_append, not_or] at hne
    have ha : seen (mem a) = false := hrest a List.mem_cons_self
    rw [pass, if_neg (by simp [ha]), once]
    cases hv : visit a (mem a) with
    | error e => rfl
    | ok r =>
      obtain ⟨turn, s⟩ := r
      -- behind the visit the marks are as the induction needs them
      have hs : seen s = true := hseen _ _ _ _ hv
      have hdone' : ∀ b ∈ done, seen (Function.update mem a s b) = true := by
        intro b hb
        rw [Function.update_of_ne (ne_of_mem_of_not_mem hb hne.1)]
        exact hdone b hb
      have hrest' : ∀ b ∈ rest, seen (Function.update mem a s b) = false := by
        intro b hb
        rw [Function.update_of_ne (ne_of_mem_of_not_mem hb hne.2)]
        exact hrest b (List.mem_cons_of_mem a hb)
      have hlen : rest.length + 1 ≤ n := hn
      change (do
        let (again, h) ← (match turn with
          | .stays => pass seen visit cut mid rest (some a) ⟨Function.update mem a s, done ++ a :: rest⟩
          | .unlink => do
            let list ← relink cut mid prev a rest (done ++ a :: rest)
            pass seen visit cut mid rest prev ⟨Function.update mem a s, list⟩
          | .again => .ok (true, ⟨Function.update mem a s, (done ++ a :: rest).erase a⟩))
        if again then sweep seen visit cut mid n h else .ok h) = _ <$> (match turn with
          | .stays => do
            let (l, mem) ← once visit cut true false rest (Function.update mem a s)
            .ok (a :: l, mem)
          | .unlink =>
            if !done.isEmpty && prev.isNone then .error cut
            else once visit cut (!done.isEmpty) prev.isNone rest (Function.update mem a s)
          | .again => once visit cut (!done.isEmpty) true rest (Function.update mem a s))
      cases turn with
      | stays =>
        have h := ih n (done ++ [a]) (some a) (Function.update mem a s) (by omega) (by simpa using hnodup)
          (.inr ⟨done, a, rfl, rfl⟩) (by
            intro b hb
            rcases List.mem_append.mp hb with hb | hb
            · exact hdone' b hb
            · rw [List.mem_singleton.mp hb, Function.update_self]
              exact hs) hrest'
        rw [List.append_assoc, show (!(done ++ [a]).isEmpty) = true by simp] at h
        refine h.trans ?_
        rw [Option.isNone_some]
        cases once visit cut true false rest (Function.update mem a s) with
        | error e => rfl
        | ok r =>
          exact congrArg (fun l => Except.ok (⟨r.2, l⟩ : Nodes α S)) (List.append_assoc done [a] r.1)
      | unlink =>
        dsimp only
        rw [relink_eq hp hnodup]
        split
        · rfl
        · exact ih n done prev _ (by omega) hn' hp hdone' hrest'
      | again =>
        obtain ⟨m, rfl⟩ : ∃ m, n = m + 1 := ⟨n - 1, by omega⟩
        dsimp only
        rw [List.erase_append_right _ hne.1, List.erase_cons_head]
        have h := ih m done none _ (by omega) hn' (.inl rfl) hdone' hrest'
        refine Eq.trans ?_ h
        change sweep seen visit cut mid (m + 1) _ = _
        rw [sweep]
        dsimp only
        rw [pass_append hdone']

/-- Enough starts given, the walk over a list without marked elements is the loop that visits each of
    them once. -/
theorem sweep_eq_once (hseen : ∀ a s turn s', visit a s = .ok (turn, s') → seen s' = true) {n : ℕ}
    {l : List α} (hn : l.length < n) (hnodup : l.Nodup) (hl : ∀ a ∈ l, seen (mem a) = false) :
    sweep seen visit cut mid n ⟨mem, l⟩ = (fun r => ⟨r.2, r.1⟩) <$> once visit cut false true l mem := by
  obtain ⟨m, rfl⟩ : ∃ m, n = m + 1 := ⟨n - 1, by omega⟩
  exact sweep_from hseen m [] none mem (Nat.lt_succ_iff.mp hn) hnodup (.inl rfl) nofun hl

end Sweep

/-! ## Cuts -/

section Cuts

/-- An element is unlinked directly behind one that has taken itself off the list, and one in front
    of them has stayed. -/
def CutsOff (turn : α → Turn) (l : List α) : Prop :=
  ∃ l₁ a b l₂, l = l₁ ++ a :: b :: l₂ ∧ (∃ k ∈ l₁, turn k = .stays) ∧ turn a = .again ∧
    turn b = .unlink

/-- The same where the loop has come to: `kept` says that an element has stayed before the list,
    `fresh` that none has since the last start. -/
def Cuts (turn : α → Turn) (kept fresh : Bool) (l : List α) : Prop :=
  (kept = true ∧ fresh = true ∧ ∃ b l₂, l = b :: l₂ ∧ turn b = .unlink) ∨
    ∃ l₁ a b l₂, l = l₁ ++ a :: b :: l₂ ∧ (kept = true ∨ ∃ k ∈ l₁, turn k = .stays) ∧
      turn a = .again ∧ turn b = .unlink

variable {turn : α → Turn} {kept fresh : Bool} {a : α} {l : List α}

theorem cuts_nil : ¬ Cuts turn kept fresh [] := by
  rintro (⟨-, -, b, l₂, h, -⟩ | ⟨l₁, a, b, l₂, h, -⟩)
  · cases h
  · simp at h

/-- Where the pair of a cut may begin. -/
theorem cons_eq_pair {l₁ l₂ : List α} {b c : α} :
    a :: l = l₁ ++ c :: b :: l₂ ↔
      (l₁ = [] ∧ a = c ∧ l = b :: l₂) ∨ ∃ l₃, l₁ = a :: l₃ ∧ l = l₃ ++ c :: b :: l₂ := by
  rw [List.cons_eq_append_iff]
  simp [eq_comm]

theorem cuts_stays (h : turn a = .stays) : Cuts turn kept fresh (a :: l) ↔ Cuts turn true false l := by
  constructor
  · rintro (⟨-, -, b, l₂, hl, hb⟩ | ⟨l₁, c, b, l₂, hl, -, hc, hb⟩)
    · cases hl
      simp [h] at hb
    · rcases cons_eq_pair.mp hl with ⟨-, rfl, -⟩ | ⟨l₃, -, rfl⟩
      · simp [h] at hc
      · exact .inr ⟨l₃, c, b, l₂, rfl, .inl rfl, hc, hb⟩
  · rintro (⟨-, hf, -⟩ | ⟨l₁, c, b, l₂, rfl, -, hc, hb⟩)
    · cases hf
    · exact .inr ⟨a :: l₁, c, b, l₂, rfl, .inr ⟨a, List.mem_cons_self, h⟩, hc, hb⟩

theorem cuts_unlink (h : turn a = .unlink) :
    Cuts turn kept fresh (a :: l) ↔ (kept && fresh) = true ∨ Cuts turn kept fresh l := by
  rw [Bool.and_eq_true]
  constructor
  · rintro (⟨hk, hf, -⟩ | ⟨l₁, c, b, l₂, hl, hk, hc, hb⟩)
    · exact .inl ⟨hk, hf⟩
    · rcases cons_eq_pair.mp hl with ⟨-, rfl, -⟩ | ⟨l₃, rfl, rfl⟩
      · simp [h] at hc
      · exact .inr (.inr ⟨l₃, c, b, l₂, rfl, by simpa [h] using hk, hc, hb⟩)
  · rintro (⟨hk, hf⟩ | ⟨hk, hf, -⟩ | ⟨l₁, c, b, l₂, rfl, hk, hc, hb⟩)
    · exact .inl ⟨hk, hf, a, l, rfl, h⟩
    · exact .inl ⟨hk, hf, a, l, rfl, h⟩
    · exact .inr ⟨a :: l₁, c, b, l₂, rfl, by simpa [h] using hk, hc, hb⟩

theorem cuts_again (h : turn a = .again) : Cuts turn kept fresh (a :: l) ↔ Cuts turn kept true l := by
  constructor
  · rintro (⟨-, -, b, l₂, hl, hb⟩ | ⟨l₁, c, b, l₂, hl, hk, hc, hb⟩)
    · cases hl
      simp [h] at hb
    · rcases cons_eq_pair.mp hl with ⟨rfl, rfl, rfl⟩ | ⟨l₃, rfl, rfl⟩
      · exact .inl ⟨by simpa using hk, rfl, b, l₂, rfl, hb⟩
      · exact .inr ⟨l₃, c, b, l₂, rfl, by simpa [h] using hk, hc, hb⟩
  · rintro (⟨hk, -, b, l₂, rfl, hb⟩ | ⟨l₁, c, b, l₂, rfl, hk, hc, hb⟩)
    · exact .inr ⟨[], a, b, l₂, rfl, .inl hk, h, hb⟩
    · exact .inr ⟨a :: l₁, c, b, l₂, rfl, by simpa [h] using hk, hc, hb⟩

theorem cuts_iff : Cuts turn false true l ↔ CutsOff turn l := by
  simp [Cuts, CutsOff]

end Cuts

/-! ## What the loop does -/

section Once

variable [DecidableEq α] {visit : α → S → Except ε (Turn × S)} {cut : ε} {turn : α → Turn}
variable {kept fresh : Bool} {a : α} {l l' : List α} {mem mem' : α → S}

theorem once_stays {s : S} (hv : visit a (mem a) = .ok (.stays, s)) :
    once visit cut kept fresh (a :: l) mem =
      (fun r => (a :: r.1, r.2)) <$> once visit cut true false l (Function.update mem a s) := by
  rw [once, hv]
  rfl

theorem once_unlink {s : S} (hv : visit a (mem a) = .ok (.unlink, s)) :
    once visit cut kept fresh (a :: l) mem =
      if kept && fresh then .error cut else once visit cut kept fresh l (Function.update mem a s) := by
  rw [once, hv]
  rfl

theorem once_again {s : S} (hv : visit a (mem a) = .ok (.again, s)) :
    once visit cut kept fresh (a :: l) mem = once visit cut kept true l (Function.update mem a s) := by
  rw [once, hv]
  rfl

/-- Each element of the list is visited in the state it had before, the others are left alone, and
    those that stay are still in order. -/
theorem once_spec (hnodup : l.Nodup) (h : once visit cut kept fresh l mem = .ok (l', mem')) :
    (∀ a ∈ l, ∃ turn, visit a (mem a) = .ok (turn, mem' a) ∧ (a ∈ l' ↔ turn = .stays)) ∧
      (∀ a ∉ l, mem' a = mem a) ∧ l'.Sublist l := by
  induction l generalizing kept fresh mem l' with
  | nil =>
    rw [once] at h
    cases h
    exact ⟨nofun, fun _ _ => rfl, .slnil⟩
  | cons a l ih =>
    obtain ⟨ha, hnodup⟩ := List.nodup_cons.mp hnodup
    obtain ⟨⟨turn, s⟩, hv, -⟩ := Run.bind_eq_ok.mp h
    -- what the induction says of the rest, with `l₁` what stays of it
    have hcons {l₁ : List α} (hl' : ∀ b, b ≠ a → (b ∈ l' ↔ b ∈ l₁)) (ht : a ∈ l' ↔ turn = .stays)
        (ih : (∀ b ∈ l, ∃ turn, visit b (Function.update mem a s b) = .ok (turn, mem' b) ∧
          (b ∈ l₁ ↔ turn = .stays)) ∧ (∀ b ∉ l, mem' b = Function.update mem a s b) ∧
            l₁.Sublist l) :
        (∀ b ∈ a :: l, ∃ turn, visit b (mem b) = .ok (turn, mem' b) ∧ (b ∈ l' ↔ turn = .stays)) ∧
          ∀ b ∉ a :: l, mem' b = mem b := by
      obtain ⟨hin, hout, -⟩ := ih
      constructor
      · intro b hb
        rcases List.mem_cons.mp hb with rfl | hb
        · refine ⟨turn, ?_, ht⟩
          rw [hout b ha, Function.update_self]
          exact hv
        · have hne : b ≠ a := ne_of_mem_of_not_mem hb ha
          rw [hl' b hne, ← Function.update_of_ne hne s mem]
          exact hin b hb
      · intro b hb
        rw [List.mem_cons, not_or] at hb
        rw [hout b hb.2, Function.update_of_ne hb.1]
    cases turn with
    | stays =>
      rw [once_stays hv] at h
      obtain ⟨⟨l₁, mem₁⟩, h₁, h⟩ := Run.map_eq_ok.mp h
      cases h
      have ih₁ := ih hnodup h₁
      obtain ⟨hin, hout⟩ := hcons (fun b hb => by simp [hb]) (by simp) ih₁
      exact ⟨hin, hout, ih₁.2.2.cons_cons a⟩
    | unlink =>
      rw [once_unlink hv] at h
      split at h
      · cases h
      · have ih₁ := ih hnodup h
        obtain ⟨hin, hout⟩ := hcons (fun _ _ => .rfl)
          (by simpa using fun hm => ha (ih₁.2.2.subset hm)) ih₁
        exact ⟨hin, hout, ih₁.2.2.cons a⟩
    | again =>
      rw [once_again hv] at h
      have ih₁ := ih hnodup h
      obtain ⟨hin, hout⟩ := hcons (fun _ _ => .rfl)
        (by simpa using fun hm => ha (ih₁.2.2.subset hm)) ih₁
      exact ⟨hin, hout, ih₁.2.2.cons a⟩

/-- If the visits succeed, the loop fails where a cut is, and otherwise it keeps those that stay. -/
theorem once_eq {out : α → S} (kept fresh : Bool) (hnodup : l.Nodup)
    (hv : ∀ a ∈ l, visit a (mem a) = .ok (turn a, out a)) :
    (Cuts turn kept fresh l → once visit cut kept fresh l mem = .error cut) ∧
      (¬ Cuts turn kept fresh l → ∃ mem',
        once visit cut kept fresh l mem = .ok (l.filter fun a => turn a = .stays, mem')) := by
  induction l generalizing kept fresh mem with
  | nil => exact ⟨fun h => (cuts_nil h).elim, fun _ => ⟨mem, rfl⟩⟩
  | cons a l ih =>
    obtain ⟨ha, hnodup⟩ := List.nodup_cons.mp hnodup
    have hv' : ∀ b ∈ l, visit b (Function.update mem a (out a) b) = .ok (turn b, out b) := by
      intro b hb
      rw [Function.update_of_ne (ne_of_mem_of_not_mem hb ha)]
      exact hv b (List.mem_cons_of_mem a hb)
    have hva := hv a List.mem_cons_self
    cases ht : turn a with
    | stays =>
      rw [ht] at hva
      obtain ⟨hcut, hok⟩ := ih true false hnodup hv'
      rw [cuts_stays ht, List.filter_cons_of_pos (by simpa using ht), once_stays hva]
      constructor
      · intro h
        rw [hcut h]
        rfl
      · intro h
        obtain ⟨mem', h'⟩ := hok h
        exact ⟨mem', by rw [h']; rfl⟩
    | unlink =>
      rw [ht] at hva
      obtain ⟨hcut, hok⟩ := ih kept fresh hnodup hv'
      rw [cuts_unlink ht, List.filter_cons_of_neg (by simp [ht]), once_unlink hva]
      by_cases hkf : (kept && fresh) = true
      · simp [hkf]
      · rw [if_neg hkf]
        simpa [hkf] using And.intro hcut hok
    | again =>
      rw [ht] at hva
      rw [cuts_again ht, List.filter_cons_of_neg (by simp [ht]), once_again hva]
      exact ih kept true hnodup hv'

/-- The whole loop. -/
theorem once_exact {out : α → S} (cut : ε) (hnodup : l.Nodup)
    (hv : ∀ a ∈ l, visit a (mem a) = .ok (turn a, out a)) :
    (CutsOff turn l → once visit cut false true l mem = .error cut) ∧
      (¬ CutsOff turn l → ∃ mem',
        once visit cut false true l mem = .ok (l.filter fun a => turn a = .stays, mem')) := by
  rw [← cuts_iff]
  exact once_eq false true hnodup hv

/-- The loop fails only as a visit of an element in its first state does, or as the cut does. -/
theorem once_fails {F : ε → Prop} (kept fresh : Bool) (hcut : F cut) (hnodup : l.Nodup)
    (hv : ∀ a ∈ l, Run.Fails F (visit a (mem a))) :
    Run.Fails F (once visit cut kept fresh l mem) := by
  induction l generalizing kept fresh mem with
  | nil => exact .ok _
  | cons a l ih =>
    obtain ⟨ha, hnodup⟩ := List.nodup_cons.mp hnodup
    have ih (s : S) (kept fresh : Bool) :
        Run.Fails F (once visit cut kept fresh l (Function.update mem a s)) := by
      apply ih kept fresh hnodup
      intro b hb
      rw [Function.update_of_ne (ne_of_mem_of_not_mem hb ha)]
      exact hv b (List.mem_cons_of_mem a hb)
    rw [once]
    refine .bind (hv a List.mem_cons_self) fun r _ => ?_
    obtain ⟨turn, s⟩ := r
    cases turn with
    | stays => exact .bind (ih s true false) fun _ _ => .ok _
    | unlink =>
      dsimp only
      split
      · exact .error hcut
      · exact ih s kept fresh
    | again => exact ih s kept true

end Once

end Walk
