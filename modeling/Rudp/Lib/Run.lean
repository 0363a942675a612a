import Mathlib

/-!
# Runs of a machine that can fail

`Except ε` computations taken apart, and the runs of a machine `step : σ → ι → Except ε σ`.

Results:
* `Run.bind_eq_ok`, `Run.bind_eq_error`: what a sequence of two computations that succeeds has
  computed, and where one that fails has failed.
* `Run.Fails F x`: `x` succeeds or fails with an error that meets `F`; `Run.Fails.bind` is the rule
  for sequences.
* `Run.Reach step C s₀ s`: a run from `s₀` that arrives at `s`, each of whose steps meets the
  condition `C`.
* `Run.Reach.invariant`: what the start satisfies and every such step keeps holds where the run
  arrives.
* `Run.Reach.exec`, `Run.Reach.check`: a list of inputs executed by `exec` or `check` is a run.
-/

universe u

namespace Run

/-! ## Successful computations -/

section Except

variable {ε : Type*} {α β : Type u}

theorem bind_eq_ok {x : Except ε α} {f : α → Except ε β} {b : β} :
    x >>= f = .ok b ↔ ∃ a, x = .ok a ∧ f a = .ok b := by
  cases x with
  | error e => simp [bind, Except.bind]
  | ok a => simp [bind, Except.bind]

theorem bind_eq_error {x : Except ε α} {f : α → Except ε β} {e : ε} :
    x >>= f = .error e ↔ x = .error e ∨ ∃ a, x = .ok a ∧ f a = .error e := by
  cases x with
  | error e' => simp [bind, Except.bind]
  | ok a => simp [bind, Except.bind]

theorem map_eq_ok {f : α → β} {x : Except ε α} {b : β} :
    f <$> x = .ok b ↔ ∃ a, x = .ok a ∧ f a = b := by
  cases x with
  | error e => simp [Functor.map, Except.map]
  | ok a => simp [Functor.map, Except.map]

theorem forM_eq_ok {f : α → Except ε PUnit} {l : List α} {u : PUnit} :
    l.forM f = .ok u ↔ ∀ a ∈ l, f a = .ok ⟨⟩ := by
  induction l with
  | nil => simp [pure, Except.pure]
  | cons a l ih =>
    show (f a >>= fun _ => l.forM f) = .ok u ↔ _
    rw [bind_eq_ok, List.forall_mem_cons]
    constructor
    · rintro ⟨_, ha, hl⟩
      exact ⟨ha, ih.mp hl⟩
    · rintro ⟨ha, hl⟩
      exact ⟨_, ha, ih.mpr hl⟩

/-! ## Errors -/

/-- If `x` fails, its error meets `F`. -/
def Fails (F : ε → Prop) (x : Except ε α) : Prop := ∀ e, x = .error e → F e

namespace Fails

variable {F F' : ε → Prop} {x : Except ε α}

theorem ok (a : α) : Fails F (.ok a : Except ε α) := by
  intro e h
  cases h

theorem error {e : ε} (h : F e) : Fails F (.error e : Except ε α) := by
  intro e' he
  cases he
  exact h

theorem bind {f : α → Except ε β} (hx : Fails F x) (hf : ∀ a, x = .ok a → Fails F (f a)) :
    Fails F (x >>= f) := by
  intro e h
  rcases bind_eq_error.mp h with h | ⟨a, ha, h⟩
  · exact hx e h
  · exact hf a ha e h

theorem forM {f : α → Except ε PUnit} {l : List α} (hf : ∀ a ∈ l, Fails F (f a)) :
    Fails F (l.forM f) := by
  induction l with
  | nil => exact ok _
  | cons a l ih =>
    refine bind (hf a List.mem_cons_self) fun _ _ => ih fun b hb => ?_
    exact hf b (List.mem_cons_of_mem a hb)

theorem map (f : α → β) (hx : Fails F x) : Fails F (f <$> x) := by
  intro e h
  apply hx
  cases x with
  | error e' => simpa [Functor.map, Except.map] using h
  | ok a => simp [Functor.map, Except.map] at h

theorem mono (h : ∀ e, F e → F' e) (hx : Fails F x) : Fails F' x := fun e he => h e (hx e he)

end Fails

end Except

/-! ## Runs -/

variable {σ ι : Type*} {ε : Type*} (step : σ → ι → Except ε σ)

/-- `s` is where a run from `s₀` arrives, each of whose steps meets the condition `C`. -/
inductive Reach (C : σ → ι → Prop) (s₀ : σ) : σ → Prop
  | refl : Reach C s₀ s₀
  | step {s s' : σ} (i : ι) : Reach C s₀ s → C s i → step s i = .ok s' → Reach C s₀ s'

/-- Execute a list of inputs as long as they pass a check. -/
def check (ok : σ → ι → Bool) : σ → List ι → Option σ
  | s, [] => some s
  | s, i :: is =>
    if ok s i then
      match step s i with
      | .ok s' => check ok s' is
      | .error _ => none
    else none

/-- Execute a list of inputs. -/
def exec (s : σ) (is : List ι) : Except ε σ := is.foldlM step s

variable {step} {C C' : σ → ι → Prop} {s₀ s s' : σ}

/-- The rule for invariants. -/
theorem Reach.invariant {I : σ → Prop} (h₀ : I s₀)
    (hs : ∀ s i s', I s → C s i → step s i = .ok s' → I s') (h : Reach step C s₀ s) : I s := by
  induction h with
  | refl => exact h₀
  | step i _ hc he ih => exact hs _ i _ ih hc he

/-- A run under a stronger condition is a run. -/
theorem Reach.mono (hC : ∀ s i, C s i → C' s i) (h : Reach step C s₀ s) : Reach step C' s₀ s := by
  induction h with
  | refl => exact .refl
  | step i _ hc he ih => exact .step i ih (hC _ i hc) he

theorem Reach.trans (h : Reach step C s₀ s) (h' : Reach step C s s') : Reach step C s₀ s' := by
  induction h' with
  | refl => exact h
  | step i _ hc he ih => exact .step i ih hc he

/-- Executing a list is a run, whose steps meet any condition that is met everywhere. -/
theorem Reach.exec (hC : ∀ s i, C s i) {is : List ι} (h : exec step s is = .ok s') :
    Reach step C s s' := by
  induction is generalizing s with
  | nil =>
    obtain rfl : s = s' := by simpa [Run.exec, pure, Except.pure] using h
    exact .refl
  | cons i is ih =>
    obtain ⟨s₁, h₁, h₂⟩ := bind_eq_ok.mp h
    exact Reach.trans (.step i .refl (hC s i) h₁) (ih h₂)

/-- Executing a list that passes a check is a run, whose steps meet what the check implies. -/
theorem Reach.check {ok : σ → ι → Bool} (hC : ∀ s i, ok s i = true → C s i) {is : List ι}
    (h : check step ok s is = some s') : Reach step C s s' := by
  induction is generalizing s with
  | nil =>
    cases h
    exact .refl
  | cons i is ih =>
    rw [Run.check] at h
    split at h
    · next hok =>
      split at h
      · next s₁ h₁ => exact Reach.trans (.step i .refl (hC s i hok) h₁) (ih h)
      · cases h
    · cases h

theorem Reach.check_getD {ok : σ → ι → Bool} (hC : ∀ s i, ok s i = true → C s i) {is : List ι}
    {d : σ} (h : (Run.check step ok s is).isSome = true) :
    Reach step C s ((Run.check step ok s is).getD d) := by
  obtain ⟨s', hs'⟩ := Option.isSome_iff_exists.mp h
  rw [hs', Option.getD_some]
  exact Reach.check hC hs'

end Run
