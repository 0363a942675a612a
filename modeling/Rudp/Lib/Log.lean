import Mathlib

/-!
# The past of a log

A log is a list of events, the newest last.

Results:
* `Log.Since good bad t`: a good event has happened, and no bad one since.
* `Log.Throughout J t`: each event of the log was justified by what came before it.
* `Log.throughout_concat`, `Log.Throughout.append`: one more event, several more events.
* `Log.Throughout.of_prefix`: what the log was before.
* `Log.since_concat`, `Log.since_append`: whether a good event is still the last one behind them.
-/

namespace Log

variable {α : Type*} {t u : List α} {x : α}

/-! ## Since -/

/-- A good event has happened, and no bad one since. -/
def Since (good bad : α → Prop) (t : List α) : Prop :=
  ∃ t₁ x t₂, t = t₁ ++ x :: t₂ ∧ good x ∧ ∀ y ∈ t₂, ¬ bad y

namespace Since

variable {good bad : α → Prop}

theorem concat (h : good x) : Since good bad (t ++ [x]) :=
  ⟨t, x, [], rfl, h, fun _ hy => (List.not_mem_nil hy).elim⟩

theorem append (h : Since good bad t) (hu : ∀ y ∈ u, ¬ bad y) : Since good bad (t ++ u) := by
  obtain ⟨t₁, x, t₂, rfl, hx, ht⟩ := h
  refine ⟨t₁, x, t₂ ++ u, by simp, hx, fun y hy => ?_⟩
  rcases List.mem_append.mp hy with hy | hy
  · exact ht y hy
  · exact hu y hy

theorem not_nil : ¬ Since good bad ([] : List α) := by
  intro h
  obtain ⟨t₁, x, t₂, ht, -⟩ := h
  exact absurd ht (by simp)

/-- Something good has happened. -/
theorem exists_mem (h : Since good bad t) : ∃ x ∈ t, good x := by
  obtain ⟨t₁, x, t₂, rfl, hx, -⟩ := h
  exact ⟨x, by simp, hx⟩

end Since

theorem since_concat {good bad : α → Prop} :
    Since good bad (t ++ [x]) ↔ good x ∨ (Since good bad t ∧ ¬ bad x) := by
  constructor
  · rintro ⟨t₁, y, t₂, ht, hy, hbad⟩
    rcases List.eq_nil_or_concat t₂ with rfl | ⟨t₃, z, rfl⟩
    · obtain ⟨-, hxy⟩ := List.append_inj' ht rfl
      obtain rfl : x = y := by simpa using hxy
      exact .inl hy
    · rw [List.concat_eq_append, ← List.cons_append, ← List.append_assoc] at ht
      obtain ⟨rfl, hxz⟩ := List.append_inj' ht rfl
      obtain rfl : x = z := by simpa using hxz
      exact .inr ⟨⟨t₁, y, t₃, rfl, hy, fun w hw => hbad w (by simp [hw])⟩, hbad x (by simp)⟩
  · rintro (hx | ⟨h, hx⟩)
    · exact Since.concat hx
    · apply h.append
      simpa using hx

/-- Events that are neither good nor bad. -/
theorem since_append {good bad : α → Prop} (hg : ∀ y ∈ u, ¬ good y) (hb : ∀ y ∈ u, ¬ bad y) :
    Since good bad (t ++ u) ↔ Since good bad t := by
  induction u generalizing t with
  | nil => simp
  | cons y u ih =>
    rw [← List.singleton_append, ← List.append_assoc,
      ih (fun z hz => hg z (by simp [hz])) (fun z hz => hb z (by simp [hz])), since_concat]
    simp [hg y (by simp), hb y (by simp)]

/-! ## Throughout -/

variable {J : List α → α → Prop}

/-- Each event was justified by the log in front of it. -/
def Throughout (J : List α → α → Prop) (t : List α) : Prop :=
  ∀ t₁ x t₂, t = t₁ ++ x :: t₂ → J t₁ x

theorem throughout_nil : Throughout J [] := by
  intro t₁ x t₂ h
  exact absurd h.symm (by simp)

theorem throughout_concat : Throughout J (t ++ [x]) ↔ Throughout J t ∧ J t x := by
  constructor
  · intro h
    refine ⟨fun t₁ y t₂ ht => h t₁ y (t₂ ++ [x]) (by simp [ht]), h t x [] rfl⟩
  · rintro ⟨h, hx⟩ t₁ y t₂ ht
    rcases List.eq_nil_or_concat t₂ with rfl | ⟨t₃, z, rfl⟩
    · obtain ⟨rfl, hy⟩ := List.append_inj' ht rfl
      obtain rfl : x = y := by simpa using hy
      exact hx
    · rw [List.concat_eq_append, ← List.cons_append, ← List.append_assoc] at ht
      exact h t₁ y t₃ (List.append_inj' ht rfl).1

theorem Throughout.of_prefix (h : Throughout J u) (htu : t <+: u) : Throughout J t := by
  obtain ⟨v, rfl⟩ := htu
  intro t₁ x t₂ ht
  exact h t₁ x (t₂ ++ v) (by rw [ht]; simp)

theorem throughout_of_getElem (h : ∀ (i : ℕ) (hi : i < t.length), J (t.take i) t[i]) :
    Throughout J t := by
  rintro t₁ x t₂ rfl
  have hx := h t₁.length (by simp)
  simpa using hx

/-- Events that need no justification. -/
theorem Throughout.append (h : Throughout J t) (hu : ∀ y ∈ u, ∀ t, J t y) :
    Throughout J (t ++ u) := by
  induction u generalizing t with
  | nil => simpa using h
  | cons y u ih =>
    have hy : Throughout J (t ++ [y]) := throughout_concat.mpr ⟨h, hu y (by simp) t⟩
    rw [← List.singleton_append, ← List.append_assoc]
    exact ih hy fun z hz => hu z (List.mem_cons_of_mem _ hz)

end Log
