import Mathlib

/-!
# Scans that keep the best element

A loop over a list that keeps one element and replaces it by each later one that is at least as good.
The comparison is any preorder: two elements need not be comparable, and then the first one that is
met stays.

Results:
* `Scan.best_mem`, `Scan.best_ge`: the result is an element of the list, at least as good as what
  the scan starts with.
* `Scan.best_of_greatest`: in every order of a list that has a greatest element, the result is one.
-/

namespace Scan

variable {α : Type*} (r : α → α → Prop) [DecidableRel r]

/-- The element that the scan keeps; `r b x` says that `x` is at least as good as `b`. -/
def best : List α → Option α → Option α
  | [], kept => kept
  | x :: l, none => best l (some x)
  | x :: l, some b => if r b x then best l (some x) else best l (some b)

variable {r} {l : List α} {v : α}

theorem best_isSome {b : α} : (best r l (some b)).isSome := by
  induction l generalizing b with
  | nil => rfl
  | cons x l ih =>
    rw [best]
    split
    · exact ih
    · exact ih

theorem best_none : best r l none = none ↔ l = [] := by
  cases l with
  | nil => simp [best]
  | cons x l =>
    have h : (best r l (some x)).isSome := best_isSome
    rw [best]
    simp [Option.isSome_iff_ne_none.mp h]

theorem best_mem {b : α} (h : best r l (some b) = some v) : v = b ∨ v ∈ l := by
  induction l generalizing b with
  | nil =>
    rw [best] at h
    exact .inl (Option.some.inj h).symm
  | cons x l ih =>
    rw [best] at h
    split at h
    · rcases ih h with rfl | hv
      · exact .inr List.mem_cons_self
      · exact .inr (List.mem_cons_of_mem x hv)
    · rcases ih h with rfl | hv
      · exact .inl rfl
      · exact .inr (List.mem_cons_of_mem x hv)

theorem mem_of_best (h : best r l none = some v) : v ∈ l := by
  cases l with
  | nil => cases h
  | cons x l =>
    rw [best] at h
    rcases best_mem h with rfl | hv
    · exact List.mem_cons_self
    · exact List.mem_cons_of_mem x hv

variable [IsPreorder α r] {b : α}

theorem best_ge (h : best r l (some b) = some v) : r b v := by
  induction l generalizing b with
  | nil =>
    rw [best] at h
    cases h
    exact refl_of r _
  | cons x l ih =>
    rw [best] at h
    split at h
    · next hx => exact trans_of r hx (ih h)
    · exact ih h

theorem best_of_greatest {g : α} (hg : g ∈ l) (hl : ∀ x ∈ l, r x g)
    (h : best r l none = some v) : r g v := by
  have hkept {q : List α} {b : α} (hm : g ∈ q) (hb : r b g) (hq : ∀ x ∈ q, r x g)
      (h : best r q (some b) = some v) : r g v := by
    induction q generalizing b with
    | nil => cases hm
    | cons x q ih =>
      rw [best] at h
      rcases List.mem_cons.mp hm with rfl | hm
      · rw [if_pos hb] at h
        exact best_ge h
      · have hq' : ∀ y ∈ q, r y g := fun y hy => hq y (List.mem_cons_of_mem x hy)
        split at h
        · exact ih hm (hq x List.mem_cons_self) hq' h
        · exact ih hm hb hq' h
  cases l with
  | nil => cases hg
  | cons x l =>
    rw [best] at h
    rcases List.mem_cons.mp hg with rfl | hg
    · exact best_ge h
    · exact hkept hg (hl x List.mem_cons_self) (fun y hy => hl y (List.mem_cons_of_mem x hy)) h

end Scan
