import Mathlib

/-!
# Serial number arithmetic

Sequence numbers of a fixed width `w` that wrap around are compared through the sign of their
difference. `Serial.dist a b` is that difference as an integer in `[-2^(w-1), 2^(w-1))`.

Results:
* `dist_eq_sub`: seen from a common reference point `c`, distances subtract as integers as long
  as the result stays in the half space. Every comparison of two numbers near `c` is then a
  comparison of integers.
* `dist_add_ofInt`: moving a number by `n` moves its distance by `n`.
* `dist_eq_zero`: two numbers at distance `0` are equal.
* `along_concat`: a list of numbers that each lie near the one before has integer positions, which
  `along` counts.
-/

namespace Serial

variable {w : ℕ}

/-- The signed distance from `b` to `a`. -/
def dist (a b : BitVec w) : ℤ := (a - b).toInt

/-- `x` is a distance that `w` bits can represent. -/
def InHalf (w : ℕ) (x : ℤ) : Prop := -(2 ^ (w - 1) : ℤ) ≤ x ∧ x < 2 ^ (w - 1)

theorem bmod_eq_self (hw : 0 < w) {x : ℤ} (h : InHalf w x) : x.bmod (2 ^ w) = x := by
  obtain ⟨k, rfl⟩ : ∃ k, w = k + 1 := ⟨w - 1, by omega⟩
  obtain ⟨h0, h1⟩ := h
  have hp : (2 ^ (k + 1) : ℤ) = 2 * 2 ^ k := by ring
  have hk : (k + 1 - 1) = k := by omega
  rw [hk] at h0 h1
  apply Int.bmod_eq_of_le
  · push_cast; rw [hp]; omega
  · push_cast; rw [hp]; omega

theorem dist_inHalf (hw : 0 < w) (a b : BitVec w) : InHalf w (dist a b) := by
  obtain ⟨k, rfl⟩ : ∃ k, w = k + 1 := ⟨w - 1, by omega⟩
  exact ⟨BitVec.le_toInt _, BitVec.toInt_lt⟩

@[simp] theorem dist_self (a : BitVec w) : dist a a = 0 := by simp [dist]

/-- Distances from a common reference point subtract. -/
theorem dist_eq_sub (hw : 0 < w) {a b : BitVec w} (c : BitVec w)
    (h : InHalf w (dist a c - dist b c)) : dist a b = dist a c - dist b c := by
  have e : a - b = (a - c) - (b - c) := by
    rw [sub_sub_sub_cancel_right]
  unfold dist at h ⊢
  rw [e, BitVec.toInt_sub]
  exact bmod_eq_self hw h

theorem dist_add_ofInt (hw : 0 < w) (a b : BitVec w) (n : ℤ) (h : InHalf w (dist a b + n)) :
    dist (a + BitVec.ofInt w n) b = dist a b + n := by
  have e : a + BitVec.ofInt w n - b = (a - b) + BitVec.ofInt w n := by
    rw [BitVec.sub_eq_add_neg, BitVec.sub_eq_add_neg]
    ac_rfl
  unfold dist at h ⊢
  rw [e, BitVec.toInt_add, BitVec.toInt_ofInt, Int.add_bmod_bmod]
  exact bmod_eq_self hw h

theorem dist_add_ofNat (hw : 0 < w) (a b : BitVec w) (n : ℕ) (h : InHalf w (dist a b + n)) :
    dist (a + BitVec.ofNat w n) b = dist a b + n := by
  rw [← BitVec.ofInt_natCast]
  exact dist_add_ofInt hw a b n h

theorem eq_add_dist (a b : BitVec w) : a = b + BitVec.ofInt w (dist a b) := by
  unfold dist
  rw [BitVec.ofInt_toInt, BitVec.add_comm, BitVec.sub_add_cancel]

theorem dist_eq_zero {a b : BitVec w} (h : dist a b = 0) : a = b := by
  rw [eq_add_dist a b, h]
  simp

/-! ## Unwrapping -/

/-- Where the last number of a list lies, counted from `a`: each number is taken at its signed
    distance from the one before. -/
def along (a : BitVec w) : List (BitVec w) → ℤ
  | [] => 0
  | b :: l => dist b a + along b l

@[simp] theorem along_nil (a : BitVec w) : along a [] = 0 := rfl

theorem along_concat (a b : BitVec w) (l : List (BitVec w)) :
    along a (l ++ [b]) = along a l + dist b (l.getLastD a) := by
  induction l generalizing a with
  | nil => simp [along]
  | cons c l ih =>
    rw [List.cons_append, along, ih, along, List.getLastD_cons]
    ring

/-- It is a place of that number. -/
theorem add_along (a : BitVec w) (l : List (BitVec w)) :
    a + BitVec.ofInt w (along a l) = l.getLastD a := by
  induction l generalizing a with
  | nil => simp
  | cons b l ih =>
    rw [along, BitVec.ofInt_add, ← add_assoc, ← eq_add_dist, ih, List.getLastD_cons]

end Serial
