import Rudp.Types

/-!
# Sequence numbers near a reference point

The comparisons of `tcp_impl.h` are decided by signed distances. Seen from a reference point `r`
(`rcv_nxt` or `lastack`), numbers less than `2^30` away compare as the integers `Serial.dist a r`.
-/

namespace Rudp

open Serial

/-- `a` is so close to `r` that sums and differences of such distances are exact. -/
def Near (r a : U32) : Prop := -2 ^ 30 < dist a r ∧ dist a r < 2 ^ 30

theorem near_self (r : U32) : Near r r := by simp [Near]

theorem inHalf_32 {x : ℤ} : InHalf 32 x ↔ -2147483648 ≤ x ∧ x < 2147483648 := by
  simp [InHalf]

theorem dist_lower (a b : U32) : -2147483648 ≤ dist a b :=
  (inHalf_32.mp (dist_inHalf (by decide) a b)).1

theorem dist_upper (a b : U32) : dist a b < 2147483648 :=
  (inHalf_32.mp (dist_inHalf (by decide) a b)).2

variable {r a b c : U32}

theorem Near.dist (ha : Near r a) (hb : Near r b) : dist a b = dist a r - dist b r := by
  obtain ⟨h1, h2⟩ := ha
  obtain ⟨h3, h4⟩ := hb
  exact dist_eq_sub (by decide) r (inHalf_32.mpr (by omega))

theorem dist_add_u32 (a r : U32) (n : ℕ) (h : dist a r + n < 2147483648) :
    dist (a + u32 n) r = dist a r + n := by
  have := dist_lower a r
  exact dist_add_ofNat (by decide) a r n (inHalf_32.mpr (by omega))

theorem dist_add_one (a r : U32) (h : dist a r < 2147483647) : dist (a + 1) r = dist a r + 1 :=
  dist_add_u32 a r 1 (by push_cast; omega)

theorem dist_sub_one (a r : U32) (h : -2147483648 < dist a r) : dist (a - 1) r = dist a r - 1 := by
  have hu := dist_upper a r
  have e : a - 1 = a + BitVec.ofInt 32 (-1) := by
    rw [BitVec.sub_eq_add_neg]
    rfl
  rw [e]
  exact dist_add_ofInt (by decide) a r (-1) (inHalf_32.mpr (by omega))

/-- An unsigned difference is the distance when that is not negative. -/
theorem u32_toNat_sub (a b : U32) (h : 0 ≤ dist a b) : ((a - b).toNat : ℤ) = dist a b := by
  unfold Serial.dist at *
  rw [BitVec.toInt_eq_toNat_cond] at *
  split_ifs at * with hlt
  · rfl
  · have := (a - b).isLt
    omega

theorem eq_iff_dist (ha : Near r a) (hb : Near r b) : a = b ↔ dist a r = dist b r := by
  constructor
  · rintro rfl; rfl
  · intro h
    exact dist_eq_zero (by rw [ha.dist hb]; omega)

theorem tcpSeqLt_iff (ha : Near r a) (hb : Near r b) : tcpSeqLt a b ↔ dist a r < dist b r := by
  unfold tcpSeqLt
  rw [ha.dist hb]
  omega

theorem tcpSeqLeq_iff (ha : Near r a) (hb : Near r b) : tcpSeqLeq a b ↔ dist a r ≤ dist b r := by
  unfold tcpSeqLeq
  rw [ha.dist hb]
  omega

theorem tcpSeqGt_iff (ha : Near r a) (hb : Near r b) : tcpSeqGt a b ↔ dist b r < dist a r := by
  unfold tcpSeqGt
  rw [ha.dist hb]
  omega

theorem tcpSeqGeq_iff (ha : Near r a) (hb : Near r b) : tcpSeqGeq a b ↔ dist b r ≤ dist a r := by
  unfold tcpSeqGeq
  rw [ha.dist hb]
  omega

theorem tcpSeqBetween_iff (ha : Near r a) (hb : Near r b) (hc : Near r c) :
    tcpSeqBetween a b c ↔ dist b r ≤ dist a r ∧ dist a r ≤ dist c r := by
  unfold tcpSeqBetween
  rw [tcpSeqGeq_iff ha hb, tcpSeqLeq_iff ha hc]

theorem u16_of_lt {n : ℕ} (h : n < 65536) : u16 n = n := Nat.mod_eq_of_lt h

end Rudp
