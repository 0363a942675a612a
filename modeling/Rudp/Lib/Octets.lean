import Mathlib

/-!
# Words in memory and on the wire

A word of `k` octets is a natural number below `256 ^ k`. A host stores it in its own byte order;
on the wire the most significant octet comes first.

Results:
* `ofLe_toLe`, `toLe_ofLe`: a word and its octets determine each other.
* `Order.load_store`: what is stored is loaded.
* `Order.store_hton`: a word in network order lies in memory as on the wire, on every host.
* `Order.hton_or`: bits can be set in a word in network order.
-/

namespace Octets

/-! ## Octets -/

/-- The `k` octets of `n`, the least significant one first. -/
def toLe : ℕ → ℕ → List UInt8
  | 0, _ => []
  | k + 1, n => UInt8.ofNat n :: toLe k (n / 256)

/-- The number whose octets are given, the least significant one first. -/
def ofLe : List UInt8 → ℕ
  | [] => 0
  | b :: l => b.toNat + 256 * ofLe l

@[simp] theorem length_toLe (k n : ℕ) : (toLe k n).length = k := by
  induction k generalizing n with
  | zero => rfl
  | succ k ih => rw [toLe, List.length_cons, ih]

theorem ofLe_toLe (k n : ℕ) : ofLe (toLe k n) = n % 256 ^ k := by
  induction k generalizing n with
  | zero => rw [toLe, ofLe, pow_zero, Nat.mod_one]
  | succ k ih =>
    have hb : (UInt8.ofNat n).toNat = n % 256 := UInt8.toNat_ofNat'
    rw [toLe, ofLe, ih, hb, pow_succ', Nat.mod_mul]

theorem ofLe_lt (l : List UInt8) : ofLe l < 256 ^ l.length := by
  induction l with
  | nil => exact Nat.one_pos
  | cons b l ih =>
    have hb : b.toNat < 256 := b.toNat_lt
    rw [ofLe, List.length_cons, pow_succ]
    omega

theorem toLe_ofLe (l : List UInt8) : toLe l.length (ofLe l) = l := by
  induction l with
  | nil => rfl
  | cons b l ih =>
    have hb : b.toNat < 256 := b.toNat_lt
    have hdiv : (b.toNat + 256 * ofLe l) / 256 = ofLe l := by omega
    have hmod : UInt8.ofNat (b.toNat + 256 * ofLe l) = b := by
      apply UInt8.toNat_inj.mp
      rw [UInt8.toNat_ofNat']
      omega
    rw [List.length_cons, ofLe, toLe, hdiv, hmod, ih]

/-! ## Bits -/

section Bits

variable {f : ℕ → ℕ → ℕ} {g : UInt8 → UInt8 → UInt8}

/-- An operation that acts on the octets one by one. -/
structure Bitwise (f : ℕ → ℕ → ℕ) (g : UInt8 → UInt8 → UInt8) : Prop where
  octet (m n : ℕ) : UInt8.ofNat (f m n) = g (UInt8.ofNat m) (UInt8.ofNat n)
  div (m n : ℕ) : f m n / 256 = f (m / 256) (n / 256)

theorem toLe_bitwise (h : Bitwise f g) (k m n : ℕ) :
    toLe k (f m n) = List.zipWith g (toLe k m) (toLe k n) := by
  induction k generalizing m n with
  | zero => rfl
  | succ k ih => rw [toLe, toLe, toLe, List.zipWith_cons_cons, h.octet, h.div, ih]

theorem bitwise_or : Bitwise (· ||| ·) (· ||| ·) where
  octet m n := by
    apply UInt8.toNat_inj.mp
    rw [UInt8.toNat_or, UInt8.toNat_ofNat', UInt8.toNat_ofNat', UInt8.toNat_ofNat']
    exact Nat.or_mod_two_pow
  div m n := by
    rw [← Nat.shiftRight_eq_div_pow _ 8, ← Nat.shiftRight_eq_div_pow _ 8,
      ← Nat.shiftRight_eq_div_pow _ 8]
    exact Nat.shiftRight_or_distrib

end Bits

/-! ## Byte orders -/

/-- The byte order of a host. -/
inductive Order
  | little
  | big

namespace Order

variable (o : Order)

/-- How the host stores a word. -/
def store (k n : ℕ) : List UInt8 :=
  match o with
  | little => toLe k n
  | big => (toLe k n).reverse

/-- The word that the host finds in memory. -/
def load (l : List UInt8) : ℕ :=
  match o with
  | little => ofLe l
  | big => ofLe l.reverse

/-- The word whose octets lie in memory as on the wire. -/
def hton (k n : ℕ) : ℕ := o.load (big.store k n)

@[simp] theorem length_store (k n : ℕ) : (o.store k n).length = k := by
  cases o <;> simp [store]

theorem load_store (k n : ℕ) : o.load (o.store k n) = n % 256 ^ k := by
  cases o with
  | little => exact ofLe_toLe k n
  | big => rw [load, store, List.reverse_reverse, ofLe_toLe]

theorem store_load (l : List UInt8) : o.store l.length (o.load l) = l := by
  cases o with
  | little => exact toLe_ofLe l
  | big =>
    have h := toLe_ofLe l.reverse
    rw [List.length_reverse] at h
    rw [load, store, h, List.reverse_reverse]

theorem load_lt (l : List UInt8) : o.load l < 256 ^ l.length := by
  cases o with
  | little => exact ofLe_lt l
  | big => rw [load, ← List.length_reverse]; exact ofLe_lt _

theorem hton_lt (k n : ℕ) : o.hton k n < 256 ^ k := by
  have h := o.load_lt (big.store k n)
  rwa [length_store] at h

/-- A word in network order lies in memory as on the wire. -/
theorem store_hton (k n : ℕ) : o.store k (o.hton k n) = big.store k n := by
  have h := o.store_load (big.store k n)
  rwa [length_store] at h

/-- `ntoh` is `hton`. -/
theorem hton_hton (k n : ℕ) : o.hton k (o.hton k n) = n % 256 ^ k := by
  cases o with
  | little =>
    have h : big.store k (little.hton k n) = little.store k n := by
      have hs := little.store_hton k n
      rw [store, store] at hs
      show (toLe k (little.hton k n)).reverse = toLe k n
      rw [hs, List.reverse_reverse]
    rw [hton, h, load_store]
  | big => rw [hton, load_store, hton, load_store, Nat.mod_mod]

theorem hton_bitwise {f : ℕ → ℕ → ℕ} {g : UInt8 → UInt8 → UInt8} (h : Bitwise f g) {k m n : ℕ}
    (hf : f (o.hton k m) (o.hton k n) < 256 ^ k) :
    o.hton k (f m n) = f (o.hton k m) (o.hton k n) := by
  have hs : ∀ x y, o.store k (f x y) = List.zipWith g (o.store k x) (o.store k y) := by
    intro x y
    cases o with
    | little => exact toLe_bitwise h k x y
    | big =>
      rw [store, toLe_bitwise h, List.reverse_zipWith (by simp)]
      rfl
  have hb : big.store k (f m n) = List.zipWith g (big.store k m) (big.store k n) := by
    rw [store, toLe_bitwise h, List.reverse_zipWith (by simp)]
    rfl
  have he : o.store k (o.hton k (f m n)) = o.store k (f (o.hton k m) (o.hton k n)) := by
    rw [store_hton, hs, store_hton, store_hton, hb]
  have hl := congrArg o.load he
  rwa [load_store, load_store, Nat.mod_eq_of_lt (o.hton_lt k _), Nat.mod_eq_of_lt hf] at hl

/-- Bits are set in a word in network order. -/
theorem hton_or (k m n : ℕ) : o.hton k (m ||| n) = o.hton k m ||| o.hton k n := by
  refine o.hton_bitwise bitwise_or ?_
  have e : 256 ^ k = 2 ^ (8 * k) := by rw [pow_mul]; norm_num
  rw [e]
  exact Nat.or_lt_two_pow (e ▸ o.hton_lt k m) (e ▸ o.hton_lt k n)

end Order

end Octets
