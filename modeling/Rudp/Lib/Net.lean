import Mathlib

/-!
# Two parties and a network

Two parties move, each by itself, and send messages. The network loses messages, delays them, delivers
them in any order and any number of times. It makes up none: what arrives has been sent.

A statement about one party, whatever arrives of a given set, becomes a statement about the pair. The
set may be what the other party has sent at the end of the run, as a party never takes back what it
has sent.

Results:
* `Net.Party`: a party. `Net.Party.Run T`: its runs when what arrives is in `T`.
* `Net.Party.Run.sent`, `Net.Party.Run.mono`: what is sent stays sent, and more may arrive.
* `Net.Party.Run.invariant`: the rule for invariants.
* `Net.run_left`, `Net.run_right`: what a run of the pair is for each party.
-/

namespace Net

open Relation (ReflTransGen)

/-- A party with the states `σ`, that takes `ι` and sends `ο`. -/
structure Party (σ ι ο : Type*) where
  /-- A step by itself. -/
  move : σ → σ → Prop
  /-- A step in which a message arrives. -/
  take : ι → σ → σ → Prop
  /-- What has been sent. -/
  sent : σ → Set ο
  sent_move {s s' : σ} : move s s' → sent s ⊆ sent s'
  sent_take {i : ι} {s s' : σ} : take i s s' → sent s ⊆ sent s'

namespace Party

variable {σ ι ο : Type*} {A : Party σ ι ο} {T T' : Set ι} {s₀ s : σ}

/-- A step in which nothing arrives but messages of `T`. -/
def StepIn (A : Party σ ι ο) (T : Set ι) (s s' : σ) : Prop := A.move s s' ∨ ∃ i ∈ T, A.take i s s'

/-- A run in which nothing arrives but messages of `T`. -/
def Run (A : Party σ ι ο) (T : Set ι) : σ → σ → Prop := ReflTransGen (A.StepIn T)

theorem StepIn.sent {s' : σ} (h : A.StepIn T s s') : A.sent s ⊆ A.sent s' := by
  rcases h with h | ⟨i, -, h⟩
  · exact A.sent_move h
  · exact A.sent_take h

/-- What is sent stays sent. -/
theorem Run.sent (h : A.Run T s₀ s) : A.sent s₀ ⊆ A.sent s := by
  induction h with
  | refl => exact subset_rfl
  | tail _ hs ih => exact ih.trans hs.sent

/-- More may arrive. -/
theorem Run.mono (hT : T ⊆ T') (h : A.Run T s₀ s) : A.Run T' s₀ s := by
  induction h with
  | refl => exact .refl
  | tail _ hs ih =>
    apply ih.tail
    apply hs.imp_right
    rintro ⟨i, hi, hs⟩
    exact ⟨i, hT hi, hs⟩

/-- The rule for invariants. -/
theorem Run.invariant {I : σ → Prop} (h : A.Run T s₀ s) (h₀ : I s₀)
    (hmove : ∀ s s', I s → A.move s s' → I s')
    (htake : ∀ i s s', I s → i ∈ T → A.take i s s' → I s') : I s := by
  induction h with
  | refl => exact h₀
  | tail _ hs ih =>
    rcases hs with hs | ⟨i, hi, hs⟩
    · exact hmove _ _ ih hs
    · exact htake i _ _ ih hi hs

end Party

variable {σ ι ο τ κ π : Type*}

/-- A step of the pair: one of the parties moves, or something that the other one has sent arrives, in
    one of the forms in which `R` and `L` let it arrive. -/
inductive Step (A : Party σ ι ο) (B : Party τ κ π) (R : ο → κ → Prop) (L : π → ι → Prop) :
    σ × τ → σ × τ → Prop
  | left {a a' : σ} {b : τ} : A.move a a' → Step A B R L (a, b) (a', b)
  | right {a : σ} {b b' : τ} : B.move b b' → Step A B R L (a, b) (a, b')
  | takeLeft {p : π} {i : ι} {a a' : σ} {b : τ} : p ∈ B.sent b → L p i → A.take i a a' →
    Step A B R L (a, b) (a', b)
  | takeRight {o : ο} {k : κ} {a : σ} {b b' : τ} : o ∈ A.sent a → R o k → B.take k b b' →
    Step A B R L (a, b) (a, b')

variable {A : Party σ ι ο} {B : Party τ κ π} {R : ο → κ → Prop} {L : π → ι → Prop} {x y : σ × τ}

/-- The run of one party: what arrives is what the other one has sent by the end. -/
theorem run_left (h : ReflTransGen (Step A B R L) x y) :
    A.Run {i | ∃ p ∈ B.sent y.2, L p i} x.1 y.1 := by
  induction h with
  | refl => exact .refl
  | tail _ hs ih =>
    cases hs with
    | left hm => exact ih.tail (.inl hm)
    | right hm =>
      apply ih.mono
      rintro i ⟨p, hp, hi⟩
      exact ⟨p, B.sent_move hm hp, hi⟩
    | takeLeft hp hi ht => exact ih.tail (.inr ⟨_, ⟨_, hp, hi⟩, ht⟩)
    | takeRight _ _ ht =>
      apply ih.mono
      rintro i ⟨p, hp, hi⟩
      exact ⟨p, B.sent_take ht hp, hi⟩

/-- The run of the other party. -/
theorem run_right (h : ReflTransGen (Step A B R L) x y) :
    B.Run {k | ∃ o ∈ A.sent y.1, R o k} x.2 y.2 := by
  induction h with
  | refl => exact .refl
  | tail _ hs ih =>
    cases hs with
    | left hm =>
      apply ih.mono
      rintro k ⟨o, ho, hk⟩
      exact ⟨o, A.sent_move hm ho, hk⟩
    | right hm => exact ih.tail (.inl hm)
    | takeLeft _ _ ht =>
      apply ih.mono
      rintro k ⟨o, ho, hk⟩
      exact ⟨o, A.sent_take ht ho, hk⟩
    | takeRight ho hk ht => exact ih.tail (.inr ⟨_, ⟨_, ho, hk⟩, ht⟩)

end Net
