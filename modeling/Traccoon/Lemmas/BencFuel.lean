import Traccoon.Lemmas.BencComplete

/-!
# More fuel does not change what `benc_entity_length` returns

The parts of a walk that use no fuel are the same at every fuel, so one induction on the fuel shows that a walk that did not
run out of it gives the same result with more.
-/

namespace Traccoon

open CString Bencode

/-- The walk `y` gives what the walk `x` gives, unless `x` ran out of fuel. -/
def Extends {α : Type} (x y : Walk α) : Prop := x ≠ .error .fuel → y = x

theorem Extends.refl {α : Type} (x : Walk α) : Extends x x := fun _ => rfl

/-- A walk that starts with a step of its own and goes on with parts that extend each other. -/
theorem Extends.bind {α β : Type} {x y : Walk α} {f g : α → Walk β} (hx : Extends x y) (hf : ∀ a, Extends (f a) (g a)) :
    Extends (x >>= f) (y >>= g) := by
  intro h
  cases x with
  | error e =>
    rw [hx (fun he => h (by rw [he]; rfl))]
    rfl
  | ok a =>
    rw [hx (fun he => by cases he)]
    exact hf a h

theorem Extends.ite {α : Type} {c : Prop} [Decidable c] {a b a' b' : Walk α} (h : Extends a a') (h' : Extends b b') :
    Extends (if c then a else b) (if c then a' else b') := by
  split
  · exact h
  · exact h'

/-- One unit of fuel more. -/
theorem bencEntityLength_succ (buf : Bytes) (fuel : Nat) :
    (∀ p io, Extends (bencEntityLength buf fuel p io) (bencEntityLength buf (fuel + 1) p io)) ∧
    (∀ keys p io offset k,
      Extends (bencElements buf fuel keys p io offset k) (bencElements buf (fuel + 1) keys p io offset k)) := by
  induction fuel with
  | zero => exact ⟨fun _ _ h => absurd rfl h, fun _ _ _ _ _ h => absurd rfl h⟩
  | succ fuel ih =>
    constructor
    · intro p io
      rw [bencEntityLength, bencEntityLength]
      refine Extends.bind (Extends.refl _) fun t => ?_
      cases t with
      | dict => exact ih.2 _ _ _ _ _
      | list => exact ih.2 _ _ _ _ _
      | int => exact Extends.refl _
      | string => exact Extends.refl _
      | fail => exact Extends.refl _
    · intro keys p io offset k
      rw [bencElements, bencElements]
      refine Extends.bind (Extends.refl _) fun c => Extends.ite ?_ (Extends.refl _)
      refine Extends.bind (Extends.refl _) fun bad => Extends.ite (Extends.refl _) ?_
      refine Extends.bind (ih.1 _ _) fun l => Extends.ite (Extends.refl _) (ih.2 _ _ _ _ _)

/-- Any amount of fuel more. -/
theorem bencEntityLength_mono {buf : Bytes} {fuel fuel' : Nat} (hle : fuel ≤ fuel') {p io : Int} {r : Walk Int}
    (h : bencEntityLength buf fuel p io = r) (hr : r ≠ .error .fuel) : bencEntityLength buf fuel' p io = r := by
  induction hle with
  | refl => exact h
  | step _ ih => rw [(bencEntityLength_succ buf _).1 p io (ih ▸ hr), ih]

/-- A walk has at most one result. -/
theorem bencEntityLength_unique {buf : Bytes} {fuel fuel' : Nat} {p io : Int} {r r' : Walk Int}
    (h : bencEntityLength buf fuel p io = r) (h' : bencEntityLength buf fuel' p io = r') (hr : r ≠ .error .fuel)
    (hr' : r' ≠ .error .fuel) : r = r' := by
  have h1 := bencEntityLength_mono (Nat.le_max_left fuel fuel') h hr
  have h2 := bencEntityLength_mono (Nat.le_max_right fuel fuel') h' hr'
  exact h1.symm.trans h2

end Traccoon
