import Mathlib.Logic.Function.Iterate
import Mathlib.Data.List.Basic

/-!
# Parts of a state that a program overlooks

A program overlooks a part of its state if overwriting the part before it runs is the same as
overwriting it afterwards: it neither reads the part nor writes it.  Two states that differ in an
overlooked part then have results that differ in this part only.

* `Overlooks.comp`, `Overlooks.iterate`, `overlooks_foldl` — total programs;
* `OverlooksE.bind`, `overlooksE_foldlM` — programs that may fail;
* `RelE.bind` — two runs whose results are related, or that fail alike.
-/

set_option autoImplicit false

namespace ProtocolExplorer.Lib

universe u v w x

variable {Part : Type u} {A B C : Type v} {Err : Type w} {Item : Type x} {putA : Part → A → A}
  {putB : Part → B → B} {putC : Part → C → C}

/-- A program commutes with overwriting the part. -/
def Overlooks (putA : Part → A → A) (putB : Part → B → B) (f : A → B) : Prop :=
  ∀ part a, f (putA part a) = putB part (f a)

/-- The same of a program that may fail: the part does not decide whether it does. -/
def OverlooksE (putA : Part → A → A) (putB : Part → B → B) (f : A → Except Err B) : Prop :=
  ∀ part a, f (putA part a) = (f a).map (putB part)

theorem Overlooks.comp {f : A → B} {g : B → C} (second : Overlooks putB putC g)
    (first : Overlooks putA putB f) : Overlooks putA putC fun a => g (f a) := by
  intro part a
  show g (f (putA part a)) = putC part (g (f a))
  rw [first, second]

theorem Overlooks.iterate {f : A → A} (each : Overlooks putA putA f) (n : ℕ) :
    Overlooks putA putA f^[n] := by
  intro part a
  exact (Function.Commute.iterate_left (each part) n) a

/-- A loop overlooks what its body does. -/
theorem overlooks_foldl {step : A → Item → A} (each : ∀ item, Overlooks putA putA (step · item))
    (items : List Item) : Overlooks putA putA fun a => items.foldl step a := by
  intro part a
  exact List.foldl_hom (putA part) fun s item => each item part s

theorem Overlooks.ok {f : A → B} (total : Overlooks putA putB f) :
    OverlooksE putA putB fun a => (.ok (f a) : Except Err B) := by
  intro part a
  simp only [total part a]
  rfl

theorem OverlooksE.bind {f : A → Except Err B} {g : B → Except Err C}
    (second : OverlooksE putB putC g) (first : OverlooksE putA putB f) :
    OverlooksE putA putC fun a => f a >>= g := by
  intro part a
  simp only [first part a]
  cases f a with
  | error err => rfl
  | ok b => exact second part b

/-- So does a loop that may fail. -/
theorem overlooksE_foldlM {step : A → Item → Except Err A}
    (each : ∀ item, OverlooksE putA putA (step · item)) (items : List Item) :
    OverlooksE putA putA fun a => items.foldlM step a := by
  induction items with
  | nil => exact fun part a => rfl
  | cons item rest inductionHypothesis =>
      intro part a
      simp only [List.foldlM_cons]
      exact OverlooksE.bind inductionHypothesis (each item) part a

/-! ## Two runs -/

/-- Two results are related, or are the same failure. -/
def RelE (R : A → B → Prop) : Except Err A → Except Err B → Prop
  | .ok a, .ok b => R a b
  | .error err, .error err' => err = err'
  | _, _ => False

theorem RelE.refl (x : Except Err A) : RelE Eq x x := by
  cases x <;> rfl

/-- Related runs continue to related runs. -/
theorem RelE.bind {D : Type v} {R : A → B → Prop} {S : C → D → Prop} {x : Except Err A}
    {y : Except Err B} {f : A → Except Err C} {g : B → Except Err D} (related : RelE R x y)
    (each : ∀ a b, R a b → RelE S (f a) (g b)) : RelE S (x >>= f) (y >>= g) := by
  cases x with
  | error err =>
      cases y with
      | error err' => exact related
      | ok b => exact related.elim
  | ok a =>
      cases y with
      | error err' => exact related.elim
      | ok b => exact each a b related

end ProtocolExplorer.Lib
