import Mathlib.Algebra.Order.Ring.Int
import Mathlib.Tactic.NormNum

/-!
# Signed machine integers

A value of a signed type of `w` bits is an integer in the range of the type. An operation whose
result is out of that range is undefined, and so is a division by zero; quotient and remainder
are truncated towards zero. -/

namespace Signed

/-- The values of the signed type of `w` bits. -/
def InRange (w : Nat) (x : Int) : Prop := -2 ^ (w - 1) ≤ x ∧ x < 2 ^ (w - 1)

instance : Decidable (InRange w x) := inferInstanceAs (Decidable (_ ∧ _))

def fit (w : Nat) (x : Int) : Option Int := if InRange w x then some x else none

def add (w : Nat) (x y : Int) : Option Int := fit w (x + y)

def sub (w : Nat) (x y : Int) : Option Int := fit w (x - y)

def mul (w : Nat) (x y : Int) : Option Int := fit w (x * y)

def div (w : Nat) (x y : Int) : Option Int := if y = 0 then none else fit w (x.tdiv y)

/-- Undefined where the quotient is. -/
def rem (w : Nat) (x y : Int) : Option Int := (div w x y).map fun _ => x.tmod y

theorem fit_eq_some {w : Nat} {x y : Int} : fit w x = some y ↔ InRange w x ∧ x = y := by
  unfold fit
  split <;> simp_all

theorem fit_of_inRange {w : Nat} {x : Int} (h : InRange w x) : fit w x = some x := if_pos h

theorem inRange_32 {x : Int} : InRange 32 x ↔ -2147483648 ≤ x ∧ x < 2147483648 := by
  norm_num [InRange]

theorem inRange_64 {x : Int} :
    InRange 64 x ↔ -9223372036854775808 ≤ x ∧ x < 9223372036854775808 := by
  norm_num [InRange]

/-- The quotient by a positive number stays in the range, so the remainder is defined. -/
theorem InRange.tdiv {w : Nat} {x y : Int} (h : InRange w x) (hy : 0 < y) :
    InRange w (x.tdiv y) := by
  obtain ⟨h1, h2⟩ := h
  rcases Int.le_total 0 x with hx | hx
  · have := Int.tdiv_nonneg hx hy.le
    have := Int.tdiv_le_self y hx
    exact ⟨by omega, by omega⟩
  · have hn : 0 ≤ -x := by omega
    have h3 := Int.tdiv_nonneg hn hy.le
    have h4 := Int.tdiv_le_self y hn
    rw [Int.neg_tdiv] at h3 h4
    exact ⟨by omega, by omega⟩

theorem div_of_pos {w : Nat} {x y : Int} (h : InRange w x) (hy : 0 < y) :
    div w x y = some (x.tdiv y) := by
  rw [div, if_neg hy.ne', fit_of_inRange (h.tdiv hy)]

theorem rem_of_pos {w : Nat} {x y : Int} (h : InRange w x) (hy : 0 < y) :
    rem w x y = some (x.tmod y) := by
  rw [rem, div_of_pos h hy, Option.map_some]

end Signed
