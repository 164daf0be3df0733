import Mathlib.Algebra.Group.Nat.Defs
import Mathlib.Data.Int.Basic

/-!
# The `int` of C

An `int` has 32 bits. A sum, product or shift of `int`s whose result does not fit is undefined, and
the computation stops there. A conversion to `int` of what does not fit keeps the lowest 32 bits.
-/

namespace Nmap.Base

/-- What can go wrong in a computation -/
inductive CFault
  | overflow
  | assertion
  | division
  deriving DecidableEq

def IntFits (n : Int) : Prop := -2147483648 ≤ n ∧ n ≤ 2147483647

instance (n : Int) : Decidable (IntFits n) := inferInstanceAs (Decidable (_ ∧ _))

/-- The result of an operation on `int`s -/
def checkInt (n : Int) : Except CFault Int := if IntFits n then .ok n else .error .overflow

/-- The conversion of a wider integer to `int` -/
def toInt (n : Int) : Int := n.bmod (2 ^ 32)

namespace CInt

variable {n : Int} {α : Type}

theorem check (fits : IntFits n) : checkInt n = .ok n := if_pos fits

theorem check_not (wide : ¬ IntFits n) : checkInt n = .error .overflow := if_neg wide

theorem check_bind_eq_ok {f : Int → Except CFault α} {a : α} :
    (checkInt n >>= f) = .ok a ↔ IntFits n ∧ f n = .ok a := by
  by_cases fits : IntFits n
  · rw [check fits]
    exact ⟨fun done => ⟨fits, done⟩, And.right⟩
  · rw [check_not fits]
    exact ⟨nofun, fun done => absurd done.1 fits⟩

theorem toInt_fits : IntFits (toInt n) := by
  have low := Int.le_bmod (x := n) (m := 2 ^ 32) (by decide)
  have high := Int.bmod_lt (x := n) (m := 2 ^ 32) (by decide)
  simp only [IntFits, toInt]
  omega

theorem toInt_of_fits (fits : IntFits n) : toInt n = n := by
  obtain ⟨low, high⟩ := fits
  exact Int.bmod_eq_of_le_mul_two (by omega) (by omega)

end CInt

end Nmap.Base
