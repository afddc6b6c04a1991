import Mathlib.Algebra.GroupWithZero.Nat
import Mathlib.Algebra.Ring.Int.Defs
import Sysopy.Foundation.CString

/-!
# Values of type int

An `int` has 32 bits. A value that does not fit wraps around when it is converted; for
what C computes in `int` itself an exact result is the same as one that fits.
-/

namespace Sysopy.Foundation

def FitsInt (x : ℤ) : Prop := -2 ^ 31 ≤ x ∧ x < 2 ^ 31

instance (x : ℤ) : Decidable (FitsInt x) := inferInstanceAs (Decidable (_ ∧ _))

/-- `(int) x` -/
def toInt (x : ℤ) : ℤ := x.bmod (2 ^ 32)

theorem toInt_eq_iff {x : ℤ} : toInt x = x ↔ FitsInt x := by
  unfold toInt FitsInt
  constructor
  · intro h
    have hle := Int.le_bmod (x := x) (m := 2 ^ 32) (by decide)
    have hlt := Int.bmod_lt (x := x) (m := 2 ^ 32) (by decide)
    omega
  · rintro ⟨hle, hlt⟩
    apply Int.bmod_eq_of_le <;> omega

theorem fitsInt_natCast {n : ℕ} : FitsInt n ↔ n < 2 ^ 31 := by
  unfold FitsInt
  omega

theorem toInt_natCast_eq {n : ℕ} : toInt n = n ↔ n < 2 ^ 31 :=
  toInt_eq_iff.trans fitsInt_natCast

/-! ## Reading a number -/

def isSpace (b : Byte) : Bool := b == 32 || (9 ≤ b && b ≤ 13)

def isDigit (b : Byte) : Bool := 48 ≤ b && b ≤ 57

def digits (s : List Byte) : ℤ :=
  (s.takeWhile isDigit).foldl (fun n b => 10 * n + (b.toNat - 48 : ℤ)) 0

/-- `strtol(s, NULL, 10)`, which stays inside 64 bits. -/
def strtol (s : List Byte) : ℤ :=
  let value := match s.dropWhile isSpace with
    | 45 :: s => -digits s
    | 43 :: s => digits s
    | s => digits s
  max (-2 ^ 63) (min (2 ^ 63 - 1) value)

def atoi (s : List Byte) : ℤ := toInt (strtol s)

example : atoi [32, 45, 49, 50, 120] = -12 := by decide

end Sysopy.Foundation
