import Mathlib.Data.Nat.Basic
import Mathlib.Order.Compare
import Sysopy.Foundation.CString

/-!
# Numbers of a fixed width

Strings that are made of parts of the same lengths compare like their parts, the first one
first. So do numbers: the quotients by a base are compared before the remainders. A number
below 100 that is written with two digits therefore compares like its string.
-/

namespace Sysopy.Foundation

theorem strcmp_cons (a b : Byte) (s t : List Byte) :
    strcmp (a :: s) (b :: t) = (compare a b).then (strcmp s t) := by
  rw [strcmp_eq_compareLex, strcmp_eq_compareLex, List.compareLex_cons_cons]

theorem strcmp_append {p q : List Byte} (h : p.length = q.length) (s t : List Byte) :
    strcmp (p ++ s) (q ++ t) = (strcmp p q).then (strcmp s t) := by
  induction p generalizing q with
  | nil =>
      obtain rfl := List.eq_nil_of_length_eq_zero h.symm
      rfl
  | cons a p ih =>
      obtain ⟨b, q, rfl⟩ := List.exists_cons_of_length_eq_add_one h.symm
      rw [List.cons_append, List.cons_append, strcmp_cons, strcmp_cons, Ordering.then_assoc,
        ih (Nat.succ.inj h)]

theorem strcmp_cons_self (a : Byte) (s t : List Byte) :
    strcmp (a :: s) (a :: t) = strcmp s t := by
  rw [strcmp, if_neg (UInt8.lt_irrefl a), if_neg (UInt8.lt_irrefl a)]

theorem compare_div_mod (k m n : ℕ) :
    compare m n = (compare (m / k) (n / k)).then (compare (m % k) (n % k)) := by
  have hm := Nat.div_add_mod m k
  have hn := Nat.div_add_mod n k
  rcases hquot : compare (m / k) (n / k) with _ | _ | _
  · have hlt : m < n := by
      by_contra hle
      exact absurd (Nat.div_le_div_right (Nat.le_of_not_lt hle))
        (Nat.not_le_of_lt (Nat.compare_eq_lt.mp hquot))
    exact Nat.compare_eq_lt.mpr hlt
  · rw [Nat.compare_eq_eq] at hquot
    rw [hquot] at hm
    rcases hrem : compare (m % k) (n % k) with _ | _ | _
    · exact Nat.compare_eq_lt.mpr (by have := Nat.compare_eq_lt.mp hrem; omega)
    · exact Nat.compare_eq_eq.mpr (by have := Nat.compare_eq_eq.mp hrem; omega)
    · exact Nat.compare_eq_gt.mpr (by have := Nat.compare_eq_gt.mp hrem; omega)
  · have hlt : n < m := by
      by_contra hle
      exact absurd (Nat.div_le_div_right (Nat.le_of_not_lt hle))
        (Nat.not_le_of_lt (Nat.compare_eq_gt.mp hquot))
    exact Nat.compare_eq_gt.mpr hlt

/-- `'0' + d` -/
def digit (d : ℕ) : Byte := 48 + UInt8.ofNat d

theorem compare_digit : ∀ d < 10, ∀ e < 10, compare (digit d) (digit e) = compare d e := by
  decide

def twoDigits (n : ℕ) : List Byte := [digit (n / 10), digit (n % 10)]

theorem strcmp_twoDigits {m n : ℕ} (hm : m < 100) (hn : n < 100) :
    strcmp (twoDigits m) (twoDigits n) = compare m n := by
  rw [compare_div_mod 10, twoDigits, twoDigits, strcmp_cons, strcmp_cons,
    compare_digit _ (by omega) _ (by omega), compare_digit _ (by omega) _ (by omega)]
  exact congrArg _ Ordering.then_eq

theorem digit_ne_zero : ∀ d < 10, digit d ≠ 0 := by decide

theorem zero_notMem_twoDigits {n : ℕ} (hn : n < 100) : 0 ∉ twoDigits n := by
  have htens := digit_ne_zero (n / 10) (by omega)
  have hones := digit_ne_zero (n % 10) (by omega)
  simp [twoDigits, htens.symm, hones.symm]

end Sysopy.Foundation
