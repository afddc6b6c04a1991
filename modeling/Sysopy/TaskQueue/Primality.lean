import Mathlib.Data.Nat.Prime.Basic
import Mathlib.Data.Nat.Sqrt
import Mathlib.NumberTheory.LucasLehmer
import Sysopy.Foundation.Ints

/-!
# The test of the consumer

`prime` divides by every number whose square is not more than `n`. There is none to divide
by for `n < 4`, so 0, 1 and the negative numbers pass like 2 and 3. At the other end the
test of the loop is computed in `int`: a number that has no divisor up to 46340, and is not
below the square of 46340, takes the loop to 46341, whose square is no `int`.

## Sections

* §1 the loop
* §2 what the loop finds
* §3 when the test is right
-/

namespace Sysopy.TaskQueue

open Foundation

/-! ## §1  The loop -/

/-- The last number whose square is an `int`. -/
def lastSquared : ℤ := 46340

theorem fitsInt_mul_self_iff {i : ℤ} (hi : 0 ≤ i) : FitsInt (i * i) ↔ i ≤ lastSquared := by
  unfold FitsInt lastSquared
  constructor
  · rintro ⟨-, hlt⟩
    by_contra hle
    have hmul : 46341 * 46341 ≤ i * i := Int.mul_le_mul (by omega) (by omega) (by decide) hi
    omega
  · intro hle
    have hmul : i * i ≤ 46340 * 46340 := Int.mul_le_mul hle hle hi (by decide)
    have hpos : 0 ≤ i * i := Int.mul_nonneg hi hi
    omega

/-- The loop of `prime` from `i` on, `none` if `i * i` overflows. -/
def primeLoop (n i : ℤ) : Option ℤ :=
  if FitsInt (i * i) then
    if i * i ≤ n then
      if n.tmod i = 0 then some 0 else primeLoop n (i + 1)
    else some 1
  else none
termination_by (lastSquared + 1 - i).toNat
decreasing_by
  rename_i hfits _ _
  have hle : i ≤ lastSquared := by
    rcases Int.le_total 0 i with hi | hi
    · exact (fitsInt_mul_self_iff hi).mp hfits
    · exact hi.trans (by decide)
  omega

def prime (n : ℤ) : Option ℤ := primeLoop n 2

/-! ## §2  What the loop finds -/

variable {n i : ℤ}

theorem exists_from_iff {C : ℤ → Prop} :
    (∃ d, i ≤ d ∧ C d) ↔ C i ∨ ∃ d, i + 1 ≤ d ∧ C d := by
  constructor
  · rintro ⟨d, hd, hC⟩
    rcases Int.lt_or_eq_of_le hd with hlt | rfl
    · exact Or.inr ⟨d, hlt, hC⟩
    · exact Or.inl hC
  · rintro (hC | ⟨d, hd, hC⟩)
    · exact ⟨i, Int.le_refl i, hC⟩
    · exact ⟨d, by omega, hC⟩

/-- **The loop ends with 0 exactly at a divisor.** -/
theorem primeLoop_eq_zero_iff (hi : 2 ≤ i) : primeLoop n i = some 0 ↔
    ∃ d, i ≤ d ∧ d ≤ lastSquared ∧ d * d ≤ n ∧ d ∣ n := by
  fun_induction primeLoop n i with
  | case1 i hfits hle hmod =>
      have hlast := (fitsInt_mul_self_iff (by omega)).mp hfits
      exact iff_of_true rfl ⟨i, Int.le_refl i, hlast, hle, Int.dvd_of_tmod_eq_zero hmod⟩
  | case2 i hfits hle hmod ih =>
      have hndvd : ¬i ∣ n := fun hdvd => hmod (Int.tmod_eq_zero_of_dvd hdvd)
      rw [ih (by omega), exists_from_iff (i := i), or_iff_right]
      exact fun h => hndvd h.2.2
  | case3 i hfits hle =>
      refine iff_of_false (by simp) ?_
      rintro ⟨d, hd, -, hsquare, -⟩
      have hmul : i * i ≤ d * d := Int.mul_le_mul hd hd (by omega) (by omega)
      omega
  | case4 i hfits =>
      refine iff_of_false (by simp) ?_
      rintro ⟨d, hd, hlast, -, -⟩
      exact hfits ((fitsInt_mul_self_iff (by omega)).mpr (hd.trans hlast))

/-- **The loop overflows exactly if nothing ends it before.** -/
theorem primeLoop_eq_none_iff (hi : 2 ≤ i) : primeLoop n i = none ↔
    ∀ d, i ≤ d → d ≤ lastSquared → d * d ≤ n ∧ ¬d ∣ n := by
  fun_induction primeLoop n i with
  | case1 i hfits hle hmod =>
      have hlast := (fitsInt_mul_self_iff (by omega)).mp hfits
      refine iff_of_false (by simp) fun hall => ?_
      exact (hall i (Int.le_refl i) hlast).2 (Int.dvd_of_tmod_eq_zero hmod)
  | case2 i hfits hle hmod ih =>
      have hndvd : ¬i ∣ n := fun hdvd => hmod (Int.tmod_eq_zero_of_dvd hdvd)
      rw [ih (by omega)]
      constructor
      · intro hall d hd hlast
        rcases Int.lt_or_eq_of_le hd with hlt | rfl
        · exact hall d hlt hlast
        · exact ⟨hle, hndvd⟩
      · intro hall d hd
        exact hall d (by omega)
  | case3 i hfits hle =>
      have hlast := (fitsInt_mul_self_iff (by omega)).mp hfits
      exact iff_of_false (by simp) fun hall => hle (hall i (Int.le_refl i) hlast).1
  | case4 i hfits =>
      refine iff_of_true rfl fun d hd hlast => absurd ?_ hfits
      exact (fitsInt_mul_self_iff (by omega)).mpr (hd.trans hlast)

theorem primeLoop_cases (n i : ℤ) :
    primeLoop n i = none ∨ primeLoop n i = some 0 ∨ primeLoop n i = some 1 := by
  fun_induction primeLoop n i with
  | case1 => exact Or.inr (Or.inl rfl)
  | case2 _ _ _ _ ih => exact ih
  | case3 => exact Or.inr (Or.inr rfl)
  | case4 => exact Or.inl rfl

/-! ## §3  When the test is right -/

def IsPrime (n : ℤ) : Prop := ∃ p : ℕ, p.Prime ∧ (p : ℤ) = n

/-- No test of the loop overflows, and the result is not 0 exactly for a prime number. -/
def Right (n : ℤ) : Prop := ∃ result, prime n = some result ∧ (result ≠ 0 ↔ IsPrime n)

theorem isPrime_iff : IsPrime n ↔ 2 ≤ n ∧ ∀ d, 2 ≤ d → d * d ≤ n → ¬d ∣ n := by
  constructor
  · rintro ⟨p, hp, rfl⟩
    refine ⟨by exact_mod_cast hp.two_le, fun d hd hsquare hdvd => ?_⟩
    obtain ⟨m, rfl⟩ := Int.eq_ofNat_of_zero_le (show 0 ≤ d by omega)
    rcases (Nat.dvd_prime hp).mp (Int.natCast_dvd_natCast.mp hdvd) with rfl | rfl
    · omega
    · have hlt : (m : ℤ) * 2 ≤ m * m := Int.mul_le_mul_of_nonneg_left hd (by omega)
      omega
  · rintro ⟨htwo, hnone⟩
    obtain ⟨p, rfl⟩ := Int.eq_ofNat_of_zero_le (show 0 ≤ n by omega)
    refine ⟨p, Nat.prime_def_le_sqrt.mpr ⟨by exact_mod_cast htwo, fun m hm hroot hdvd => ?_⟩, rfl⟩
    refine hnone m (by exact_mod_cast hm) ?_ (Int.natCast_dvd_natCast.mpr hdvd)
    exact_mod_cast Nat.le_sqrt.mp hroot

/-- A divisor that the loop can come to is found, and so is the one for a larger divisor. -/
theorem prime_eq_zero {d : ℤ} (hd : 2 ≤ d) (hsquare : d * d ≤ n) (hdvd : d ∣ n)
    (hends : n < lastSquared * lastSquared ∨ ∃ d, 2 ≤ d ∧ d ≤ lastSquared ∧ d ∣ n) :
    prime n = some 0 := by
  refine (primeLoop_eq_zero_iff (Int.le_refl 2)).mpr ?_
  by_cases hlast : d ≤ lastSquared
  · exact ⟨d, hd, hlast, hsquare, hdvd⟩
  · have hlarge : lastSquared * lastSquared ≤ d * d :=
      Int.mul_le_mul (by omega) (by omega) (by decide) (by omega)
    rcases hends with hlt | ⟨e, he, helast, hedvd⟩
    · omega
    · have hesquare : e * e ≤ lastSquared * lastSquared :=
        Int.mul_le_mul helast helast (by omega) (by decide)
      exact ⟨e, he, helast, by omega, hedvd⟩

/-- **The test is right from 2 on as long as the loop ends before 46341**: for every number
below the square of 46340, and for every other one that has a divisor up to there. -/
theorem right_iff : Right n ↔
    2 ≤ n ∧ (n < lastSquared * lastSquared ∨ ∃ d, 2 ≤ d ∧ d ≤ lastSquared ∧ d ∣ n) := by
  have hnone := primeLoop_eq_none_iff (n := n) (Int.le_refl 2)
  have hzero := primeLoop_eq_zero_iff (n := n) (Int.le_refl 2)
  constructor
  · rintro ⟨result, hprime, hright⟩
    refine ⟨?_, ?_⟩
    · by_cases hresult : result = 0
      · obtain ⟨d, hd, -, hsquare, -⟩ := hzero.mp (hresult ▸ hprime)
        have hmul : 2 * 2 ≤ d * d := Int.mul_le_mul hd hd (by decide) (by omega)
        omega
      · exact (isPrime_iff.mp (hright.mp hresult)).1
    · by_contra hnot
      obtain ⟨hlarge, hndvd⟩ := not_or.mp hnot
      refine absurd (hprime.symm.trans (hnone.mpr fun d hd hlast => ⟨?_, ?_⟩)) (by simp)
      · have hmul : d * d ≤ lastSquared * lastSquared :=
          Int.mul_le_mul hlast hlast (by omega) (by decide)
        omega
      · exact fun hdvd => hndvd ⟨d, hd, hlast, hdvd⟩
  · rintro ⟨htwo, hends⟩
    rcases primeLoop_cases n 2 with hoverflow | hfound | hpassed
    · have hall := hnone.mp hoverflow
      rcases hends with hlt | ⟨d, hd, hlast, hdvd⟩
      · have hsquare := (hall lastSquared (by decide) (Int.le_refl _)).1
        omega
      · exact absurd hdvd (hall d hd hlast).2
    · refine ⟨0, hfound, iff_of_false (not_not.mpr rfl) fun hprime => ?_⟩
      obtain ⟨d, hd, -, hsquare, hdvd⟩ := hzero.mp hfound
      exact (isPrime_iff.mp hprime).2 d hd hsquare hdvd
    · refine ⟨1, hpassed, iff_of_true (by decide) (isPrime_iff.mpr ⟨htwo, ?_⟩)⟩
      intro d hd hsquare hdvd
      have hfound := prime_eq_zero hd hsquare hdvd hends
      exact absurd (hpassed.symm.trans hfound) (by decide)

/-- 1 passes, and the largest `int`, which is prime, takes the loop to the overflow. -/
theorem one_passes : prime 1 = some 1 ∧ ¬IsPrime 1 ∧ ¬Right 1 ∧
    IsPrime (2 ^ 31 - 1) ∧ prime (2 ^ 31 - 1) = none := by
  have hmersenne : (mersenne 31).Prime :=
    lucas_lehmer_sufficiency 31 (by norm_num) (by norm_num)
  have hmax : IsPrime (2 ^ 31 - 1) := ⟨mersenne 31, hmersenne, by norm_num [mersenne]⟩
  have hone : prime 1 = some 1 := by rw [prime, primeLoop, if_pos (by decide), if_neg (by decide)]
  have hcomposite : ¬IsPrime 1 := fun h => absurd (isPrime_iff.mp h).1 (by decide)
  refine ⟨hone, hcomposite, ?_, hmax, ?_⟩
  · rintro ⟨result, hprime, hright⟩
    obtain rfl := Option.some.inj (hone.symm.trans hprime)
    exact hcomposite (hright.mp (by decide))
  · refine (primeLoop_eq_none_iff (Int.le_refl 2)).mpr fun d hd hlast => ?_
    have hmul : d * d ≤ lastSquared * lastSquared :=
      Int.mul_le_mul hlast hlast (by omega) (by decide)
    have hsquare : d * d ≤ 2 ^ 31 - 1 := hmul.trans (by decide)
    exact ⟨hsquare, (isPrime_iff.mp hmax).2 d hd hsquare⟩

end Sysopy.TaskQueue
