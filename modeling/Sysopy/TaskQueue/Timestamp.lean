import Sysopy.Foundation.FixedWidth
import Sysopy.Foundation.Memory

/-!
# Timestamps with milliseconds

Producers and consumers print the local time with milliseconds. The digit of the hundreds is
computed with `millis & 100`, where `%` was meant: it is 1 for the milliseconds that have all
the bits of 100 and 0 for all others.

## Sections

* §1 the timestamp
* §2 its parts
* §3 when timestamps are in order
-/

namespace Sysopy.TaskQueue

open Foundation

/-! ## §1  The timestamp -/

/-- A local time of a day, with `tv_usec`. -/
structure Instant where
  tmHour : Fin 24
  tmMin : Fin 60
  tmSec : Fin 60
  tvUsec : Fin 1000000

def colon : Byte := 58

/-- `format_hour`, with the NUL: every byte of the piece of memory is set. -/
def formatHour (t : Instant) : List Byte :=
  [digit (t.tmHour / 10), digit (t.tmHour % 10), colon, digit (t.tmMin / 10),
    digit (t.tmMin % 10), colon, digit (t.tmSec / 10), digit (t.tmSec % 10), 0]

def Instant.millis (t : Instant) : ℕ := t.tvUsec / 1000

/-- `get_timestamp_with_millis`; `found` is what `realloc` finds behind the hour. -/
def getTimestampWithMillis (found : ℕ → Byte) (t : Instant) : List Byte :=
  ((((((realloc found 13 (formatHour t)).set 12 0).set 11 (digit (t.millis % 10))).set 10
    (digit (t.millis % 100 / 10))).set 9 (digit ((t.millis &&& 100) / 100))).set 8 colon)

def Instant.second (t : Instant) : ℕ := (t.tmHour * 60 + t.tmMin) * 60 + t.tmSec

def Instant.millisecond (t : Instant) : ℕ := t.second * 1000 + t.millis

/-- The two strings have 12 characters and compare like the milliseconds. -/
def InOrder (a b : Instant) : Prop := ∀ found found', ∃ s t,
  cString 0 (getTimestampWithMillis found a) = some s ∧
  cString 0 (getTimestampWithMillis found' b) = some t ∧
  s.length = 12 ∧ t.length = 12 ∧ strcmp s t = compare a.millisecond b.millisecond

/-! ## §2  Its parts -/

/-- All the bits of 100 are set. -/
def Marked (m : ℕ) : Prop := m &&& 100 = 100

instance (m : ℕ) : Decidable (Marked m) := inferInstanceAs (Decidable (_ = _))

def hundreds (m : ℕ) : ℕ := (m &&& 100) / 100

theorem hundreds_of_marked {m : ℕ} (h : Marked m) : hundreds m = 1 := by
  rw [hundreds, show m &&& 100 = 100 from h]

theorem hundreds_of_not_marked {m : ℕ} (h : ¬Marked m) : hundreds m = 0 := by
  have hle : m &&& 100 ≤ 100 := Nat.and_le_right
  exact Nat.div_eq_of_lt (Nat.lt_of_le_of_ne hle h)

/-- The string, part by part. -/
def stamp (t : Instant) : List Byte :=
  twoDigits t.tmHour ++ colon :: (twoDigits t.tmMin ++ colon :: (twoDigits t.tmSec ++
    colon :: digit (hundreds t.millis) :: twoDigits (t.millis % 100)))

theorem length_stamp (t : Instant) : (stamp t).length = 12 := rfl

theorem getTimestampWithMillis_eq (found : ℕ → Byte) (t : Instant) :
    getTimestampWithMillis found t = terminated 0 (stamp t) := by
  have hlast : t.millis % 100 % 10 = t.millis % 10 := by omega
  rw [stamp, twoDigits, twoDigits, twoDigits, twoDigits, hlast]
  rfl

theorem zero_notMem_stamp (t : Instant) : 0 ∉ stamp t := by
  have hhour := zero_notMem_twoDigits (t.tmHour.isLt.trans (by decide))
  have hmin := zero_notMem_twoDigits (t.tmMin.isLt.trans (by decide))
  have hsec := zero_notMem_twoDigits (t.tmSec.isLt.trans (by decide))
  have hmillis := zero_notMem_twoDigits (Nat.mod_lt t.millis (show 0 < 100 by decide))
  have hhundreds := digit_ne_zero (hundreds t.millis) ?_
  · have hcolon : (0 : Byte) ≠ colon := by decide
    simp only [stamp, List.mem_append, List.mem_cons, hhour, hmin, hsec, hmillis, hcolon,
      hhundreds.symm, or_self, not_false_eq_true]
  · by_cases hmarked : Marked t.millis
    · rw [hundreds_of_marked hmarked]
      decide
    · rw [hundreds_of_not_marked hmarked]
      decide

theorem cString_getTimestampWithMillis (found : ℕ → Byte) (t : Instant) :
    cString 0 (getTimestampWithMillis found t) = some (stamp t) := by
  rw [getTimestampWithMillis_eq]
  exact cString_eq_some.mpr ⟨zero_notMem_stamp t, [], rfl⟩

/-! ## §3  When timestamps are in order -/

variable {a b : Instant} {m n : ℕ}

theorem compare_second (a b : Instant) : compare a.second b.second =
    (compare (a.tmHour : ℕ) b.tmHour).then ((compare (a.tmMin : ℕ) b.tmMin).then
      (compare (a.tmSec : ℕ) b.tmSec)) := by
  have hdiv (t : Instant) : t.second / 60 = t.tmHour * 60 + t.tmMin := by
    have hsec := t.tmSec.isLt
    unfold Instant.second
    omega
  have hmod (t : Instant) : t.second % 60 = t.tmSec := by
    have hsec := t.tmSec.isLt
    unfold Instant.second
    omega
  have hhour (t : Instant) : (t.tmHour * 60 + t.tmMin : ℕ) / 60 = t.tmHour := by
    have hmin := t.tmMin.isLt
    omega
  have hmin (t : Instant) : (t.tmHour * 60 + t.tmMin : ℕ) % 60 = t.tmMin := by
    have hmin := t.tmMin.isLt
    omega
  rw [compare_div_mod 60, hdiv, hdiv, hmod, hmod, compare_div_mod 60, hhour, hhour, hmin, hmin,
    Ordering.then_assoc]

theorem Instant.millis_lt (t : Instant) : t.millis < 1000 := by
  have husec := t.tvUsec.isLt
  unfold Instant.millis
  omega

theorem compare_millisecond (a b : Instant) : compare a.millisecond b.millisecond =
    (compare a.second b.second).then (compare a.millis b.millis) := by
  have hdiv (t : Instant) : t.millisecond / 1000 = t.second := by
    have hmillis := t.millis_lt
    unfold Instant.millisecond
    omega
  have hmod (t : Instant) : t.millisecond % 1000 = t.millis := by
    have hmillis := t.millis_lt
    unfold Instant.millisecond
    omega
  rw [compare_div_mod 1000, hdiv, hdiv, hmod, hmod]

theorem hundreds_lt (m : ℕ) : hundreds m < 10 := by
  by_cases hmarked : Marked m
  · rw [hundreds_of_marked hmarked]
    decide
  · rw [hundreds_of_not_marked hmarked]
    decide

/-- **The string has the second right**; behind it the digit of the hundreds is compared
first. -/
theorem strcmp_stamp (a b : Instant) : strcmp (stamp a) (stamp b) =
    (compare a.second b.second).then ((compare (hundreds a.millis) (hundreds b.millis)).then
      (compare (a.millis % 100) (b.millis % 100))) := by
  have hfield {n m : ℕ} (hn : n < 60) (hm : m < 60) (s t : List Byte) :
      strcmp (twoDigits n ++ colon :: s) (twoDigits m ++ colon :: t) =
        (compare n m).then (strcmp s t) := by
    have hlength : (twoDigits n).length = (twoDigits m).length := rfl
    rw [strcmp_append hlength, strcmp_twoDigits (by omega) (by omega), strcmp_cons_self]
  rw [stamp, stamp, hfield (by omega) (by omega), hfield (by omega) (by omega),
    hfield (by omega) (by omega), strcmp_cons, compare_digit _ (hundreds_lt _) _ (hundreds_lt _),
    strcmp_twoDigits (by omega) (by omega), compare_second, Ordering.then_assoc,
    Ordering.then_assoc]

/-- Of two milliseconds the second one has the greater digits. -/
def Follows (m n : ℕ) : Prop :=
  (¬Marked m ∧ Marked n) ∨ ((Marked m ↔ Marked n) ∧ m % 100 < n % 100)

theorem digits_lt_iff : (compare (hundreds m) (hundreds n)).then (compare (m % 100) (n % 100)) =
    .lt ↔ Follows m n := by
  rw [Ordering.then_eq_lt, Nat.compare_eq_lt, Nat.compare_eq_eq, Nat.compare_eq_lt, Follows]
  by_cases hm : Marked m
  · by_cases hn : Marked n
    · simp [hundreds_of_marked hm, hundreds_of_marked hn, hm, hn]
    · simp [hundreds_of_marked hm, hundreds_of_not_marked hn, hm, hn]
  · by_cases hn : Marked n
    · simp [hundreds_of_not_marked hm, hundreds_of_marked hn, hm, hn]
    · simp [hundreds_of_not_marked hm, hundreds_of_not_marked hn, hm, hn]

theorem digits_gt_iff : (compare (hundreds m) (hundreds n)).then (compare (m % 100) (n % 100)) =
    .gt ↔ Follows n m := by
  rw [← digits_lt_iff, Ordering.then_eq_gt, Ordering.then_eq_lt, Nat.compare_eq_gt,
    Nat.compare_eq_eq, Nat.compare_eq_gt, Nat.compare_eq_lt, Nat.compare_eq_eq, Nat.compare_eq_lt,
    eq_comm (a := hundreds m)]

/-- The digits are in the order of the milliseconds. -/
theorem digits_eq_iff : (compare (hundreds m) (hundreds n)).then (compare (m % 100) (n % 100)) =
    compare m n ↔ (m < n → Follows m n) ∧ (n < m → Follows n m) := by
  rcases Nat.lt_trichotomy m n with hlt | rfl | hlt
  · rw [Nat.compare_eq_lt.mpr hlt, digits_lt_iff]
    exact ⟨fun h => ⟨fun _ => h, fun hgt => absurd hgt (Nat.lt_asymm hlt)⟩, fun h => h.1 hlt⟩
  · rw [Nat.compare_eq_eq.mpr rfl, Nat.compare_eq_eq.mpr rfl, Nat.compare_eq_eq.mpr rfl]
    exact iff_of_true rfl ⟨fun h => absurd h (Nat.lt_irrefl m), fun h => absurd h (Nat.lt_irrefl m)⟩
  · rw [Nat.compare_eq_gt.mpr hlt, digits_gt_iff]
    exact ⟨fun h => ⟨fun hgt => absurd hgt (Nat.lt_asymm hlt), fun _ => h⟩, fun h => h.2 hlt⟩

/-- **Timestamps are in order exactly if they are in different seconds or the greater
millisecond also has the greater digits.** -/
theorem inOrder_iff : InOrder a b ↔ (a.second = b.second →
    (a.millis < b.millis → Follows a.millis b.millis) ∧
      (b.millis < a.millis → Follows b.millis a.millis)) := by
  have hcompare : InOrder a b ↔ strcmp (stamp a) (stamp b) =
      compare a.millisecond b.millisecond := by
    constructor
    · intro h
      obtain ⟨s, t, hs, ht, -, -, hst⟩ := h (fun _ => 0) (fun _ => 0)
      rw [cString_getTimestampWithMillis] at hs ht
      rwa [← Option.some.inj hs, ← Option.some.inj ht] at hst
    · intro h found found'
      exact ⟨_, _, cString_getTimestampWithMillis found a, cString_getTimestampWithMillis found' b,
        length_stamp a, length_stamp b, h⟩
  rw [hcompare, strcmp_stamp, compare_millisecond, ← digits_eq_iff]
  by_cases hsecond : a.second = b.second
  · rw [Nat.compare_eq_eq.mpr hsecond, forall_prop_of_true hsecond]
    rfl
  · have hne : compare a.second b.second ≠ .eq := fun h => hsecond (Nat.compare_eq_eq.mp h)
    refine iff_of_true ?_ fun h => absurd h hsecond
    cases hsides : compare a.second b.second with
    | lt => rfl
    | gt => rfl
    | eq => exact absurd hsides hne

/-- The same second, 0 and 200 milliseconds. -/
theorem same_stamp_for_two_milliseconds :
    (∀ found, cString 0 (getTimestampWithMillis found ⟨0, 0, 0, 0⟩) =
      cString 0 (getTimestampWithMillis found ⟨0, 0, 0, 200000⟩)) ∧
    ¬InOrder ⟨0, 0, 0, 0⟩ ⟨0, 0, 0, 200000⟩ := by
  have hsame : stamp ⟨0, 0, 0, 0⟩ = stamp ⟨0, 0, 0, 200000⟩ := by decide
  refine ⟨fun found => ?_, fun h => ?_⟩
  · rw [cString_getTimestampWithMillis, cString_getTimestampWithMillis, hsame]
  · obtain ⟨s, t, hs, ht, -, -, hst⟩ := h (fun _ => 0) (fun _ => 0)
    rw [cString_getTimestampWithMillis] at hs ht
    obtain rfl := Option.some.inj hs
    obtain rfl := Option.some.inj ht
    exact absurd hst (by decide)

end Sysopy.TaskQueue
