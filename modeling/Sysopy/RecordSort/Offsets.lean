import Sysopy.Foundation.Ints
import Sysopy.RecordSort.Sort

/-!
# The number of records and their places

`main` stores the number of records, a quotient of the 64-bit size of the file, in an
`int`, and the functions that exchange two records multiply `int`s before they store the
products in `long`s. The number is right when it is below 2^31. The product is right for
every index that the sort can get to exactly when the place of the last record fits into
an `int`: a file whose only small record is the last one has it exchanged in the first pass.

## Sections

* §1 `main` up to the sort
* §2 exact places
* §3 places that fit
* §4 a place that does not fit
* §5 which sizes are exact
-/

namespace Sysopy.RecordSort

open Sysopy.Foundation

/-! ## §1  main up to the sort -/

/-- `number_of_records`, where `main` gets to the sort; the division by zero and the exit
for a size that does not match are `none`. -/
def numberOfRecords (size bytesPerRecord : ℤ) : Option ℤ :=
  if bytesPerRecord = 0 ∨ size.tmod bytesPerRecord ≠ 0 then none
  else some (toInt (size.tdiv bytesPerRecord))

variable {r size n k : ℕ} {a b : ℤ} {s : Stream} {io : Backend}

theorem numberOfRecords_natCast {num : ℤ} (h : numberOfRecords size r = some num) :
    r ∣ size ∧ num = toInt (size / r : ℕ) := by
  unfold numberOfRecords at h
  split_ifs at h with hstop
  obtain ⟨-, hmod⟩ := not_or.mp hstop
  have hdvd : (r : ℤ) ∣ size := Int.dvd_of_tmod_eq_zero (not_not.mp hmod)
  refine ⟨Int.natCast_dvd_natCast.mp hdvd, ?_⟩
  rw [← Option.some.inj h, Int.tdiv_eq_ediv_of_nonneg (Int.natCast_nonneg size)]
  rfl

/-! ## §2  Exact places -/

/-- The product of two `int`s is exact where it does not leave the type. -/
theorem mulInt_eq_iff (a b : ℤ) : mulInt a b = a * b ↔ FitsInt (a * b) := toInt_eq_iff

/-- The functions of `io` with a check of the two products of an exchange: one that is not
exact, which C leaves undefined, ends the run. -/
def Backend.strict (io : Backend) (r : ℕ) : Backend where
  getNextRecord := io.getNextRecord
  swapRecords a b s :=
    if mulInt a r = a * r ∧ mulInt b r = b * r then io.swapRecords a b s
    else .error .undefined
  setFileStart := io.setFileStart

theorem Backend.strict_swap (ha : FitsInt (a * r)) (hb : FitsInt (b * r)) :
    (io.strict r).swapRecords a b s = io.swapRecords a b s :=
  if_pos ⟨(mulInt_eq_iff a r).mpr ha, (mulInt_eq_iff b r).mpr hb⟩

theorem Backend.strict_overflow (hb : ¬FitsInt (b * r)) :
    (io.strict r).swapRecords a b s = .error .undefined :=
  if_neg fun h => hb ((mulInt_eq_iff b r).mp h.2)

/-- The number of records is that of the file, and whatever the file contains, the sort
makes no exchange at a place that is not exactly index times record size. -/
structure ExactOffsets (r depth size : ℕ) (num : ℤ) : Prop where
  count : num * r = size
  sys : ∀ bytes : List Byte, bytes.length = size →
    performBubbleSort ((sysIo r depth).strict r) num.toNat (opened bytes) ≠ .error .undefined
  std : ∀ bytes : List Byte, bytes.length = size →
    performBubbleSort ((stdIo r).strict r) num.toNat (opened bytes) ≠ .error .undefined

/-! ## §3  Places that fit -/

/-- The file has `n` records, and number `k` of them is the next one. -/
def Aligned (r n k : ℕ) (s : Stream) : Prop :=
  ∃ recs, Uniform r recs ∧ recs.length = n ∧ AtRecord r recs k s

/-- What `Backend.Works` says about exchanges, for the places instead of the whole file. -/
def Backend.Exchanges (io : Backend) (r : ℕ) : Prop :=
  ∀ {recs k s} {a b : ℕ}, Uniform r recs → AtRecord r recs k s →
    ∀ (ha : a < recs.length) (hb : b < recs.length), a * r < 2 ^ 31 → b * r < 2 ^ 31 →
    ∃ t, io.swapRecords a b s = .ok t ∧ AtRecord r ((recs.set a recs[b]).set b recs[a]) k t

theorem sysIo_exchanges (r depth : ℕ) : (sysIo r depth).Exchanges r :=
  fun hu h ha hb haint hbint => h.swapRecordsSysIo hu ha hb haint hbint

theorem stdIo_exchanges (r : ℕ) : (stdIo r).Exchanges r :=
  fun hu h ha hb haint hbint => h.swapRecordsStdIo hu ha hb haint hbint

theorem Aligned.setFileStart (hio : io.Works r) (h : Aligned r n k s) :
    ∃ t, io.setFileStart s = .ok t ∧ Aligned r n 0 t := by
  obtain ⟨recs, hu, hn, hat⟩ := h
  obtain ⟨t, ht, hat⟩ := hio.setFileStart hat
  exact ⟨t, ht, recs, hu, hn, hat⟩

theorem Aligned.getNextRecord (hio : io.Works r) (h : Aligned r n k s) (hk : k < n) :
    ∃ x t, io.getNextRecord s = .ok (x, t) ∧ x.length = r ∧ Aligned r n (k + 1) t := by
  obtain ⟨recs, hu, rfl, hat⟩ := h
  obtain ⟨t, ht, hat⟩ := hio.getNextRecord hu hat hk
  exact ⟨recs[k], t, ht, hu _ (List.getElem_mem hk), recs, hu, rfl, hat⟩

theorem Aligned.swapRecords {a b : ℕ} (hio : io.Exchanges r) (h : Aligned r n k s)
    (ha : a < n) (hb : b < n) (hlast : (n - 1) * r < 2 ^ 31) :
    ∃ t, (io.strict r).swapRecords a b s = .ok t ∧ Aligned r n k t := by
  obtain ⟨recs, hu, rfl, hat⟩ := h
  have hplace {c : ℕ} (hc : c < recs.length) : c * r < 2 ^ 31 :=
    lt_of_le_of_lt (Nat.mul_le_mul_right r (Nat.le_sub_one_of_lt hc)) hlast
  have hfits {c : ℕ} (hc : c < recs.length) : FitsInt ((c : ℤ) * r) := by
    rw [← Int.natCast_mul]
    exact fitsInt_natCast.mpr (hplace hc)
  obtain ⟨t, ht, hat'⟩ := hio hu hat ha hb (hplace ha) (hplace hb)
  refine ⟨t, (Backend.strict_swap (hfits ha) (hfits hb)).trans ht, _, ?_, ?_, hat'⟩
  · exact (hu.set (hu _ (List.getElem_mem hb)) a).set (hu _ (List.getElem_mem ha)) b
  · rw [List.length_set, List.length_set]

/-- The comparisons of a pass exchange records inside the file only. -/
theorem compareLoop_exact (hio : io.Works r) (hex : io.Exchanges r) (hr : 1 ≤ r)
    (hlast : (n - 1) * r < 2 ^ 31) (turns counter : ℕ) {previous : List Byte}
    (hprevious : previous.length = r) (h : Aligned r n (counter + 1) s)
    (hturns : counter + 1 + turns ≤ n) :
    ∃ t k, compareLoop (io.strict r) turns (counter + 1) previous s = .ok t ∧
      Aligned r n k t := by
  induction turns generalizing counter previous s with
  | zero => exact ⟨s, counter + 1, rfl, h⟩
  | succ turns ih =>
      have hlt : counter + 1 < n :=
        Nat.lt_of_lt_of_le (Nat.lt_add_of_pos_right (Nat.succ_pos turns)) hturns
      have hrest : counter + 1 + 1 + turns ≤ n :=
        (Nat.succ_add_eq_add_succ (counter + 1) turns).le.trans hturns
      obtain ⟨x, t, hread, hx, ht⟩ := h.getNextRecord hio hlt
      have hread : (io.strict r).getNextRecord s = .ok (x, t) := hread
      obtain ⟨c, hc, -⟩ := exists_head hr hx
      obtain ⟨p, hp, -⟩ := exists_head hr hprevious
      rw [compareLoop_succ turns counter hread hc hp]
      split_ifs
      · obtain ⟨u, hswap, hu⟩ := ht.swapRecords hex (Nat.lt_of_succ_lt hlt) hlt hlast
        rw [hswap]
        exact ih (counter + 1) hprevious hu hrest
      · exact ih (counter + 1) hx ht hrest

theorem sortLoop_exact (hio : io.Works r) (hex : io.Exchanges r) (hr : 1 ≤ r)
    (hlast : (n - 1) * r < 2 ^ 31) (last : ℕ) (h : Aligned r n k s) (hn : last < n) :
    ∃ t, sortLoop (io.strict r) last s = .ok t := by
  induction last generalizing k s with
  | zero => exact ⟨s, rfl⟩
  | succ last ih =>
      obtain ⟨s₀, hstart, h₀⟩ := h.setFileStart hio
      obtain ⟨x, s₁, hread, hx, h₁⟩ := h₀.getNextRecord hio (Nat.zero_lt_of_lt hn)
      obtain ⟨s₂, k₂, hloop, h₂⟩ := compareLoop_exact hio hex hr hlast (last + 1) 0 hx h₁
        ((Nat.add_comm _ _).le.trans hn)
      obtain ⟨t, ht⟩ := ih h₂ (Nat.lt_of_succ_lt hn)
      refine ⟨t, ?_⟩
      rw [sortLoop, show (io.strict r).setFileStart s = _ from hstart]
      show ((io.strict r).getNextRecord s₀ >>= fun _ => _) = _
      rw [show (io.strict r).getNextRecord s₀ = _ from hread]
      show (compareLoop (io.strict r) (last + 1) 1 x s₁ >>= _) = _
      rw [hloop]
      exact ht

theorem exists_uniform (r n : ℕ) (bytes : List Byte) (h : bytes.length = n * r) :
    ∃ recs, Uniform r recs ∧ recs.length = n ∧ recs.flatten = bytes := by
  induction n generalizing bytes with
  | zero =>
      rw [Nat.zero_mul] at h
      exact ⟨[], fun _ hx => absurd hx List.not_mem_nil, rfl,
        (List.eq_nil_of_length_eq_zero h).symm⟩
  | succ n ih =>
      rw [Nat.succ_mul] at h
      obtain ⟨recs, hu, hlen, hflat⟩ := ih (bytes.drop r) (by rw [List.length_drop]; omega)
      refine ⟨bytes.take r :: recs, ?_, congrArg (· + 1) hlen, ?_⟩
      · intro x hx
        rcases List.mem_cons.mp hx with rfl | hx
        · rw [List.length_take]
          omega
        · exact hu x hx
      · rw [List.flatten_cons, hflat, List.take_append_drop]

theorem opened_aligned {bytes : List Byte} (h : bytes.length = n * r) :
    Aligned r n 0 (opened bytes) := by
  obtain ⟨recs, hu, hn, hflat⟩ := exists_uniform r n bytes h
  exact ⟨recs, hu, hn, hflat.symm, (Nat.zero_mul r).symm, rfl⟩

theorem performBubbleSort_exact (hio : io.Works r) (hex : io.Exchanges r) (hr : 1 ≤ r)
    (hlast : (n - 1) * r < 2 ^ 31) {bytes : List Byte} (h : bytes.length = n * r) :
    performBubbleSort (io.strict r) n (opened bytes) ≠ .error .undefined := by
  unfold performBubbleSort
  split_ifs with hshort
  · exact nofun
  · obtain ⟨t, ht⟩ := sortLoop_exact hio hex hr hlast (n - 1) (opened_aligned h) (by omega)
    rw [ht]
    exact nofun

/-! ## §4  A place that does not fit -/

/-- `n` records that begin with 1 and a last one that begins with 0. -/
def smallLast (r n : ℕ) : List (List Byte) :=
  List.replicate n (List.replicate r 1) ++ [List.replicate r 0]

theorem smallLast_length (r n : ℕ) : (smallLast r n).length = n + 1 := by
  rw [smallLast, List.length_append, List.length_replicate, List.length_singleton]

theorem smallLast_uniform (r n : ℕ) : Uniform r (smallLast r n) := by
  intro x hx
  rcases List.mem_append.mp hx with hx | hx
  · rw [List.eq_of_mem_replicate hx, List.length_replicate]
  · rw [List.mem_singleton.mp hx, List.length_replicate]

theorem smallLast_before (hk : k < n) (h : k < (smallLast r n).length) :
    (smallLast r n)[k] = List.replicate r 1 := by
  simp only [smallLast]
  rw [List.getElem_append_left (by rwa [List.length_replicate]), List.getElem_replicate]

theorem smallLast_last (h : n < (smallLast r n).length) :
    (smallLast r n)[n] = List.replicate r 0 := by
  simp only [smallLast]
  rw [List.getElem_append_right (by rw [List.length_replicate])]
  simp

theorem head?_replicate (hr : 1 ≤ r) (c : Byte) : (List.replicate r c).head? = some c := by
  obtain ⟨m, rfl⟩ := Nat.exists_eq_add_of_le' hr
  rfl

/-- **The pass gets to the last record and exchanges it.** -/
theorem compareLoop_overflow (hio : io.Works r) (hr : 1 ≤ r) (hlast : 2 ^ 31 ≤ n * r)
    (turns counter : ℕ) (h : AtRecord r (smallLast r n) (counter + 1) s)
    (hturns : counter + 1 + turns = n) :
    compareLoop (io.strict r) (turns + 1) (counter + 1) (List.replicate r 1) s =
      .error .undefined := by
  have hlength := smallLast_length r n
  induction turns generalizing counter s with
  | zero =>
      obtain ⟨t, hread, ht⟩ := hio.getNextRecord (smallLast_uniform r n) h (by omega)
      obtain rfl : counter + 1 = n := hturns
      rw [smallLast_last] at hread
      have hread : (io.strict r).getNextRecord s = .ok (_, t) := hread
      have hoverflow : ¬FitsInt (((counter + 1 : ℕ) : ℤ) * r) := by
        rw [← Int.natCast_mul, fitsInt_natCast]
        exact Nat.not_lt.mpr hlast
      rw [compareLoop_succ 0 counter hread (head?_replicate hr 0)
        (head?_replicate hr 1), if_pos (by decide), Backend.strict_overflow hoverflow]
      rfl
  | succ turns ih =>
      obtain ⟨t, hread, ht⟩ := hio.getNextRecord (smallLast_uniform r n) h (by omega)
      rw [smallLast_before (by omega)] at hread
      have hread : (io.strict r).getNextRecord s = .ok (_, t) := hread
      rw [compareLoop_succ (turns + 1) counter hread (head?_replicate hr 1)
        (head?_replicate hr 1), if_neg (by decide)]
      exact ih (counter + 1) ht (by omega)

theorem performBubbleSort_overflow (hio : io.Works r) (hr : 1 ≤ r) (hn : 1 ≤ n)
    (hlast : 2 ^ 31 ≤ n * r) :
    performBubbleSort (io.strict r) (n + 1) (opened (smallLast r n).flatten) =
      .error .undefined := by
  obtain ⟨m, rfl⟩ := Nat.exists_eq_add_of_le' hn
  have hlength := smallLast_length r (m + 1)
  have hu := smallLast_uniform r (m + 1)
  have hopened : AtRecord r (smallLast r (m + 1)) 0 (opened (smallLast r (m + 1)).flatten) :=
    ⟨rfl, (Nat.zero_mul r).symm, rfl⟩
  obtain ⟨s₀, hstart, h₀⟩ := hio.setFileStart hopened
  obtain ⟨s₁, hread, h₁⟩ := hio.getNextRecord hu h₀ (by omega)
  rw [smallLast_before (Nat.succ_pos m)] at hread
  rw [performBubbleSort, if_neg (by omega)]
  show sortLoop _ (m + 1) _ = _
  rw [sortLoop, show (io.strict r).setFileStart _ = _ from hstart]
  show ((io.strict r).getNextRecord s₀ >>= fun _ => _) = _
  rw [show (io.strict r).getNextRecord s₀ = _ from hread]
  show (compareLoop (io.strict r) (m + 1) 1 _ s₁ >>= _) = _
  rw [compareLoop_overflow hio hr hlast m 0 h₁ (Nat.add_comm _ _)]
  rfl

/-! ## §5  Which sizes are exact -/

/-- **The offsets are exact exactly if the number of records and the place of the last
one fit into an `int`.** -/
theorem exactOffsets_iff {num : ℤ} (hr : 1 ≤ r) (depth : ℕ)
    (hnum : numberOfRecords size r = some num) :
    ExactOffsets r (depth + 1) size num ↔ size / r < 2 ^ 31 ∧ size - r < 2 ^ 31 := by
  obtain ⟨hdvd, hcount⟩ := numberOfRecords_natCast hnum
  obtain ⟨n, rfl⟩ := hdvd
  rw [hcount, Nat.mul_div_cancel_left n hr, Nat.mul_comm r n]
  have hplace : n * r - r = (n - 1) * r := (Nat.sub_one_mul n r).symm
  constructor
  · intro h
    have hcount : n < 2 ^ 31 := by
      have hmul : toInt n * r = n * r := by
        rw [h.count, Int.natCast_mul]
      have hne : (r : ℤ) ≠ 0 := Int.natCast_ne_zero.mpr (Nat.one_le_iff_ne_zero.mp hr)
      exact toInt_natCast_eq.mp (Int.eq_of_mul_eq_mul_right hne hmul)
    refine ⟨hcount, ?_⟩
    by_contra hlast
    rw [hplace, Nat.not_lt] at hlast
    have htwo : 2 ≤ n := by
      by_contra hsmall
      rw [Nat.sub_eq_zero_of_le (Nat.lt_succ_iff.mp (Nat.not_le.mp hsmall)), Nat.zero_mul]
        at hlast
      exact absurd hlast (Nat.not_le.mpr (Nat.two_pow_pos 31))
    obtain ⟨m, rfl⟩ := Nat.exists_eq_add_of_le' htwo
    have hlength : (smallLast r (m + 1)).flatten.length = (m + 1 + 1) * r := by
      rw [(smallLast_uniform r (m + 1)).length_flatten, smallLast_length]
    have hsort := h.sys _ hlength
    rw [toInt_natCast_eq.mpr hcount, Int.toNat_natCast] at hsort
    exact hsort (performBubbleSort_overflow (sysIo_works hr depth) hr (Nat.succ_pos m) hlast)
  · rintro ⟨hcount, hlast⟩
    rw [hplace] at hlast
    rw [toInt_natCast_eq.mpr hcount]
    refine ⟨(Int.natCast_mul n r).symm, fun bytes hbytes => ?_, fun bytes hbytes => ?_⟩
    · exact performBubbleSort_exact (sysIo_works hr depth) (sysIo_exchanges r _) hr hlast hbytes
    · exact performBubbleSort_exact (stdIo_works r) (stdIo_exchanges r) hr hlast hbytes

theorem exactOffsets_iff_two : ExactOffsets 3 1 6 2 ↔ 6 / 3 < 2 ^ 31 ∧ 6 - 3 < 2 ^ 31 :=
  exactOffsets_iff (by decide) 0 (by decide)

/-- A file of 2^31 records of one byte. -/
theorem count_is_narrowed :
    numberOfRecords 2147483648 1 = some (-2147483648) ∧
      ¬ExactOffsets 1 1 2147483648 (-2147483648) := by
  refine ⟨by decide, fun h => ?_⟩
  exact absurd h.count (by decide)

end Sysopy.RecordSort
