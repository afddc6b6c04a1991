import Sysopy.Foundation.Bubble
import Sysopy.RecordSort.Backends

/-!
# Sorting a file of records

`perform_bubble_sort` reads the records of a pass one after the other and keeps one of
them in memory. When the record just read has to go before the kept one the two change
places in the file, and the place of the next read must be as it was. A pass over the
file then does what carrying the greatest record does to the list of records, whichever
functions access the file.

## Sections

* §1 `perform_bubble_sort`
* §2 what the sort needs of the functions
* §3 both sets of functions do it
* §4 the sort
-/

namespace Sysopy.RecordSort

open Sysopy.Foundation

/-! ## §1  perform_bubble_sort -/

/-- The loop over `counter`, with `turns` of its turns to come. -/
def compareLoop (io : Backend) : ℕ → ℕ → List Byte → Stream → Except Stop Stream
  | 0, _, _, s => .ok s
  | turns + 1, counter, previousRecord, s => do
      let (currentRecord, s) ← io.getNextRecord s
      match currentRecord.head?, previousRecord.head? with
      | some current, some previous =>
          if current < previous then do
            let s ← io.swapRecords ((counter : ℤ) - 1) counter s
            compareLoop io turns (counter + 1) previousRecord s
          else compareLoop io turns (counter + 1) currentRecord s
      | _, _ => .error .undefined

/-- The loop over `last_unsorted_element_index`. It goes on after a pass without changes:
the `break` for that case is commented out. -/
def sortLoop (io : Backend) : ℕ → Stream → Except Stop Stream
  | 0, s => .ok s
  | last + 1, s => do
      let s ← io.setFileStart s
      let (previousRecord, s) ← io.getNextRecord s
      let s ← compareLoop io (last + 1) 1 previousRecord s
      sortLoop io last s

def performBubbleSort (io : Backend) (numRecords : ℕ) (s : Stream) : Except Stop Stream :=
  if numRecords ≤ 1 then .ok s else sortLoop io (numRecords - 1) s

def opened (bytes : List Byte) : Stream where
  bytes := bytes
  position := 0
  eof := false
  printed := []

/-! ## §2  What the sort needs of the functions -/

/-- The file holds the records, and number `k` of them is the next one. -/
structure AtRecord (r : ℕ) (recs : List (List Byte)) (k : ℕ) (s : Stream) : Prop where
  bytes : s.bytes = recs.flatten
  position : s.position = k * r
  eof : s.eof = false

/-- The functions read records in their order and exchange two of them without moving on. -/
structure Backend.Works (io : Backend) (r : ℕ) : Prop where
  setFileStart : ∀ {recs k s}, AtRecord r recs k s →
    ∃ t, io.setFileStart s = .ok t ∧ AtRecord r recs 0 t
  getNextRecord : ∀ {recs k s}, Uniform r recs → AtRecord r recs k s →
    ∀ hk : k < recs.length, ∃ t, io.getNextRecord s = .ok (recs[k], t) ∧ AtRecord r recs (k + 1) t
  swapRecords : ∀ {recs k s} {a b : ℕ}, Uniform r recs → AtRecord r recs k s →
    recs.length * r < 2 ^ 31 → ∀ (ha : a < recs.length) (hb : b < recs.length),
    ∃ t, io.swapRecords a b s = .ok t ∧ AtRecord r ((recs.set a recs[b]).set b recs[a]) k t

variable {io : Backend} {r : ℕ} {recs : List (List Byte)} {s : Stream}

/-! ## §3  Both sets of functions do it -/

/-- The place of a record fits into an `int` when the size of the file does. -/
theorem mulInt_natCast {a : ℕ} (h : a * r < 2 ^ 31) : mulInt a r = (a * r : ℕ) := by
  rw [mulInt, ← Int.natCast_mul]
  apply Int.bmod_eq_of_le <;> omega

theorem AtRecord.fits {k : ℕ} (h : AtRecord r recs k s) (hu : Uniform r recs)
    (hk : k < recs.length) : s.position + r ≤ s.bytes.length := by
  rw [h.bytes, h.position]
  exact hu.mul_lt hk

theorem AtRecord.next {k : ℕ} (h : AtRecord r recs k s) (hu : Uniform r recs)
    (hk : k < recs.length) : s.next r = recs[k] := by
  rw [Stream.next, h.bytes, h.position, hu.read hk]

theorem AtRecord.advance {k : ℕ} (h : AtRecord r recs k s) :
    AtRecord r recs (k + 1) { s with position := s.position + r } where
  bytes := h.bytes
  position := by
    show s.position + r = _
    rw [h.position, Nat.succ_mul]
  eof := h.eof

theorem AtRecord.exchange {k a b : ℕ} {e : Bool} (h : AtRecord r recs k s)
    (hu : Uniform r recs) (ha : a < recs.length) (hb : b < recs.length) (he : e = false) :
    AtRecord r ((recs.set a recs[b]).set b recs[a]) k
      { s with bytes := exchange r (a * r) (b * r) s.bytes, eof := e } where
  bytes := by
    show Foundation.exchange r (a * r) (b * r) s.bytes = _
    rw [h.bytes, hu.exchange ha hb]
  position := h.position
  eof := he

section Swap

variable {k a b : ℕ} (h : AtRecord r recs k s) (hu : Uniform r recs)
  (ha : a < recs.length) (hb : b < recs.length) (haint : a * r < 2 ^ 31) (hbint : b * r < 2 ^ 31)
include h hu ha hb haint hbint

/-- An exchange needs places that fit into an `int`, not a file that does. -/
theorem AtRecord.swapRecordsSysIo :
    ∃ t, swapRecordsSysIo r a b s = .ok t ∧
      AtRecord r ((recs.set a recs[b]).set b recs[a]) k t := by
  have hfit {c : ℕ} (hc : c < recs.length) : c * r + r ≤ s.bytes.length :=
    h.bytes ▸ hu.mul_lt hc
  have hswap := swapRecordsSysIo_ok (r := r) (a := a) (b := b) (s := s)
  rw [mulInt_natCast haint, mulInt_natCast hbint, Int.toNat_natCast, Int.toNat_natCast] at hswap
  exact ⟨_, hswap (Int.natCast_nonneg _) (Int.natCast_nonneg _) (hfit ha) (hfit hb),
    h.exchange hu ha hb h.eof⟩

theorem AtRecord.swapRecordsStdIo :
    ∃ t, swapRecordsStdIo r a b s = .ok t ∧
      AtRecord r ((recs.set a recs[b]).set b recs[a]) k t := by
  have hfit {c : ℕ} (hc : c < recs.length) : c * r + r ≤ s.bytes.length :=
    h.bytes ▸ hu.mul_lt hc
  have hswap := swapRecordsStdIo_ok (r := r) (a := a) (b := b) (s := s)
  rw [mulInt_natCast haint, mulInt_natCast hbint, Int.toNat_natCast, Int.toNat_natCast] at hswap
  exact ⟨_, hswap (Int.natCast_nonneg _) (Int.natCast_nonneg _) (hfit ha) (hfit hb),
    h.exchange hu ha hb rfl⟩

end Swap

theorem place_lt {a : ℕ} (hrange : recs.length * r < 2 ^ 31) (ha : a < recs.length) :
    a * r < 2 ^ 31 :=
  lt_of_le_of_lt (Nat.mul_le_mul_right r ha.le) hrange

theorem sysIo_works (hr : 1 ≤ r) (depth : ℕ) : (sysIo r (depth + 1)).Works r where
  setFileStart h := ⟨_, setFileStartSysIo_eq _, h.bytes, (Nat.zero_mul r).symm, h.eof⟩
  getNextRecord hu h hk :=
    ⟨_, by rw [← h.next hu hk]; exact getNextRecordSysIo_ok hr (h.fits hu hk) depth, h.advance⟩
  swapRecords hu h hrange ha hb :=
    h.swapRecordsSysIo hu ha hb (place_lt hrange ha) (place_lt hrange hb)

theorem stdIo_works (r : ℕ) : (stdIo r).Works r where
  setFileStart h := ⟨_, setFileStartStdIo_eq _, h.bytes, (Nat.zero_mul r).symm, rfl⟩
  getNextRecord hu h hk :=
    ⟨_, by rw [← h.next hu hk]; exact getNextRecordStdIo_ok (h.fits hu hk) h.eof, h.advance⟩
  swapRecords hu h hrange ha hb :=
    h.swapRecordsStdIo hu ha hb (place_lt hrange ha) (place_lt hrange hb)

/-! ## §4  The sort -/

/-- The first byte of a record, taken as unsigned. -/
def firstByte (x : List Byte) : ℕ := (x.headD 0).toNat

theorem exists_head {x : List Byte} (hr : 1 ≤ r) (hx : x.length = r) :
    ∃ c, x.head? = some c ∧ firstByte x = c.toNat := by
  cases x with
  | nil =>
      rw [List.length_nil] at hx
      exact absurd hr (hx ▸ Nat.not_succ_le_zero 0)
  | cons c x => exact ⟨c, rfl, rfl⟩

theorem set_set_neighbours {α : Type*} (pre post : List α) (x y : α) :
    ((pre ++ x :: y :: post).set pre.length y).set (pre.length + 1) x =
      pre ++ y :: x :: post := by
  rw [List.set_append_right _ _ (Nat.le_refl _), Nat.sub_self,
    List.set_append_right _ _ (Nat.le_succ _), Nat.succ_sub (Nat.le_refl _), Nat.sub_self]
  rfl

theorem compareLoop_succ {x previous : List Byte} {t : Stream} {c p : Byte} (turns counter : ℕ)
    (hread : io.getNextRecord s = .ok (x, t)) (hc : x.head? = some c)
    (hp : previous.head? = some p) :
    compareLoop io (turns + 1) (counter + 1) previous s =
      if c < p then
        io.swapRecords counter (counter + 1 : ℕ) t >>=
          compareLoop io turns (counter + 1 + 1) previous
      else compareLoop io turns (counter + 1 + 1) x t := by
  rw [compareLoop, hread]
  simp only [bind, Except.bind, hc, hp, Int.natCast_succ, Int.add_sub_cancel]

/-- **One pass carries the record in memory through the file.** -/
theorem compareLoop_spec (hio : io.Works r) (hr : 1 ≤ r) (ys pre post : List (List Byte))
    (x : List Byte) (hu : Uniform r (pre ++ x :: (ys ++ post)))
    (hrange : (pre ++ x :: (ys ++ post)).length * r < 2 ^ 31)
    (h : AtRecord r (pre ++ x :: (ys ++ post)) (pre.length + 1) s) :
    ∃ t k, compareLoop io ys.length (pre.length + 1) x s = .ok t ∧
      AtRecord r (pre ++ (carry firstByte x ys ++ post)) k t := by
  induction ys generalizing pre x s with
  | nil => exact ⟨s, pre.length + 1, rfl, h⟩
  | cons y ys ih =>
      have hk : pre.length + 1 < (pre ++ x :: (y :: ys ++ post)).length := by
        rw [List.length_append, List.length_cons, List.length_append, List.length_cons]
        omega
      have hget : (pre ++ x :: (y :: ys ++ post))[pre.length + 1] = y := by
        rw [List.getElem_append_right (Nat.le_succ _)]
        simp
      obtain ⟨t, hread, ht⟩ := hio.getNextRecord hu h hk
      rw [hget] at hread
      obtain ⟨cy, hcy, hy⟩ := exists_head hr (hu y (by simp))
      obtain ⟨cx, hcx, hx⟩ := exists_head hr (hu x (by simp))
      rw [List.length_cons, compareLoop_succ ys.length pre.length hread hcy hcx, carry, hy, hx]
      by_cases hlt : cy < cx
      · -- the record just read goes before the one in memory
        obtain ⟨u, hswap, hafter⟩ := hio.swapRecords hu ht hrange (Nat.lt_of_succ_lt hk) hk
        have hfirst : (pre ++ x :: (y :: ys ++ post))[pre.length] = x := by
          rw [List.getElem_append_right (Nat.le_refl _)]
          simp
        rw [hget, hfirst, List.cons_append, set_set_neighbours, List.append_cons] at hafter
        have hperm : (pre ++ [y] ++ x :: (ys ++ post)).Perm (pre ++ x :: (y :: ys ++ post)) := by
          rw [← List.append_cons]
          exact (List.Perm.swap x y _).append_left pre
        obtain ⟨v, k, hloop, hend⟩ := ih (pre ++ [y]) x (hu.perm hperm)
          (hperm.length_eq ▸ hrange) (by rwa [List.length_append, List.length_singleton])
        rw [List.length_append, List.length_singleton] at hloop
        rw [← List.append_cons] at hend
        rw [if_pos hlt, if_pos (UInt8.lt_iff_toNat_lt.mp hlt), hswap]
        exact ⟨v, k, hloop, hend⟩
      · rw [List.cons_append, List.append_cons] at hu hrange ht
        obtain ⟨v, k, hloop, hend⟩ := ih (pre ++ [x]) y hu hrange
          (by rwa [List.length_append, List.length_singleton])
        rw [List.length_append, List.length_singleton] at hloop
        rw [← List.append_cons] at hend
        rw [if_neg hlt, if_neg fun h => hlt (UInt8.lt_iff_toNat_lt.mpr h)]
        exact ⟨v, k, hloop, hend⟩

theorem sortLoop_spec (hio : io.Works r) (hr : 1 ≤ r) (n k : ℕ) (hu : Uniform r recs)
    (hrange : recs.length * r < 2 ^ 31) (hn : n < recs.length) (h : AtRecord r recs k s) :
    ∃ t k, sortLoop io n s = .ok t ∧ AtRecord r (passes firstByte n recs) k t := by
  induction n generalizing recs k s with
  | zero => exact ⟨s, k, rfl, h⟩
  | succ n ih =>
      obtain ⟨s₀, hstart, h₀⟩ := hio.setFileStart h
      obtain ⟨s₁, hread, h₁⟩ := hio.getNextRecord hu h₀ (Nat.zero_lt_of_lt hn)
      obtain ⟨x, xs, rfl⟩ := List.exists_cons_of_length_pos (Nat.zero_lt_of_lt hn)
      have hsplit : x :: xs = [] ++ x :: (xs.take (n + 1) ++ xs.drop (n + 1)) := by
        rw [List.take_append_drop, List.nil_append]
      have hlen : (xs.take (n + 1)).length = n + 1 := by
        rw [List.length_take]
        exact Nat.min_eq_left (Nat.lt_succ_iff.mp hn)
      obtain ⟨s₂, k₂, hloop, h₂⟩ := compareLoop_spec hio hr (xs.take (n + 1)) []
        (xs.drop (n + 1)) x (hsplit ▸ hu) (hsplit ▸ hrange) (hsplit ▸ h₁)
      have hperm : (carry firstByte x (xs.take (n + 1)) ++ xs.drop (n + 1)).Perm (x :: xs) := by
        have := (carry_perm firstByte x (xs.take (n + 1))).append_right (xs.drop (n + 1))
        rwa [List.cons_append, List.take_append_drop] at this
      rw [hlen, List.length_nil, Nat.zero_add] at hloop
      obtain ⟨t, k, hrest, ht⟩ := ih k₂ (hu.perm hperm) (hperm.length_eq ▸ hrange)
        (hperm.length_eq ▸ Nat.lt_of_succ_lt hn) h₂
      refine ⟨t, k, ?_, ht⟩
      rw [sortLoop, hstart]
      show (io.getNextRecord s₀ >>= fun _ => _) = _
      rw [hread]
      show (compareLoop io (n + 1) 1 x s₁ >>= _) = _
      rw [hloop]
      exact hrest

theorem performBubbleSort_spec (hio : io.Works r) (hr : 1 ≤ r) (hu : Uniform r recs)
    (hrange : recs.length * r < 2 ^ 31) (h : AtRecord r recs 0 s) :
    ∃ t, performBubbleSort io recs.length s = .ok t ∧
      t.bytes = (passes firstByte (recs.length - 1) recs).flatten := by
  unfold performBubbleSort
  split_ifs with hshort
  · rw [Nat.sub_eq_zero_of_le hshort]
    exact ⟨s, rfl, h.bytes⟩
  · obtain ⟨t, k, hsort, ht⟩ := sortLoop_spec hio hr (recs.length - 1) 0 hu hrange (by omega) h
    exact ⟨t, hsort, ht.bytes⟩

/-- **The file is sorted**: with either set of functions the sort returns, and the file
then holds the records in the order of their first bytes, those with the same first byte
as before. -/
theorem record_file_sorted {r : ℕ} (hr : 1 ≤ r) (depth : ℕ) {recs : List (List Byte)}
    (hu : Uniform r recs) (hrange : recs.length * r < 2 ^ 31) :
    ∃ sorted s t, StableSort firstByte recs sorted ∧
      performBubbleSort (sysIo r (depth + 1)) recs.length (opened recs.flatten) = .ok s ∧
      performBubbleSort (stdIo r) recs.length (opened recs.flatten) = .ok t ∧
      s.bytes = sorted.flatten ∧ t.bytes = sorted.flatten := by
  have hstart : AtRecord r recs 0 (opened recs.flatten) := ⟨rfl, (Nat.zero_mul r).symm, rfl⟩
  obtain ⟨s, hs, hsys⟩ := performBubbleSort_spec (sysIo_works hr depth) hr hu hrange hstart
  obtain ⟨t, ht, hstd⟩ := performBubbleSort_spec (stdIo_works r) hr hu hrange hstart
  exact ⟨_, s, t, passes_stableSort recs, hs, ht, hsys, hstd⟩

theorem record_file_sorted_three :
    ∃ sorted s t, StableSort firstByte [[3, 1], [1, 7], [3, 0]] sorted ∧
      performBubbleSort (sysIo 2 1) 3 (opened [3, 1, 1, 7, 3, 0]) = .ok s ∧
      performBubbleSort (stdIo 2) 3 (opened [3, 1, 1, 7, 3, 0]) = .ok t ∧
      s.bytes = sorted.flatten ∧ t.bytes = sorted.flatten :=
  record_file_sorted (by decide) 0
    (by unfold Uniform; decide) (by decide)

end Sysopy.RecordSort
