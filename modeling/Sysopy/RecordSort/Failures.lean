import Sysopy.Foundation.Outcome
import Sysopy.RecordSort.Sort

/-!
# A sort that fails on the way

With `SYS` every call of the system may fail, and the program then prints a message and
ends. An exchange writes the two records one after the other, so that between the two
writes the file holds one record twice and the other one only in memory. A sort that
fails leaves a file with all the records, or with all but one of them.

Which calls fail is up to the environment. A call that fails has done nothing; of
`malloc`, `lseek`, `read` and `write` all can fail.

## Sections

* §1 the functions for `SYS` and the sort
* §2 without a failure
* §3 what a failure leaves behind
* §4 an exchange
* §5 the sort
-/

namespace Sysopy.RecordSort.Failures

open Sysopy.Foundation

/-! ## §1  The functions for SYS and the sort -/

/-- An open file, and which of the calls to come fail; those after these succeed. -/
structure Disk where
  stream : Stream
  fails : List Bool

namespace Disk

/-- A call that may fail; the program then prints the message and ends. -/
def call (d : Disk) (text : String) : Except Stop Disk :=
  if d.fails.headD false then d.stream.exit text else .ok { d with fails := d.fails.tail }

/-- `lseek(fd, offset, SEEK_SET)` or exit. -/
def lseek (d : Disk) (offset : ℤ) : Except Stop Disk := do
  let d ← d.call "File access error.\n"
  let s ← d.stream.lseek offset "File access error.\n"
  .ok { d with stream := s }

/-- `read` of a whole record or exit. -/
def readRecord (d : Disk) (r : ℕ) : Except Stop (List Byte × Disk) := do
  let d ← d.call "File read error.\n"
  let (buffer, s) ← d.stream.readRecord r
  .ok (buffer, { d with stream := s })

/-- `write` or exit. -/
def write (d : Disk) (buffer : List Byte) : Except Stop Disk := do
  let d ← d.call "File write error.\n"
  .ok { d with stream := d.stream.write buffer }

def print (d : Disk) (text : String) : Disk := { d with stream := d.stream.print text }

end Disk

def setFileStartSysIo (d : Disk) : Except Stop Disk := d.lseek 0

/-- `get_next_record_sys_io`, with at most `depth` calls of itself in one another. A
`read` that fails has not read a whole record. -/
def getNextRecordSysIo (r : ℕ) : ℕ → Disk → Except Stop (List Byte × Disk)
  | 0, _ => .error .endless
  | depth + 1, d => do
      let d ← d.call "Memory allocation error.\n"
      let d ← d.call "Reading error.\n"
      let buffer := d.stream.next r
      let d := { d with stream := d.stream.advance r }
      if buffer.length = 0 then do
        let d ← (d.print "End of records\n").lseek 0
        getNextRecordSysIo r depth (d.print "Start from the beggining\n")
      else if buffer.length ≠ r then d.stream.exit "Reading error.\n"
      else .ok (buffer, d)

/-- `swap_records_sys_io`: the position is asked for by a call of `lseek`, and the two
calls of `malloc` have one check. -/
def swapRecordsSysIo (r : ℕ) (a b : ℤ) (d : Disk) : Except Stop Disk := do
  let d ← d.call "File access error.\n"
  let currentFilePosition := d.stream.position
  let aStartIndex := mulInt a r
  let bStartIndex := mulInt b r
  let d ← d.call "Memory allocation error.\n"
  let d ← d.lseek aStartIndex
  let (aBuffer, d) ← d.readRecord r
  let d ← d.lseek bStartIndex
  let (tmpBuffer, d) ← d.readRecord r
  let d ← d.lseek aStartIndex
  let d ← d.write tmpBuffer
  let d ← d.lseek bStartIndex
  let d ← d.write aBuffer
  d.lseek currentFilePosition

/-- The loop over `counter` of `perform_bubble_sort`. -/
def compareLoop (r depth : ℕ) : ℕ → ℕ → List Byte → Disk → Except Stop Disk
  | 0, _, _, d => .ok d
  | turns + 1, counter, previousRecord, d => do
      let (currentRecord, d) ← getNextRecordSysIo r depth d
      match currentRecord.head?, previousRecord.head? with
      | some current, some previous =>
          if current < previous then do
            let d ← swapRecordsSysIo r ((counter : ℤ) - 1) counter d
            compareLoop r depth turns (counter + 1) previousRecord d
          else compareLoop r depth turns (counter + 1) currentRecord d
      | _, _ => .error .undefined

/-- The loop over `last_unsorted_element_index`. -/
def sortLoop (r depth : ℕ) : ℕ → Disk → Except Stop Disk
  | 0, d => .ok d
  | last + 1, d => do
      let d ← setFileStartSysIo d
      let (previousRecord, d) ← getNextRecordSysIo r depth d
      let d ← compareLoop r depth (last + 1) 1 previousRecord d
      sortLoop r depth last d

/-- `perform_bubble_sort` with the functions for `SYS` -/
def performBubbleSort (r depth numRecords : ℕ) (d : Disk) : Except Stop Disk :=
  if numRecords ≤ 1 then .ok d else sortLoop r depth (numRecords - 1) d

/-! ## §2  Without a failure -/

section Calm

def calm (s : Stream) : Disk := { stream := s, fails := [] }

variable {r : ℕ} {s : Stream}

theorem ok_bind {α β : Type} (a : α) (f : α → Except Stop β) : (.ok a >>= f) = f a := rfl

theorem call_calm (s : Stream) (text : String) : (calm s).call text = .ok (calm s) := rfl

theorem lseek_calm (s : Stream) (o : ℤ) :
    (calm s).lseek o = calm <$> s.lseek o "File access error.\n" := by
  rw [Disk.lseek, call_calm]
  show (s.lseek o _ >>= fun t => .ok (calm t)) = _
  cases s.lseek o "File access error.\n" <;> rfl

theorem readRecord_calm (s : Stream) (r : ℕ) :
    (calm s).readRecord r = Prod.map id calm <$> s.readRecord r := by
  rw [Disk.readRecord, call_calm]
  show (s.readRecord r >>= fun x => .ok (x.1, calm x.2)) = _
  cases s.readRecord r <;> rfl

theorem write_calm (s : Stream) (buffer : List Byte) :
    (calm s).write buffer = .ok (calm (s.write buffer)) := rfl

theorem swapRecordsSysIo_calm (a b : ℤ) (s : Stream) :
    swapRecordsSysIo r a b (calm s) = calm <$> RecordSort.swapRecordsSysIo r a b s := by
  unfold swapRecordsSysIo RecordSort.swapRecordsSysIo
  simp only [call_calm, ok_bind, lseek_calm, readRecord_calm, write_calm, map_bind,
    bind_map_left, Prod.map_fst, Prod.map_snd, id_eq]
  rfl

theorem getNextRecordSysIo_calm (depth : ℕ) (s : Stream) :
    getNextRecordSysIo r depth (calm s) =
      Prod.map id calm <$> RecordSort.getNextRecordSysIo r depth s := by
  induction depth generalizing s with
  | zero => rfl
  | succ depth ih =>
      rw [getNextRecordSysIo, RecordSort.getNextRecordSysIo]
      simp only [call_calm, ok_bind]
      have hstream : (calm s).stream.next r = s.next r := rfl
      by_cases hempty : (s.next r).length = 0
      · rw [if_pos (hstream ▸ hempty), if_pos hempty]
        show ((calm ((s.advance r).print _)).lseek 0 >>= _) = _
        rw [lseek_calm, map_bind, bind_map_left]
        exact congrArg _ (funext fun t => ih (t.print _))
      · rw [if_neg (hstream ▸ hempty), if_neg hempty]
        by_cases hshort : (s.next r).length ≠ r
        · rw [if_pos (hstream ▸ hshort), if_pos hshort]
          rfl
        · rw [if_neg (hstream ▸ hshort), if_neg hshort]
          rfl

theorem compareLoop_calm (depth turns counter : ℕ) (previous : List Byte) (s : Stream) :
    compareLoop r depth turns counter previous (calm s) =
      calm <$> RecordSort.compareLoop (sysIo r depth) turns counter previous s := by
  induction turns generalizing counter previous s with
  | zero => rfl
  | succ turns ih =>
      rw [compareLoop, RecordSort.compareLoop, getNextRecordSysIo_calm, map_bind, bind_map_left]
      refine congrArg _ (funext fun x => ?_)
      simp only [Prod.map_fst, Prod.map_snd, id_eq]
      cases x.1.head? with
      | none => rfl
      | some current =>
          cases previous.head? with
          | none => rfl
          | some p =>
              dsimp only
              split_ifs
              · rw [swapRecordsSysIo_calm, map_bind, bind_map_left]
                exact congrArg _ (funext fun t => ih _ _ t)
              · exact ih _ _ _

theorem sortLoop_calm (depth n : ℕ) (s : Stream) :
    sortLoop r depth n (calm s) = calm <$> RecordSort.sortLoop (sysIo r depth) n s := by
  induction n generalizing s with
  | zero => rfl
  | succ n ih =>
      rw [sortLoop, RecordSort.sortLoop, setFileStartSysIo, lseek_calm, map_bind, bind_map_left]
      refine congrArg _ (funext fun t => ?_)
      rw [getNextRecordSysIo_calm, map_bind, bind_map_left]
      refine congrArg _ (funext fun x => ?_)
      show (compareLoop r depth (n + 1) 1 x.1 (calm x.2) >>= _) = _
      rw [compareLoop_calm, map_bind, bind_map_left]
      exact congrArg _ (funext fun u => ih u)

/-- **Without a failure this is the sort with the functions for `SYS`.** -/
theorem performBubbleSort_calm (depth numRecords : ℕ) (s : Stream) :
    performBubbleSort r depth numRecords (calm s) =
      calm <$> RecordSort.performBubbleSort (sysIo r depth) numRecords s := by
  unfold performBubbleSort RecordSort.performBubbleSort
  split_ifs
  · rfl
  · exact sortLoop_calm depth _ s

end Calm

/-! ## §3  What a failure leaves behind -/

/-- The program has ended with a message, and its file holds all the records, or it holds
a record of a smaller key twice and the one before it is lost: a greatest one of those up
to there. -/
inductive Leaves (recs : List (List Byte)) : Stop → Prop
  | intact (text : String) {recs' : List (List Byte)} :
      recs'.Perm recs → Leaves recs (.exit text recs'.flatten)
  | oneLost (text : String) {pre post : List (List Byte)} {x y : List Byte} :
      (pre ++ x :: y :: post).Perm recs → firstByte y < firstByte x →
      (∀ z ∈ pre, firstByte z ≤ firstByte x) →
      Leaves recs (.exit text (pre ++ y :: y :: post).flatten)

section Calls

variable {E : Stop → Prop} {d : Disk} {r k : ℕ} {recs : List (List Byte)}

/-- The program may end with these records in its file. -/
abbrev Allows (E : Stop → Prop) (recs : List (List Byte)) : Prop :=
  ∀ text, E (.exit text recs.flatten)

theorem call_ends (h : AtRecord r recs k d.stream) (hE : Allows E recs) (text : String) :
    Ends E (d.call text) fun d' => AtRecord r recs k d'.stream := by
  unfold Disk.call
  split_ifs
  · rw [Stream.exit, h.bytes]
    exact hE text
  · exact h

theorem lseek_ends (h : AtRecord r recs k d.stream) (hE : Allows E recs) (j : ℕ) :
    Ends E (d.lseek (j * r : ℕ)) fun d' => AtRecord r recs j d'.stream := by
  refine (call_ends h hE _).bind fun d' h' => ?_
  rw [Stream.lseek_ok (Int.natCast_nonneg _)]
  exact ⟨h'.bytes, Int.toNat_natCast _, h'.eof⟩

theorem readRecord_ends (h : AtRecord r recs k d.stream) (hE : Allows E recs)
    (hu : Uniform r recs) (hk : k < recs.length) :
    Ends E (d.readRecord r) fun x => x.1 = recs[k] ∧ AtRecord r recs (k + 1) x.2.stream := by
  refine (call_ends h hE _).bind fun d' h' => ?_
  rw [Stream.readRecord_ok (h'.fits hu hk), h'.next hu hk]
  exact ⟨rfl, h'.advance⟩

theorem write_ends (h : AtRecord r recs k d.stream) (hE : Allows E recs) (hu : Uniform r recs)
    (hk : k < recs.length) {buffer : List Byte} (hbuffer : buffer.length = r) :
    Ends E (d.write buffer) fun d' => AtRecord r (recs.set k buffer) (k + 1) d'.stream := by
  refine (call_ends h hE _).bind fun d' h' => ?_
  have hfits := h'.fits hu hk
  refine ⟨?_, ?_, ?_⟩
  · show (d'.stream.write buffer).bytes = _
    rw [Stream.write_inside (Nat.le_of_add_right_le hfits), h'.position, h'.bytes]
    exact hu.store hk hbuffer
  · show d'.stream.position + buffer.length = _
    rw [h'.position, hbuffer, Nat.succ_mul]
  · exact h'.eof

end Calls

/-! ## §4  An exchange -/

section Exchange

variable {E : Stop → Prop} {d : Disk} {r k : ℕ} {recs : List (List Byte)}

theorem lseek_record_ends {j : ℕ} (h : AtRecord r recs k d.stream) (hE : Allows E recs)
    (hj : j * r < 2 ^ 31) :
    Ends E (d.lseek (mulInt j r)) fun d' => AtRecord r recs j d'.stream := by
  rw [mulInt_natCast hj]
  exact lseek_ends h hE j

/-- **An exchange that fails** leaves the file as it was, with the second record written
over the first one, or with both exchanged. -/
theorem swapRecordsSysIo_ends {a b : ℕ} (h : AtRecord r recs k d.stream) (hu : Uniform r recs)
    (hrange : recs.length * r < 2 ^ 31) (ha : a < recs.length) (hb : b < recs.length)
    (hstart : Allows E recs) (hhalf : Allows E (recs.set a recs[b]))
    (hend : Allows E ((recs.set a recs[b]).set b recs[a])) :
    Ends E (swapRecordsSysIo r a b d) fun d' =>
      AtRecord r ((recs.set a recs[b]).set b recs[a]) k d'.stream := by
  have hplace := place_lt hrange ha
  have hplace' := place_lt hrange hb
  have hra : recs[a].length = r := hu _ (List.getElem_mem ha)
  have hrb : recs[b].length = r := hu _ (List.getElem_mem hb)
  have hu' : Uniform r (recs.set a recs[b]) := hu.set hrb a
  have hb' : b < (recs.set a recs[b]).length := by rwa [List.length_set]
  refine (call_ends h hstart _).bind fun d₁ h₁ => ?_
  refine (call_ends h₁ hstart _).bind fun d₂ h₂ => ?_
  refine (lseek_record_ends h₂ hstart hplace).bind fun d₃ h₃ => ?_
  refine (readRecord_ends h₃ hstart hu ha).bind ?_
  rintro ⟨aBuffer, d₄⟩ ⟨rfl, h₄⟩
  refine (lseek_record_ends h₄ hstart hplace').bind fun d₅ h₅ => ?_
  refine (readRecord_ends h₅ hstart hu hb).bind ?_
  rintro ⟨tmpBuffer, d₆⟩ ⟨rfl, h₆⟩
  refine (lseek_record_ends h₆ hstart hplace).bind fun d₇ h₇ => ?_
  refine (write_ends h₇ hstart hu ha hrb).bind fun d₈ h₈ => ?_
  refine (lseek_record_ends h₈ hhalf hplace').bind fun d₉ h₉ => ?_
  refine (write_ends h₉ hhalf hu' hb' hra).bind fun d₁₀ h₁₀ => ?_
  rw [h₁.position]
  exact lseek_ends h₁₀ hend k

end Exchange

/-! ## §5  The sort -/

section Passes

variable {d : Disk} {r k depth : ℕ} {recs recs₀ : List (List Byte)}

theorem getNextRecordSysIo_ends {E : Stop → Prop} (hr : 1 ≤ r) (h : AtRecord r recs k d.stream)
    (hE : Allows E recs) (hu : Uniform r recs) (hk : k < recs.length) :
    Ends E (getNextRecordSysIo r (depth + 1) d) fun x =>
      x.1 = recs[k] ∧ AtRecord r recs (k + 1) x.2.stream := by
  rw [getNextRecordSysIo]
  refine (call_ends h hE _).bind fun d₁ h₁ => ?_
  refine (call_ends h₁ hE _).bind fun d₂ h₂ => ?_
  have hnext := h₂.next hu hk
  have hlength : (d₂.stream.next r).length = r := Stream.length_next (h₂.fits hu hk)
  rw [if_neg (hlength.trans_ne (Nat.one_le_iff_ne_zero.mp hr)), if_neg (not_not.mpr hlength),
    Stream.advance_eq (h₂.fits hu hk)]
  exact ⟨hnext, h₂.advance⟩

/-- What the loop over `counter` can leave behind: the record in memory is a greatest one
of those before it, and only it is ever lost. -/
theorem compareLoop_ends (depth : ℕ) (hr : 1 ≤ r) (ys pre post : List (List Byte)) (x : List Byte)
    (hperm : (pre ++ x :: (ys ++ post)).Perm recs₀) (hu : Uniform r recs₀)
    (hrange : recs₀.length * r < 2 ^ 31) (hmax : ∀ z ∈ pre, firstByte z ≤ firstByte x)
    (h : AtRecord r (pre ++ x :: (ys ++ post)) (pre.length + 1) d.stream) :
    Ends (Leaves recs₀) (compareLoop r (depth + 1) ys.length (pre.length + 1) x d) fun d' =>
      ∃ k, AtRecord r (pre ++ (carry firstByte x ys ++ post)) k d'.stream := by
  induction ys generalizing pre x d with
  | nil => exact ⟨pre.length + 1, h⟩
  | cons y ys ih =>
      have hu' := hu.perm hperm
      have hintact : Allows (Leaves recs₀) (pre ++ x :: (y :: ys ++ post)) :=
        fun text => .intact text hperm
      have hk : pre.length + 1 < (pre ++ x :: (y :: ys ++ post)).length := by
        simp
      have hget : (pre ++ x :: (y :: ys ++ post))[pre.length + 1] = y := by
        rw [List.getElem_append_right (Nat.le_succ _)]
        simp
      obtain ⟨cy, hcy, hy⟩ := exists_head hr (hu' y (by simp))
      obtain ⟨cx, hcx, hx⟩ := exists_head hr (hu' x (by simp))
      rw [List.length_cons, compareLoop, carry, hy, hx]
      refine (getNextRecordSysIo_ends hr h hintact hu' hk).bind ?_
      rintro ⟨current, d₁⟩ ⟨heq, h₁⟩
      obtain rfl : current = y := heq.trans hget
      simp only [hcy, hcx]
      by_cases hlt : cy < cx
      · rw [if_pos hlt, if_pos (UInt8.lt_iff_toNat_lt.mp hlt), Int.natCast_succ, Int.add_sub_cancel]
        have hfirst : (pre ++ x :: (current :: ys ++ post))[pre.length] = x := by
          rw [List.getElem_append_right (Nat.le_refl _)]
          simp
        have hhalf : (pre ++ x :: (current :: ys ++ post)).set pre.length current =
            pre ++ current :: (current :: ys ++ post) := by
          rw [List.set_append_right _ _ (Nat.le_refl _), Nat.sub_self]
          rfl
        have hswap := set_set_neighbours pre (ys ++ post) x current
        have hperm' : (pre ++ current :: x :: (ys ++ post)).Perm recs₀ :=
          ((List.Perm.swap x current _).append_left pre).trans hperm
        refine (swapRecordsSysIo_ends h₁ hu' (hperm.length_eq ▸ hrange) (Nat.lt_of_succ_lt hk) hk
          hintact ?_ ?_).bind fun d₂ h₂ => ?_
        · -- the record in memory is the one that is lost
          rw [hget, hhalf]
          exact fun text => .oneLost text hperm (by rwa [hx, hy, ← UInt8.lt_iff_toNat_lt]) hmax
        · rw [hget, hfirst, List.cons_append, hswap]
          exact fun text => .intact text hperm'
        · rw [hget, hfirst, List.cons_append, hswap, List.append_cons] at h₂
          rw [List.append_cons] at hperm'
          have hnext := ih (pre ++ [current]) x hperm' ?_ (by simpa using h₂)
          · rw [List.length_append, List.length_singleton] at hnext
            simpa using hnext
          · intro z hz
            rcases List.mem_append.mp hz with hz | hz
            · exact hmax z hz
            · rw [List.mem_singleton.mp hz, hx, hy]
              exact (UInt8.lt_iff_toNat_lt.mp hlt).le
      · rw [if_neg hlt, if_neg fun h => hlt (UInt8.lt_iff_toNat_lt.mpr h)]
        have hle : firstByte x ≤ firstByte current := by
          rw [hx, hy]
          exact Nat.not_lt.mp fun h => hlt (UInt8.lt_iff_toNat_lt.mpr h)
        rw [List.cons_append, List.append_cons] at hperm h₁
        have hnext := ih (pre ++ [x]) current hperm ?_ (by simpa using h₁)
        · rw [List.length_append, List.length_singleton] at hnext
          simpa using hnext
        · intro z hz
          rcases List.mem_append.mp hz with hz | hz
          · exact (hmax z hz).trans hle
          · rw [List.mem_singleton.mp hz]
            exact hle

theorem sortLoop_ends (hr : 1 ≤ r) (n : ℕ) (hperm : recs.Perm recs₀) (hu : Uniform r recs₀)
    (hrange : recs₀.length * r < 2 ^ 31) (hn : n < recs.length)
    (h : AtRecord r recs k d.stream) :
    Ends (Leaves recs₀) (sortLoop r (depth + 1) n d) fun d' =>
      ∃ k, AtRecord r (passes firstByte n recs) k d'.stream := by
  induction n generalizing recs k d with
  | zero => exact ⟨k, h⟩
  | succ n ih =>
      have hintact : Allows (Leaves recs₀) recs := fun text => .intact text hperm
      obtain ⟨x, xs, rfl⟩ := List.exists_cons_of_length_pos (Nat.zero_lt_of_lt hn)
      have hsplit : x :: xs = [] ++ x :: (xs.take (n + 1) ++ xs.drop (n + 1)) := by
        rw [List.take_append_drop, List.nil_append]
      have hlen : (xs.take (n + 1)).length = n + 1 := by
        rw [List.length_take]
        exact Nat.min_eq_left (Nat.lt_succ_iff.mp hn)
      have hpass : (carry firstByte x (xs.take (n + 1)) ++ xs.drop (n + 1)).Perm (x :: xs) := by
        have := (carry_perm firstByte x (xs.take (n + 1))).append_right (xs.drop (n + 1))
        rwa [List.cons_append, List.take_append_drop] at this
      have hstart := lseek_ends h hintact 0
      rw [Nat.zero_mul] at hstart
      rw [sortLoop]
      refine hstart.bind fun d₀ h₀ => ?_
      refine (getNextRecordSysIo_ends hr h₀ hintact (hu.perm hperm) (Nat.zero_lt_of_lt hn)).bind ?_
      rintro ⟨previous, d₁⟩ ⟨heq, h₁⟩
      obtain rfl : previous = x := heq
      have hloop := compareLoop_ends depth hr (xs.take (n + 1)) [] (xs.drop (n + 1))
        previous (hsplit ▸ hperm) hu hrange (fun _ hz => absurd hz List.not_mem_nil) (hsplit ▸ h₁)
      rw [hlen, List.length_nil, Nat.zero_add] at hloop
      refine hloop.bind ?_
      rintro d₂ ⟨k₂, h₂⟩
      exact ih (hpass.trans hperm) (hpass.length_eq ▸ Nat.lt_of_succ_lt hn) h₂

end Passes

/-- **A sort that fails loses at most one record**: whichever calls fail, the sort returns
and the file is sorted, or the program ends with a message and the file holds all the
records, or all but one greatest of those it has passed. -/
theorem failed_sort_keeps_all_but_one {r : ℕ} (hr : 1 ≤ r) (depth : ℕ) {recs : List (List Byte)}
    (hu : Uniform r recs) (hrange : recs.length * r < 2 ^ 31) (fails : List Bool) :
    (∀ d, performBubbleSort r (depth + 1) recs.length ⟨opened recs.flatten, fails⟩ = .ok d →
      ∃ sorted, StableSort firstByte recs sorted ∧ d.stream.bytes = sorted.flatten) ∧
    ∀ stop, performBubbleSort r (depth + 1) recs.length ⟨opened recs.flatten, fails⟩ =
      .error stop → Leaves recs stop := by
  have hopened : AtRecord r recs 0 (opened recs.flatten) := ⟨rfl, (Nat.zero_mul r).symm, rfl⟩
  have hends : Ends (Leaves recs)
      (performBubbleSort r (depth + 1) recs.length ⟨opened recs.flatten, fails⟩)
      fun d => d.stream.bytes = (passes firstByte (recs.length - 1) recs).flatten := by
    unfold performBubbleSort
    split_ifs with hshort
    · rw [Nat.sub_eq_zero_of_le hshort]
      exact rfl
    · have hn : recs.length - 1 < recs.length := by omega
      refine (sortLoop_ends hr _ (.refl recs) hu hrange hn hopened).mono ?_
      rintro d ⟨_, h⟩
      exact h.bytes
  refine ⟨fun d hd => ⟨_, passes_stableSort recs, hends.of_ok hd⟩, fun stop hstop => ?_⟩
  exact hends.of_error hstop

/-- The second write fails: the first record is lost. -/
theorem failed_sort_keeps_all_but_one_second :
    performBubbleSort 2 1 2 ⟨opened [3, 1, 1, 7], List.replicate 14 false ++ [true]⟩ =
      .error (.exit "File write error.\n" [1, 7, 1, 7]) ∧
    Leaves [[3, 1], [1, 7]] (.exit "File write error.\n" [1, 7, 1, 7]) := by
  have hstop : performBubbleSort 2 1 2 ⟨opened [3, 1, 1, 7], List.replicate 14 false ++ [true]⟩ =
      .error (.exit "File write error.\n" [1, 7, 1, 7]) := rfl
  refine ⟨hstop, (failed_sort_keeps_all_but_one (by decide) 0 ?_ (by decide) _).2 _ hstop⟩
  unfold Uniform
  decide

end Sysopy.RecordSort.Failures
