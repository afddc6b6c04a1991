import Sysopy.RecordSort.Sort

/-!
# The two sets of functions side by side

The same calls are made to the functions for `SYS` and to those for `LIB`. As long as
every `get_next_record` finds a record they do the same. At the end of the file the
first kind goes back to the first record, while the second takes the missing record for
an error and ends the program: `feof` is asked only after a record has been read.

## Sections

* §1 sequences of calls
* §2 one call
* §3 all calls
-/

namespace Sysopy.RecordSort

open Sysopy.Foundation

/-! ## §1  Sequences of calls -/

inductive Call
  | setFileStart
  | getNextRecord
  | swapRecords (a b : ℕ)

/-- The indices are those of records. -/
def Call.Within (n : ℕ) : Call → Prop
  | .swapRecords a b => a < n ∧ b < n
  | _ => True

def Call.run (io : Backend) (s : Stream) : Call → List (List Byte) × Except Stop Stream
  | .setFileStart => ([], io.setFileStart s)
  | .getNextRecord =>
      match io.getNextRecord s with
      | .ok (x, s) => ([x], .ok s)
      | .error e => ([], .error e)
  | .swapRecords a b => ([], io.swapRecords a b s)

theorem Call.run_of_record {io : Backend} {s t : Stream} {x : List Byte}
    (h : io.getNextRecord s = .ok (x, t)) : Call.run io s .getNextRecord = ([x], .ok t) := by
  rw [Call.run, h]

theorem Call.run_of_stop {io : Backend} {s : Stream} {e : Stop}
    (h : io.getNextRecord s = .error e) : Call.run io s .getNextRecord = ([], .error e) := by
  rw [Call.run, h]

def runCalls (io : Backend) : List Call → Stream → List (List Byte) × Except Stop Stream
  | [], s => ([], .ok s)
  | c :: cs, s =>
      match c.run io s with
      | (xs, .ok s) => (xs ++ (runCalls io cs s).1, (runCalls io cs s).2)
      | (xs, .error e) => (xs, .error e)

/-- The same records, the same file and the same cursor. -/
def Same (x y : List (List Byte) × Except Stop Stream) : Prop :=
  x.1 = y.1 ∧
    match x.2, y.2 with
    | .ok s, .ok t => s.bytes = t.bytes ∧ s.position = t.position
    | .error (.exit _ bytes), .error (.exit _ bytes') => bytes = bytes'
    | _, _ => False

/-- A call after the last record returns the first one. -/
def Wraps (io : Backend) (r : ℕ) (bytes : List Byte) (calls : List Call) : Prop :=
  ∀ pre post s, calls = pre ++ .getNextRecord :: post →
    (runCalls io pre (opened bytes)).2 = .ok s → s.position = s.bytes.length →
    ∃ t, io.getNextRecord s = .ok (s.bytes.take r, t)

structure Interchangeable (r depth : ℕ) (bytes : List Byte) (calls : List Call) : Prop where
  same : Same (runCalls (sysIo r depth) calls (opened bytes))
    (runCalls (stdIo r) calls (opened bytes))
  sysWraps : Wraps (sysIo r depth) r bytes calls
  stdWraps : Wraps (stdIo r) r bytes calls

/-- Every `get_next_record` comes when less than `n` records have been read since the
start of the file, where `k` have been read so far. An exchange with a place that
overflows to before the file ends the program. -/
def StaysInside (n r : ℕ) : ℕ → List Call → Prop
  | _, [] => True
  | _, .setFileStart :: cs => StaysInside n r 0 cs
  | k, .getNextRecord :: cs => k < n ∧ StaysInside n r (k + 1) cs
  | k, .swapRecords a b :: cs => 0 ≤ mulInt a r ∧ 0 ≤ mulInt b r → StaysInside n r k cs

variable {n r depth k : ℕ} {s t : Stream} {c : Call} {cs : List Call}

/-! ## §2  One call -/

/-- The two files are alike and stand behind `k` records. -/
structure Paired (n r k : ℕ) (s t : Stream) : Prop where
  bytes : t.bytes = s.bytes
  length : s.bytes.length = n * r
  sys : s.position = k * r
  std : t.position = k * r
  eof : t.eof = false
  within : k ≤ n

theorem mulInt_toNat_le (a r : ℕ) : (mulInt a r).toNat ≤ a * r := by
  rw [mulInt, ← Int.natCast_mul, Int.bmod_def]
  generalize a * r = m
  split_ifs <;> omega

/-- The place of a record does not overflow to behind the file. -/
theorem mulInt_fits {a : ℕ} (ha : a < n) : (mulInt a r).toNat + r ≤ n * r :=
  calc
    (mulInt a r).toNat + r ≤ a * r + r := Nat.add_le_add_right (mulInt_toNat_le a r) r
    _ = (a + 1) * r := (Nat.succ_mul a r).symm
    _ ≤ n * r := Nat.mul_le_mul_right r ha

/-- How a call of one kind goes beside the call of the other kind. -/
inductive Beside (n r depth k : ℕ) (s t : Stream) (c : Call) : Prop
  | both {xs : List (List Byte)} {s' t' : Stream} (k' : ℕ)
      (sys : c.run (sysIo r depth) s = (xs, .ok s')) (std : c.run (stdIo r) t = (xs, .ok t'))
      (paired : Paired n r k' s' t')
      (stays : ∀ cs, StaysInside n r k (c :: cs) ↔ StaysInside n r k' cs)
  | neither {x y : String}
      (sys : c.run (sysIo r depth) s = ([], .error (.exit x s.bytes)))
      (std : c.run (stdIo r) t = ([], .error (.exit y t.bytes)))
      (stays : ∀ cs, StaysInside n r k (c :: cs))
  | parted {x : List Byte} {s' : Stream} {y : String}
      (sys : c.run (sysIo r depth) s = ([x], .ok s'))
      (std : c.run (stdIo r) t = ([], .error (.exit y t.bytes)))
      (stays : ∀ cs, ¬StaysInside n r k (c :: cs))

theorem Paired.setFileStart (h : Paired n r k s t) :
    Beside n r depth k s t .setFileStart :=
  .both 0 (congrArg (Prod.mk []) (setFileStartSysIo_eq s))
    (congrArg (Prod.mk []) (setFileStartStdIo_eq t))
    ⟨h.bytes, h.length, (Nat.zero_mul r).symm, (Nat.zero_mul r).symm, rfl, Nat.zero_le n⟩
    fun _ => Iff.rfl

theorem Paired.next (h : Paired n r k s t) : t.next r = s.next r := by
  rw [Stream.next, Stream.next, h.bytes, h.sys, h.std]

/-- **Only a `get_next_record` behind the last record tells the functions apart.** -/
theorem Paired.getNextRecord (hr : 1 ≤ r) (hn : 1 ≤ n) (h : Paired n r k s t) :
    Beside n r (depth + 2) k s t .getNextRecord := by
  rcases Nat.lt_or_eq_of_le h.within with hlt | rfl
  · have hfit : k * r + r ≤ n * r := by
      rw [← Nat.succ_mul]
      exact Nat.mul_le_mul_right r hlt
    have hsys := getNextRecordSysIo_ok (s := s) hr (by rwa [h.sys, h.length]) (depth + 1)
    have hstd := getNextRecordStdIo_ok (r := r) (s := t) (by rwa [h.std, h.bytes, h.length]) h.eof
    rw [h.next] at hstd
    refine .both (k + 1) (Call.run_of_record hsys) (Call.run_of_record hstd)
      ⟨h.bytes, h.length, ?_, ?_, h.eof, hlt⟩ fun cs => and_iff_right hlt
    · show s.position + r = _
      rw [h.sys, Nat.succ_mul]
    · show t.position + r = _
      rw [h.std, Nat.succ_mul]
  · -- the first record is there to be read again
    have hfit : 0 + r ≤ s.bytes.length := by
      rw [Nat.zero_add, h.length]
      exact Nat.le_mul_of_pos_left r hn
    have hsys := getNextRecordSysIo_end (r := r) (s := s) (by rw [h.sys, h.length]) (depth + 1)
    rw [getNextRecordSysIo_ok hr hfit depth] at hsys
    have hstd := getNextRecordStdIo_end hr (s := t) (by rw [h.std, h.bytes, h.length])
    exact .parted (Call.run_of_record hsys) (Call.run_of_stop hstd) fun cs hcs =>
      (Nat.lt_irrefl k) hcs.1

theorem Paired.swapRecords {a b : ℕ} (ha : a < n) (hb : b < n) (h : Paired n r k s t) :
    Beside n r depth k s t (.swapRecords a b) := by
  have hafit : (mulInt a r).toNat + r ≤ s.bytes.length := h.length ▸ mulInt_fits ha
  have hbfit : (mulInt b r).toNat + r ≤ s.bytes.length := h.length ▸ mulInt_fits hb
  by_cases hpos : 0 ≤ mulInt a r ∧ 0 ≤ mulInt b r
  · have hsys := swapRecordsSysIo_ok hpos.1 hpos.2 hafit hbfit
    have hstd := swapRecordsStdIo_ok hpos.1 hpos.2 (h.bytes ▸ hafit) (h.bytes ▸ hbfit)
    refine .both k (congrArg (Prod.mk []) hsys) (congrArg (Prod.mk []) hstd)
      ⟨?_, ?_, h.sys, h.std, rfl, h.within⟩ fun cs => ?_
    · show exchange _ _ _ t.bytes = exchange _ _ _ s.bytes
      rw [h.bytes]
    · show (exchange _ _ _ s.bytes).length = _
      rw [length_exchange hafit hbfit, h.length]
    · exact forall_prop_of_true hpos
  · have hneg : mulInt a r < 0 ∨ mulInt b r < 0 := by omega
    have hsys := swapRecordsSysIo_exit hneg fun _ => hafit
    obtain ⟨text, hstd⟩ := swapRecordsStdIo_exit (s := t) hneg fun _ => h.bytes ▸ hafit
    exact .neither (congrArg (Prod.mk []) hsys) (congrArg (Prod.mk []) hstd)
      fun cs hboth => absurd hboth hpos

theorem Paired.beside (depth : ℕ) (hr : 1 ≤ r) (hn : 1 ≤ n) (hc : c.Within n)
    (h : Paired n r k s t) :
    Beside n r (depth + 2) k s t c := by
  cases c with
  | setFileStart => exact h.setFileStart
  | getNextRecord => exact h.getNextRecord hr hn
  | swapRecords a b => exact h.swapRecords hc.1 hc.2

/-! ## §3  All calls -/

theorem Paired.same_iff (hr : 1 ≤ r) (hn : 1 ≤ n) (hcs : ∀ c ∈ cs, c.Within n)
    (h : Paired n r k s t) :
    Same (runCalls (sysIo r (depth + 2)) cs s) (runCalls (stdIo r) cs t) ↔
      StaysInside n r k cs := by
  induction cs generalizing k s t with
  | nil => exact iff_of_true ⟨rfl, h.bytes.symm, h.sys.trans h.std.symm⟩ trivial
  | cons c cs ih =>
      have hrest : ∀ c ∈ cs, c.Within n := fun c hc => hcs c (List.mem_cons_of_mem _ hc)
      cases h.beside depth hr hn (hcs c List.mem_cons_self) with
      | both k sys std paired stays =>
          rw [stays, ← ih hrest paired, runCalls, runCalls, sys, std]
          show _ ++ _ = _ ++ _ ∧ _ ↔ _ ∧ _
          rw [List.append_cancel_left_eq]
      | neither sys std stays =>
          refine iff_of_true ?_ (stays cs)
          rw [runCalls, runCalls, sys, std]
          exact ⟨rfl, h.bytes.symm⟩
      | parted sys std stays =>
          refine iff_of_false (fun hsame => ?_) (stays cs)
          rw [runCalls, runCalls, sys, std] at hsame
          exact absurd hsame.1 (List.cons_ne_nil _ _)

/-- Inside the file no `get_next_record` comes behind the last record. -/
theorem Paired.before_end (depth : ℕ) (hr : 1 ≤ r) (hn : 1 ≤ n) {post : List Call}
    (hcs : ∀ c ∈ cs, c.Within n) (h : Paired n r k s t)
    (hin : StaysInside n r k (cs ++ .getNextRecord :: post)) :
    (∀ s', (runCalls (sysIo r (depth + 2)) cs s).2 = .ok s' → s'.position < s'.bytes.length) ∧
    ∀ t', (runCalls (stdIo r) cs t).2 = .ok t' → t'.position < t'.bytes.length := by
  induction cs generalizing k s t with
  | nil =>
      have hlt : k * r < n * r := Nat.mul_lt_mul_of_pos_right hin.1 hr
      refine ⟨fun s' heq => ?_, fun t' heq => ?_⟩
      · obtain rfl := Except.ok.inj heq
        rwa [h.sys, h.length]
      · obtain rfl := Except.ok.inj heq
        rwa [h.std, h.bytes, h.length]
  | cons c cs ih =>
      have hrest : ∀ c ∈ cs, c.Within n := fun c hc => hcs c (List.mem_cons_of_mem _ hc)
      cases h.beside depth hr hn (hcs c List.mem_cons_self) with
      | both k sys std paired stays =>
          rw [runCalls, runCalls, sys, std]
          exact ih hrest paired ((stays _).mp hin)
      | neither sys std _ =>
          rw [runCalls, runCalls, sys, std]
          exact ⟨nofun, nofun⟩
      | parted _ _ stays => exact absurd hin (stays _)

/-- **The functions are interchangeable exactly inside the file**: when no
`get_next_record` comes after the last record, they return the same records and leave
the same file and cursor; else those for `LIB` end the program where those for `SYS` go
back to the first record. -/
theorem interchangeable_iff_stays_inside (hr : 1 ≤ r) (hn : 1 ≤ n) (depth : ℕ)
    {bytes : List Byte} (hbytes : bytes.length = n * r) {calls : List Call}
    (hcalls : ∀ c ∈ calls, c.Within n) :
    Interchangeable r (depth + 2) bytes calls ↔ StaysInside n r 0 calls := by
  have hstart : Paired n r 0 (opened bytes) (opened bytes) :=
    ⟨rfl, hbytes, (Nat.zero_mul r).symm, (Nat.zero_mul r).symm, rfl, Nat.zero_le n⟩
  refine ⟨fun h => (hstart.same_iff hr hn hcalls).mp h.same, fun h => ?_⟩
  have hend {pre post : List Call} (heq : calls = pre ++ .getNextRecord :: post) :=
    hstart.before_end depth hr hn (fun c hc => hcalls c (heq ▸ List.mem_append_left _ hc))
      (heq ▸ h : StaysInside n r 0 (pre ++ .getNextRecord :: post))
  exact
    { same := (hstart.same_iff hr hn hcalls).mpr h
      sysWraps := fun pre post s heq hs hpos => absurd hpos ((hend heq).1 s hs).ne
      stdWraps := fun pre post s heq hs hpos => absurd hpos ((hend heq).2 s hs).ne }

theorem interchangeable_iff_stays_inside_two :
    Interchangeable 1 2 [7, 9] [.getNextRecord, .swapRecords 0 1, .getNextRecord] ↔
      StaysInside 2 1 0 [.getNextRecord, .swapRecords 0 1, .getNextRecord] :=
  interchangeable_iff_stays_inside (by decide) (by decide) 0 rfl (by simp [Call.Within])

/-- A file of one record is read twice. -/
theorem second_read_stops_stdio :
    ¬Interchangeable 1 2 [7] [.getNextRecord, .getNextRecord] := by
  intro h
  have hrecords : [[7], [7]] = [[(7 : Byte)]] := h.same.1
  exact absurd hrecords (by decide)

end Sysopy.RecordSort
