import Sysopy.NamedPipe.Reader

/-!
# The buffers of the reader

`extract_msg` copies up to a NUL and nothing else ends it, so it depends on a byte that no
writer sends: the buffer is zeroed behind every turn, but not in front of the first, and it
is one byte longer than 20 and the length of the text that `msg` has room for.

## Sections

* §1 chunks
* §2 the three copies
* §3 one turn
* §4 all turns
-/

namespace Sysopy.NamedPipe

open Sysopy.Foundation

/-! ## §1  Chunks -/

/-- What one `read` returns, whoever has written it. -/
structure Chunk where
  bytes : List Byte
  ne_nil : bytes ≠ []
  length_le : bytes.length ≤ pipeBuf

/-- A `read` that returns the chunk, and the turn of the loop at this hour. -/
def State.receive (s : State) (r : Chunk × List Byte) : State :=
  { s with pipe := r.1.bytes }.turn r.2

def opened (found : Found) : State := { (fifo found).init with pc := .reading }

def received (found : Found) (reads : List (Chunk × List Byte)) : State :=
  reads.foldl State.receive (opened found)

/-- There is a NUL behind the first 20 bytes and in front of the last one. -/
def Ends (bytes : List Byte) : Prop :=
  ∃ k, 20 ≤ k ∧ k < pipeBuf - 1 ∧ bytes[k]? = some 0

variable {msg out out' readBuf : List Byte} {i : ℕ} {p p' : Parts} {s : State}

/-! ## §2  The three copies -/

/-- A NUL that both buffers have room for ends the loop. -/
theorem copyString_of_zero (h : ∃ k, i + k < out.length ∧ msg[k]? = some 0) :
    ∃ out', copyString msg i out = some out' ∧ out'.length = out.length ∧ 0 ∈ out' := by
  induction msg generalizing i out with
  | nil =>
      obtain ⟨k, -, hk⟩ := h
      exact absurd hk (Option.some_ne_none 0).symm
  | cons b msg ih =>
      obtain ⟨k, hlt, hk⟩ := h
      have hi : i < out.length := Nat.lt_of_le_of_lt (Nat.le_add_right i k) hlt
      rw [copyString, if_pos hi]
      by_cases hb : b = 0
      · rw [if_pos hb, hb]
        exact ⟨_, rfl, List.length_set, List.mem_set hi 0⟩
      · rw [if_neg hb]
        cases k with
        | zero => exact absurd (Option.some.inj hk) hb
        | succ k =>
            have hrest : ∃ k, i + 1 + k < (out.set i b).length ∧ msg[k]? = some 0 :=
              ⟨k, by rw [List.length_set]; omega, hk⟩
            obtain ⟨out', heq, hlength, hmem⟩ := ih hrest
            exact ⟨out', heq, hlength.trans List.length_set, hmem⟩

/-- Nothing else ends it. -/
theorem zero_of_copyString (h : copyString msg i out = some out') :
    ∃ k, i + k < out.length ∧ msg[k]? = some 0 := by
  induction msg generalizing i out with
  | nil => exact absurd h (Option.some_ne_none out').symm
  | cons b msg ih =>
      rw [copyString, Option.ite_none_right_eq_some] at h
      obtain ⟨hi, h⟩ := h
      by_cases hb : b = 0
      · exact ⟨0, hi, congrArg some hb⟩
      · rw [if_neg hb] at h
        obtain ⟨k, hlt, hk⟩ := ih h
        rw [List.length_set] at hlt
        exact ⟨k + 1, by omega, hk⟩

/-- The places of a field are fixed, and its NUL is there before its bytes. -/
theorem copyField_of_length (start n : ℕ) (hmsg : start + n ≤ msg.length) (hout : n < out.length) :
    ∃ out', copyField start n msg out = some out' ∧ out'.length = out.length ∧ 0 ∈ out' := by
  have hfield : ((msg.drop start).take n).length = n := by
    rw [List.length_take, List.length_drop]
    omega
  refine ⟨store 0 ((msg.drop start).take n) (out.set n 0), if_pos ⟨hmsg, hout⟩, ?_, ?_⟩
  · rw [length_store (by rw [List.length_set]; omega), List.length_set]
  · have hstore : store 0 ((msg.drop start).take n)
        (out.set ((msg.drop start).take n).length 0) = _ := store_field (by omega)
    rw [hfield] at hstore
    rw [hstore]
    exact List.mem_append_right _ List.mem_cons_self

theorem exists_cString (h : 0 ∈ out) : ∃ t, cString 0 out = some t :=
  ⟨_, if_pos h⟩

/-! ## §3  One turn -/

theorem extract_of_ends (hp : p.Sized) (hlength : readBuf.length = pipeBuf) (h : Ends readBuf) :
    ∃ p', p.extract readBuf = some p' ∧ p'.Sized ∧ ∃ t, p'.strings = some t := by
  obtain ⟨k, hle, hlt, hk⟩ := h
  have hmsg : ∃ j, 0 + j < p.msg.length ∧ (readBuf.drop 20)[j]? = some 0 := by
    refine ⟨k - 20, ?_, ?_⟩
    · rw [hp.msg]
      omega
    · rw [List.getElem?_drop, Nat.add_sub_cancel' hle, hk]
  obtain ⟨msg', hmsg', hmsgLength, hmsgZero⟩ := copyString_of_zero hmsg
  obtain ⟨pid', hpid', hpidLength, hpidZero⟩ := copyField_of_length 0 6
    (show 0 + 6 ≤ readBuf.length by rw [hlength]; decide)
    (show 6 < p.pid.length by rw [hp.pid]; decide)
  obtain ⟨date', hdate', hdateLength, hdateZero⟩ := copyField_of_length 9 8
    (show 9 + 8 ≤ readBuf.length by rw [hlength]; decide)
    (show 8 < p.writeDate.length by rw [hp.writeDate]; decide)
  obtain ⟨pid, hpid⟩ := exists_cString hpidZero
  obtain ⟨date, hdate⟩ := exists_cString hdateZero
  obtain ⟨text, htext⟩ := exists_cString hmsgZero
  refine ⟨⟨pid', date', msg'⟩, ?_, ⟨?_, ?_, ?_⟩, ⟨(pid, date, text), ?_⟩⟩
  · simp only [Parts.extract, extractPid, extractWriteDate, extractMsg, hpid', hdate', hmsg',
      Option.bind_eq_bind, Option.bind_some]
  · exact hpidLength.trans hp.pid
  · exact hdateLength.trans hp.writeDate
  · exact hmsgLength.trans hp.msg
  · simp only [Parts.strings, hpid, hdate, htext, Option.bind_eq_bind, Option.bind_some]

theorem ends_of_extract (hp : p.Sized) (h : p.extract readBuf = some p') : Ends readBuf := by
  obtain ⟨pid', -, h⟩ := Option.bind_eq_some_iff.mp h
  obtain ⟨date', -, h⟩ := Option.bind_eq_some_iff.mp h
  obtain ⟨msg', hmsg, -⟩ := Option.bind_eq_some_iff.mp h
  obtain ⟨k, hlt, hk⟩ := zero_of_copyString hmsg
  rw [hp.msg, Nat.zero_add] at hlt
  rw [List.getElem?_drop] at hk
  exact ⟨20 + k, Nat.le_add_right 20 k, by omega, hk⟩

/-- The reader is in front of a `read`, with the buffers that it has asked for. -/
structure Ready (s : State) : Prop where
  reading : s.pc = .reading
  sized : s.parts.Sized
  length_readBuf : s.readBuf.length = pipeBuf

theorem Ready.length_store (h : Ready s) (c : Chunk) :
    (store 0 c.bytes s.readBuf).length = pipeBuf := by
  rw [Foundation.length_store, h.length_readBuf]
  rw [h.length_readBuf, Nat.zero_add]
  exact c.length_le

/-- **A turn with a NUL in its place** leaves the reader ready and the buffer zeroed. -/
theorem Ready.receive (h : Ready s) {r : Chunk × List Byte}
    (hends : Ends (store 0 r.1.bytes s.readBuf)) :
    Ready (s.receive r) ∧ (s.receive r).readBuf = List.replicate pipeBuf 0 := by
  obtain ⟨p', hextract, hsized, t, hstrings⟩ :=
    extract_of_ends h.sized (h.length_store r.1) hends
  unfold State.receive State.turn
  dsimp only
  rw [List.take_of_length_le r.1.length_le, hextract]
  dsimp only
  rw [hstrings]
  exact ⟨⟨h.reading, hsized, List.length_replicate⟩, rfl⟩

/-- **A turn without one** leaves a buffer. -/
theorem Ready.receive_undefined (h : Ready s) {r : Chunk × List Byte}
    (hends : ¬Ends (store 0 r.1.bytes s.readBuf)) : (s.receive r).pc = .undefined := by
  have hnone : s.parts.extract (store 0 r.1.bytes s.readBuf) = none := by
    apply Option.eq_none_iff_forall_not_mem.mpr
    intro p' hextract
    exact hends (ends_of_extract h.sized hextract)
  unfold State.receive State.turn
  dsimp only
  rw [List.take_of_length_le r.1.length_le, hnone]

/-! ## §4  All turns -/

theorem receive_undefined (r : Chunk × List Byte) (h : s.pc = .undefined) :
    (s.receive r).pc = .undefined := by
  unfold State.receive State.turn
  dsimp only
  split
  · rfl
  · split
    · rfl
    · exact h

theorem foldl_receive_undefined (reads : List (Chunk × List Byte)) (h : s.pc = .undefined) :
    (reads.foldl State.receive s).pc = .undefined := by
  induction reads generalizing s with
  | nil => exact h
  | cons r reads ih => exact ih (receive_undefined r h)

/-- In a zeroed buffer a chunk ends by itself or by the zeros behind it. -/
theorem ends_zeroed {c : Chunk} :
    Ends (store 0 c.bytes (List.replicate pipeBuf 0)) ↔
      c.bytes.length < pipeBuf - 1 ∨ Ends c.bytes := by
  rw [store_zero, List.drop_replicate]
  constructor
  · rintro ⟨k, hle, hlt, hk⟩
    by_cases hc : k < c.bytes.length
    · rw [List.getElem?_append_left hc] at hk
      exact Or.inr ⟨k, hle, hlt, hk⟩
    · exact Or.inl (by omega)
  · rintro (hlength | ⟨k, hle, hlt, hk⟩)
    · have hpipe : pipeBuf = 4096 := rfl
      refine ⟨pipeBuf - 2, by omega, by omega, ?_⟩
      rw [List.getElem?_append_right (by omega), List.getElem?_replicate_of_lt (by omega)]
    · obtain ⟨hc, -⟩ := List.getElem?_eq_some_iff.mp hk
      exact ⟨k, hle, hlt, by rw [List.getElem?_append_left hc, hk]⟩

theorem foldl_receive (reads : List (Chunk × List Byte)) (h : Ready s)
    (hzeroed : s.readBuf = List.replicate pipeBuf 0) :
    (reads.foldl State.receive s).pc ≠ .undefined ↔
      ∀ r ∈ reads, r.1.bytes.length < pipeBuf - 1 ∨ Ends r.1.bytes := by
  induction reads generalizing s with
  | nil =>
      refine iff_of_true ?_ fun r hr => absurd hr List.not_mem_nil
      rw [List.foldl_nil, h.reading]
      decide
  | cons r reads ih =>
      rw [List.foldl_cons, List.forall_mem_cons, ← ends_zeroed, ← hzeroed]
      by_cases hends : Ends (store 0 r.1.bytes s.readBuf)
      · obtain ⟨hready, hzeroed'⟩ := h.receive hends
        rw [ih hready hzeroed', and_iff_right hends]
      · refine iff_of_false (fun hpc => hpc ?_) fun hall => hends hall.1
        exact foldl_receive_undefined reads (h.receive_undefined hends)

theorem readBuf_opened (found : Found) :
    (opened found).readBuf = malloc found.readBuf pipeBuf := by
  simp only [opened, fifo]

theorem ready_opened (found : Found) : Ready (opened found) := by
  refine ⟨rfl, ⟨?_, ?_, ?_⟩, ?_⟩
  · simp only [opened, fifo, length_malloc]
  · simp only [opened, fifo, length_malloc]
  · simp only [opened, fifo, length_malloc]
  · rw [readBuf_opened, length_malloc]

/-- **The reader stays in its buffers exactly if a NUL comes in time**: in the first turn
in the chunk or in what `malloc` has found behind it, in a later turn in the chunk unless it
leaves two bytes of the buffer. -/
theorem inside_iff (found : Found) (first : Chunk × List Byte)
    (later : List (Chunk × List Byte)) :
    (received found (first :: later)).pc ≠ .undefined ↔
      Ends (first.1.bytes ++ (malloc found.readBuf pipeBuf).drop first.1.bytes.length) ∧
        ∀ r ∈ later, r.1.bytes.length < pipeBuf - 1 ∨ Ends r.1.bytes := by
  have hopened := ready_opened found
  rw [← store_zero, ← readBuf_opened, received, List.foldl_cons]
  by_cases hends : Ends (store 0 first.1.bytes (opened found).readBuf)
  · obtain ⟨hready, hzeroed⟩ := hopened.receive hends
    rw [foldl_receive later hready hzeroed, and_iff_right hends]
  · refine iff_of_false (fun hpc => hpc ?_) fun hall => hends hall.1
    exact foldl_receive_undefined later (hopened.receive_undefined hends)

/-- Memory without a NUL. -/
def ones : Found := ⟨fun _ => 1, fun _ => 1, fun _ => 1, fun _ => 1⟩

/-- Nothing ends the first message of a `wrfifo` there. -/
theorem first_message_has_no_end :
    (received ones [(⟨sayHi.bytes, by decide, by decide⟩, sampleHour)]).pc = .undefined := by
  rw [received, List.foldl_cons, List.foldl_nil]
  apply (ready_opened ones).receive_undefined
  rintro ⟨k, -, -, hk⟩
  have hmem := List.mem_of_getElem? hk
  rw [store_zero, readBuf_opened] at hmem
  rcases List.mem_append.mp hmem with hmem | hmem
  · exact absurd hmem (by decide)
  · obtain ⟨j, -, hj⟩ := List.mem_map.mp (List.mem_of_mem_drop hmem)
    exact absurd hj (show (1 : Byte) ≠ 0 by decide)

end Sysopy.NamedPipe
