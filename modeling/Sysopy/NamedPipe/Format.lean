import Mathlib.Data.Nat.Digits.Lemmas
import Sysopy.Foundation.Memory

/-!
# The format of a message

`wrfifo` prints the process id with a minimum width, `rdfifo` looks for the three parts
of a message at fixed places. A longer id shifts what follows it, so that writer and
reader agree exactly for the ids that keep to the width.

## Sections

* §1 decimal numbers
* §2 the writer
* §3 the reader
* §4 what is read from three parts of the right lengths
* §5 the round trip
-/

namespace Sysopy.NamedPipe

open Sysopy.Foundation

/-- `PIPE_BUF` of `limits.h` -/
def pipeBuf : ℕ := 4096

/-! ## §1  Decimal numbers -/

/-- What `%d` prints for a number that is not negative. -/
def decimal (n : ℕ) : List Byte :=
  if n = 0 then [48] else (Nat.digits 10 n).reverse.map fun d => UInt8.ofNat (48 + d)

theorem length_decimal_le_iff {n k : ℕ} (hk : 0 < k) :
    (decimal n).length ≤ k ↔ n < 10 ^ k := by
  unfold decimal
  split_ifs with hn
  · subst hn
    exact iff_of_true hk (Nat.pow_pos (by decide))
  · rw [List.length_map, List.length_reverse]
    exact Nat.digits_length_le_iff (by decide) n

theorem mem_decimal {n : ℕ} {b : Byte} (hb : b ∈ decimal n) : 48 ≤ b ∧ b ≤ 57 := by
  unfold decimal at hb
  split_ifs at hb with hn
  · obtain rfl := List.mem_singleton.mp hb
    decide
  · obtain ⟨d, hd, rfl⟩ := List.mem_map.mp hb
    have hlt : d < 10 := Nat.digits_lt_base (by decide) (List.mem_reverse.mp hd)
    have hdigits : ∀ d < 10, 48 ≤ UInt8.ofNat (48 + d) ∧ UInt8.ofNat (48 + d) ≤ 57 := by decide
    exact hdigits d hlt

theorem zero_notMem_decimal (n : ℕ) : 0 ∉ decimal n := fun h =>
  absurd (mem_decimal h).1 (by decide)

/-! ## §2  The writer -/

/-- `%6d` -/
def paddedPid (pid : ℕ) : List Byte :=
  List.replicate (6 - (decimal pid).length) 32 ++ decimal pid

def separator : List Byte := [32, 45, 32]

/-- What `sprintf` prints in `wrfifo`, without the NUL. -/
def formatted (pid : ℕ) (writeHour line : List Byte) : List Byte :=
  paddedPid pid ++ separator ++ writeHour ++ separator ++ line

/-! ## §3  The reader -/

/-- `out[n] = 0; for(i = 0; i < n; ++i) out[i] = msg[i + start];` -/
def copyField (start n : ℕ) (msg out : List Byte) : Option (List Byte) :=
  if start + n ≤ msg.length ∧ n < out.length then
    some (store 0 ((msg.drop start).take n) (out.set n 0))
  else none

def extractPid : List Byte → List Byte → Option (List Byte) := copyField 0 6

def extractWriteDate : List Byte → List Byte → Option (List Byte) := copyField 9 8

/-- `while((out[i] = msg[i]) != (char)0) ++i;`, which is `none` when it leaves one of the
two buffers. -/
def copyString : List Byte → ℕ → List Byte → Option (List Byte)
  | [], _, _ => none
  | b :: msg, i, out =>
      if i < out.length then
        if b = 0 then some (out.set i b) else copyString msg (i + 1) (out.set i b)
      else none

def extractMsg (msg out : List Byte) : Option (List Byte) := copyString (msg.drop 20) 0 out

/-- The buffers that the three parts are copied to. -/
structure Parts where
  pid : List Byte
  writeDate : List Byte
  msg : List Byte

/-- The buffers have the sizes that `rdfifo` asks for. -/
structure Parts.Sized (p : Parts) : Prop where
  pid : p.pid.length = 7
  writeDate : p.writeDate.length = 9
  msg : p.msg.length = pipeBuf - 21

def Parts.extract (p : Parts) (readBuf : List Byte) : Option Parts := do
  let pid ← extractPid readBuf p.pid
  let writeDate ← extractWriteDate readBuf p.writeDate
  let msg ← extractMsg readBuf p.msg
  some ⟨pid, writeDate, msg⟩

def Parts.strings (p : Parts) : Option (List Byte × List Byte × List Byte) := do
  let pid ← cString 0 p.pid
  let writeDate ← cString 0 p.writeDate
  let msg ← cString 0 p.msg
  some (pid, writeDate, msg)

/-! ## §4  What is read from three parts of the right lengths -/

section Copy

variable {pre field post msg out s : List Byte} {i : ℕ}

theorem store_field (hout : field.length < out.length) :
    store 0 field (out.set field.length 0) = field ++ 0 :: out.drop (field.length + 1) := by
  rw [store_zero, List.set_eq_take_append_cons_drop, if_pos hout,
    List.drop_append_of_le_length (by rw [List.length_take]; omega), List.drop_take,
    Nat.sub_self, List.take_zero, List.nil_append]

theorem copyField_eq (pre : List Byte) (hmsg : msg = pre ++ field ++ post) (hfield : 0 ∉ field)
    (hout : field.length < out.length) :
    ∃ out', copyField pre.length field.length msg out = some out' ∧ cString 0 out' = some field ∧
      out'.length = out.length := by
  have htake : (msg.drop pre.length).take field.length = field := by
    rw [hmsg, List.append_assoc, List.drop_left, List.take_left]
  have hlength : pre.length + field.length ≤ msg.length := by
    rw [hmsg, List.length_append, List.length_append]
    exact Nat.le_add_right _ _
  refine ⟨store 0 field (out.set field.length 0), ?_, ?_, ?_⟩
  · rw [copyField, if_pos ⟨hlength, hout⟩, htake]
  · exact cString_eq_some.mpr ⟨hfield, out.drop (field.length + 1), store_field hout⟩
  · rw [length_store (by rw [List.length_set]; omega), List.length_set]

/-- Whatever is copied, the NUL behind the field ends the string. -/
theorem length_le_of_copyField {start n : ℕ} {out' : List Byte}
    (hcopy : copyField start n msg out = some out') (hs : cString 0 out' = some s) :
    s.length ≤ n := by
  obtain ⟨hsizes, rfl⟩ : _ ∧ store 0 ((msg.drop start).take n) (out.set n 0) = out' := by
    simpa only [copyField, Option.ite_none_right_eq_some, Option.some.injEq] using hcopy
  have hn : ((msg.drop start).take n).length = n := by
    rw [List.length_take, List.length_drop]
    omega
  obtain ⟨hzero, r, hr⟩ := cString_eq_some.mp hs
  have hstore : store 0 ((msg.drop start).take n)
      (out.set ((msg.drop start).take n).length 0) = _ := store_field (by omega)
  rw [hn] at hstore
  rw [List.drop_zero, hstore] at hr
  by_contra hlt
  have hget : (s ++ 0 :: r)[n]? = some 0 := by
    rw [← hr, List.getElem?_append_right (by omega), hn, Nat.sub_self]
    rfl
  rw [List.getElem?_append_left (by omega)] at hget
  exact hzero (List.mem_of_getElem? hget)

theorem copyString_eq (hs : 0 ∉ s) (hout : i + s.length < out.length) :
    copyString (s ++ 0 :: post) i out = some (strcpy i s out) := by
  induction s generalizing i out with
  | nil =>
      have hlt : i < out.length := hout
      rw [List.nil_append, copyString, if_pos hlt, if_pos rfl, set_eq_store hlt]
      rfl
  | cons b s ih =>
      rw [List.mem_cons, not_or] at hs
      rw [List.length_cons] at hout
      have hlt : i < out.length := by omega
      rw [List.cons_append, copyString, if_pos hlt, if_neg (Ne.symm hs.1),
        ih hs.2 (by rw [List.length_set]; omega)]
      rw [strcpy, strcpy, ← store_cons hlt]
      rfl

/-- The three parts of a message of the right widths are read back, and the buffers keep
their sizes. -/
theorem Parts.Sized.extract {p : Parts} {readBuf pid writeHour line : List Byte} (h : p.Sized)
    (hbuf : readBuf = pid ++ separator ++ writeHour ++ separator ++ line ++ 0 :: post)
    (hpid : pid.length = 6) (hhour : writeHour.length = 8) (hpid0 : 0 ∉ pid)
    (hhour0 : 0 ∉ writeHour) (hline0 : 0 ∉ line) (hline : line.length ≤ pipeBuf - 22) :
    ∃ p', p.extract readBuf = some p' ∧ p'.Sized ∧ p'.strings = some (pid, writeHour, line) := by
  obtain ⟨pid', hpid', hstring, hsize⟩ := copyField_eq []
    (show readBuf = [] ++ pid ++
      (separator ++ writeHour ++ separator ++ line ++ 0 :: post) by simp [hbuf]) hpid0
    (show pid.length < p.pid.length by rw [hpid, h.pid]; decide)
  obtain ⟨date', hdate', hstring', hsize'⟩ := copyField_eq (pid ++ separator)
    (show readBuf = pid ++ separator ++ writeHour ++ (separator ++ line ++ 0 :: post) by
      simp [hbuf]) hhour0
    (show writeHour.length < p.writeDate.length by rw [hhour, h.writeDate]; decide)
  have hfits : 0 + line.length < p.msg.length := by
    rw [h.msg]
    unfold pipeBuf at hline ⊢
    omega
  have hmsg : extractMsg readBuf p.msg = some (strcpy 0 line p.msg) := by
    have hdrop : readBuf.drop 20 = line ++ 0 :: post := by
      have hlen : (pid ++ separator ++ writeHour ++ separator).length = 20 := by
        simp [separator, hpid, hhour]
      rw [hbuf, List.append_assoc _ line, ← hlen, List.drop_left]
    rw [extractMsg, hdrop]
    exact copyString_eq hline0 hfits
  rw [hpid, List.length_nil] at hpid'
  rw [hhour, List.length_append, hpid] at hdate'
  refine ⟨⟨pid', date', strcpy 0 line p.msg⟩, ?_, ⟨?_, ?_, ?_⟩, ?_⟩
  · refine Option.bind_eq_some_iff.mpr ⟨pid', hpid', Option.bind_eq_some_iff.mpr ?_⟩
    exact ⟨date', hdate', Option.bind_eq_some_iff.mpr ⟨_, hmsg, rfl⟩⟩
  · exact hsize.trans h.pid
  · exact hsize'.trans h.writeDate
  · exact (length_strcpy hfits).trans h.msg
  · simp only [Parts.strings, hstring, hstring', cString_strcpy hline0 (Nat.zero_le _),
      Option.bind_eq_bind, Option.bind_some]

end Copy

/-! ## §5  The round trip -/

theorem length_paddedPid {pid : ℕ} (h : pid < 10 ^ 6) : (paddedPid pid).length = 6 := by
  have hle := (length_decimal_le_iff (by decide)).mpr h
  rw [paddedPid, List.length_append, List.length_replicate]
  omega

theorem zero_notMem_paddedPid (pid : ℕ) : 0 ∉ paddedPid pid := by
  rw [paddedPid, List.mem_append, List.mem_replicate, not_or]
  exact ⟨fun h => absurd h.2 (by decide), zero_notMem_decimal pid⟩

/-- The reader's three functions give back the id behind blanks, the hour and the line. -/
def RoundTrip (writeBuf : List Byte) (p : Parts) (pid : ℕ) (writeHour line : List Byte) : Prop :=
  ∃ p' blanks, p.extract (strcpy 0 (formatted pid writeHour line) writeBuf) = some p' ∧
    p'.strings = some (List.replicate blanks 32 ++ decimal pid, writeHour, line)

section RoundTrip

variable {writeBuf readBuf : List Byte} {p p' : Parts} {pid : ℕ} {writeHour line : List Byte}

/-- The field of the id has room for six characters. -/
theorem length_le_of_strings {id : List Byte} (hextract : p.extract readBuf = some p')
    (hstrings : p'.strings = some (id, writeHour, line)) : id.length ≤ 6 := by
  obtain ⟨pid', hpid, hextract⟩ := Option.bind_eq_some_iff.mp hextract
  obtain ⟨date', -, hextract⟩ := Option.bind_eq_some_iff.mp hextract
  obtain ⟨msg', -, hextract⟩ := Option.bind_eq_some_iff.mp hextract
  obtain rfl := Option.some.inj hextract
  obtain ⟨s, hs, hstrings⟩ := Option.bind_eq_some_iff.mp hstrings
  obtain ⟨t, -, hstrings⟩ := Option.bind_eq_some_iff.mp hstrings
  obtain ⟨u, -, hstrings⟩ := Option.bind_eq_some_iff.mp hstrings
  obtain rfl := (Prod.mk.inj (Option.some.inj hstrings)).1
  exact length_le_of_copyField hpid hs

theorem lt_of_roundTrip (h : RoundTrip writeBuf p pid writeHour line) : pid < 10 ^ 6 := by
  obtain ⟨p', blanks, hextract, hstrings⟩ := h
  have hle := length_le_of_strings hextract hstrings
  rw [List.length_append] at hle
  exact (length_decimal_le_iff (by decide)).mp ((Nat.le_add_left _ _).trans hle)

/-- **Writer and reader agree exactly for the ids of at most six digits.** -/
theorem roundTrip_iff (hp : p.Sized) (hhour : writeHour.length = 8) (hhour0 : 0 ∉ writeHour)
    (hline0 : 0 ∉ line) (hline : line.length ≤ pipeBuf - 22) :
    RoundTrip writeBuf p pid writeHour line ↔ pid < 10 ^ 6 := by
  constructor
  · exact lt_of_roundTrip
  · intro hpid
    have hbuf : strcpy 0 (formatted pid writeHour line) writeBuf =
        paddedPid pid ++ separator ++ writeHour ++ separator ++ line ++
          0 :: writeBuf.drop (terminated 0 (formatted pid writeHour line)).length := by
      rw [strcpy, store_zero, terminated, List.append_assoc, List.singleton_append]
      rfl
    obtain ⟨p', hextract, -, hstrings⟩ := hp.extract hbuf (length_paddedPid hpid) hhour
      (zero_notMem_paddedPid pid) hhour0 hline0 hline
    exact ⟨p', _, hextract, hstrings⟩

/-- `malloc` that happens to return zeroed memory. -/
def zeroedParts : Parts :=
  ⟨List.replicate 7 0, List.replicate 9 0, List.replicate (pipeBuf - 21) 0⟩

theorem zeroedParts_sized : zeroedParts.Sized :=
  ⟨List.length_replicate, List.length_replicate, List.length_replicate⟩

/-- `"12:34:56"` -/
def sampleHour : List Byte := [49, 50, 58, 51, 52, 58, 53, 54]

theorem roundTrip_four_digits :
    RoundTrip (List.replicate pipeBuf 0) zeroedParts 4242 sampleHour [104, 105, 10] :=
  (roundTrip_iff zeroedParts_sized rfl (by decide) (by decide) (by decide)).mpr (by decide)

/-- The parts begin one byte behind the places where the reader looks. -/
theorem seven_digits_shift : sampleHour.length = 8 ∧ 0 ∉ sampleHour ∧ zeroedParts.Sized ∧
    (zeroedParts.extract (strcpy 0 (formatted 1000000 sampleHour [104, 105, 10])
      (List.replicate pipeBuf 0))).bind Parts.strings =
        some ([49, 48, 48, 48, 48, 48], [32, 49, 50, 58, 51, 52, 58, 53], [32, 104, 105, 10]) ∧
    ¬RoundTrip (List.replicate pipeBuf 0) zeroedParts 1000000 sampleHour [104, 105, 10] := by
  refine ⟨rfl, by decide, zeroedParts_sized, by decide +kernel, fun h => ?_⟩
  exact absurd (lt_of_roundTrip h) (by decide)

end RoundTrip

end Sysopy.NamedPipe
