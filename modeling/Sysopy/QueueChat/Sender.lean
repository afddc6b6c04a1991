import Sysopy.Foundation.Lines
import Sysopy.Foundation.System
import Sysopy.QueueChat.Slots

/-!
# The loop of the sender

`sender_loop` of both clients reads a line, copies it to `msg_body` and sends the message,
and ends after the line "exit". It does not look at what `fgets` returns: at the end of the
input the line stays in the buffer, and every further turn sends it again.

Of a message only `msg_body` is followed here, the last of its fields.

## Sections

* §1 the loop
* §2 turns at a line
* §3 turns at the end of the input
-/

namespace Sysopy.QueueChat

open Foundation

/-! ## §1  The loop -/

/-- `buf_size`, and the size of `msg_body` -/
def bufSize : ℕ := 1000

inductive SenderPc
  | running
  | exited
  /-- a string is longer than its buffer -/
  | undefined
  deriving DecidableEq

/-- The variables of `sender_loop`, what is left to be read, and the texts sent. -/
structure Sender where
  pc : SenderPc
  stdin : List Byte
  msgTextBuff : List Byte
  msgBody : List Byte
  sent : List (List Byte)

def Sender.next (s : Sender) (_ : Unit) : Option Sender :=
  if s.pc = .running then
    let (msgTextBuff, stdin) := fgets bufSize s.stdin s.msgTextBuff
    match cString 0 msgTextBuff with
    | none => some { s with pc := .undefined }
    | some text =>
        match strcpyIn 0 text s.msgBody with
        | none => some { s with pc := .undefined }
        | some msgBody =>
            some {
              pc := if text = exitText then .exited else .running
              stdin := stdin
              msgTextBuff := msgTextBuff
              msgBody := msgBody
              sent := s.sent ++ [text] }
  else none

/-- `sender_loop` with this input, and with what is found in its two buffers. -/
def senderLoop (found foundBody : ℕ → Byte) (stdin : List Byte) : System Sender Unit where
  init :=
    { pc := .running
      stdin := stdin
      msgTextBuff := malloc found bufSize
      msgBody := malloc foundBody bufSize
      sent := [] }
  next := Sender.next

/-- No turn is undefined, each sends the next line, and there is none when all are sent. -/
structure SendsTyped (found foundBody : ℕ → Byte) (lines : List (List Byte)) : Prop where
  defined : ∀ tr s, (senderLoop found foundBody (wire 10 lines)).Run tr s → s.pc ≠ .undefined
  nothingElse : ∀ tr s, (senderLoop found foundBody (wire 10 lines)).Run tr s →
    s.sent <+: lines.map lineString
  everything : ∀ tr s, (senderLoop found foundBody (wire 10 lines)).Run tr s → s.stdin = [] →
    s.sent = lines.map lineString

/-- A line that fits into the buffer with its newline and its NUL and is not "exit". -/
structure Typed (l : List Byte) : Prop where
  newline : 10 ∉ l
  short : l.length < bufSize - 1
  ne_exit : terminated 10 l ≠ exitText

variable {found foundBody : ℕ → Byte} {l : List Byte} {ls : List (List Byte)} {s t : Sender}

/-! ## §2  Turns at a line -/

theorem Typed.lineString_ne (h : Typed l) : lineString l ≠ exitText := by
  intro heq
  have hexit : exitText = terminated 10 [101, 120, 105, 116] := rfl
  have hl := eq_of_lineString_eq h.newline (heq.trans hexit)
  exact h.ne_exit (hexit ▸ congrArg (terminated 10) hl)

structure Reads (ls : List (List Byte)) (s : Sender) : Prop where
  running : s.pc = .running
  stdin : s.stdin = wire 10 ls
  length_msgBody : s.msgBody.length = bufSize

/-- A turn with a string in the line buffer that fits. -/
theorem next_of_text (hpc : s.pc = .running) {text : List Byte}
    (htext : cString 0 (fgets bufSize s.stdin s.msgTextBuff).1 = some text)
    (hne : text ≠ exitText) (hbody : text.length < s.msgBody.length) :
    s.next () = some {
      pc := .running
      stdin := (fgets bufSize s.stdin s.msgTextBuff).2
      msgTextBuff := (fgets bufSize s.stdin s.msgTextBuff).1
      msgBody := strcpy 0 text s.msgBody
      sent := s.sent ++ [text] } := by
  have hstrcpy : strcpyIn 0 text s.msgBody = some (strcpy 0 text s.msgBody) :=
    strcpyIn_eq (by rwa [Nat.zero_add])
  rw [Sender.next, if_pos hpc]
  simp only [htext, hstrcpy, if_neg hne]

theorem Typed.length_lineString_lt (h : Typed l) : (lineString l).length < bufSize := by
  have hshort := h.short
  exact Nat.lt_of_le_of_lt (length_lineString_le l) (by omega)

/-- **A turn at a line** sends its string and leaves it in the line buffer. -/
theorem Reads.next (h : Reads (l :: ls) s) (hl : Typed l) :
    ∃ t, s.next () = some t ∧ Reads ls t ∧ t.sent = s.sent ++ [lineString l] ∧
      cString 0 t.msgTextBuff = some (lineString l) := by
  obtain ⟨hstdin, htext⟩ := fgets_line hl.newline hl.short ls s.msgTextBuff
  rw [← h.stdin] at hstdin htext
  have hbody : (lineString l).length < s.msgBody.length := by
    rw [h.length_msgBody]
    exact hl.length_lineString_lt
  refine ⟨_, next_of_text h.running htext hl.lineString_ne hbody, ⟨rfl, hstdin, ?_⟩, rfl, htext⟩
  show (strcpy 0 (lineString l) s.msgBody).length = bufSize
  rw [length_strcpy (by rwa [Nat.zero_add]), h.length_msgBody]

theorem reads_init (found foundBody : ℕ → Byte) (lines : List (List Byte)) :
    Reads lines (senderLoop found foundBody (wire 10 lines)).init := by
  refine ⟨rfl, rfl, ?_⟩
  simp only [senderLoop, length_malloc]

/-- **The loop comes to the end of the lines**, with the last one in the line buffer. -/
theorem Reads.path (found foundBody : ℕ → Byte) (stdin : List Byte) (h : Reads ls s)
    (hls : ∀ l ∈ ls, Typed l) :
    ∃ tr t, (senderLoop found foundBody stdin).Path s tr t ∧ Reads [] t ∧
      t.sent = s.sent ++ ls.map lineString ∧
      cString 0 t.msgTextBuff = (ls.map lineString).getLast?.or (cString 0 s.msgTextBuff) := by
  induction ls generalizing s with
  | nil => exact ⟨[], s, .nil, h, (List.append_nil s.sent).symm, rfl⟩
  | cons l ls ih =>
      obtain ⟨hl, hls⟩ := List.forall_mem_cons.mp hls
      obtain ⟨t, hnext, ht, hsent, htext⟩ := h.next hl
      obtain ⟨tr, u, hpath, hu, hall, hlast⟩ := ih ht hls
      refine ⟨(s, ()) :: tr, u, .cons hnext hpath, hu, ?_, ?_⟩
      · rw [hall, hsent, List.append_assoc]
        rfl
      · rw [hlast, htext, List.map_cons, List.getLast?_cons]
        cases (ls.map lineString).getLast? with
        | none => rfl
        | some text => rfl

/-! ## §3  Turns at the end of the input -/

theorem Reads.fgets_end (h : Reads [] s) :
    fgets bufSize s.stdin s.msgTextBuff = (s.msgTextBuff, []) := by
  rw [h.stdin]
  exact Foundation.fgets_end bufSize s.msgTextBuff

/-- A turn at the end of the input sends what is in the line buffer, or is undefined. -/
theorem Reads.next_end (h : Reads [] s) :
    ∃ t, s.next () = some t ∧ (t.pc = .undefined ∨ ∃ text, t.sent = s.sent ++ [text]) := by
  rw [Sender.next, if_pos h.running]
  simp only [h.fgets_end]
  cases cString 0 s.msgTextBuff with
  | none => exact ⟨_, rfl, Or.inl rfl⟩
  | some text =>
      dsimp only
      cases strcpyIn 0 text s.msgBody with
      | none => exact ⟨_, rfl, Or.inl rfl⟩
      | some msgBody => exact ⟨_, rfl, Or.inr ⟨text, rfl⟩⟩

/-- **The last line is sent as often as one likes.** -/
theorem last_line_again (found foundBody : ℕ → Byte) {lines : List (List Byte)}
    (hlines : ∀ l ∈ lines, Typed l) {last : List Byte} (hlast : lines.getLast? = some last)
    (k : ℕ) :
    ∃ tr s, (senderLoop found foundBody (wire 10 lines)).Run tr s ∧ Reads [] s ∧
      s.sent = lines.map lineString ++ List.replicate k (lineString last) ∧
      cString 0 s.msgTextBuff = some (lineString last) := by
  have htyped := hlines last (List.mem_of_getLast? hlast)
  induction k with
  | zero =>
      obtain ⟨tr, s, hpath, hs, hsent, htext⟩ :=
        (reads_init found foundBody lines).path found foundBody (wire 10 lines) hlines
      rw [List.getLast?_map, hlast] at htext
      exact ⟨tr, s, hpath, hs, hsent.trans (List.append_nil _).symm, htext⟩
  | succ k ih =>
      obtain ⟨tr, s, hrun, hs, hsent, htext⟩ := ih
      have hfgets := hs.fgets_end
      have hbody : (lineString last).length < s.msgBody.length := by
        rw [hs.length_msgBody]
        exact htyped.length_lineString_lt
      have hnext := next_of_text hs.running (by rw [hfgets]; exact htext) htyped.lineString_ne hbody
      rw [hfgets] at hnext
      refine ⟨tr ++ [(s, ())], _, .snoc hrun hnext, ⟨rfl, rfl, ?_⟩, ?_, htext⟩
      · rw [length_strcpy (by rwa [Nat.zero_add]), hs.length_msgBody]
      · rw [hsent, List.append_assoc, ← List.replicate_succ']

/-- **The loop never sends just what was typed.** -/
theorem not_sendsTyped (found foundBody : ℕ → Byte) {lines : List (List Byte)}
    (hlines : ∀ l ∈ lines, Typed l) : ¬SendsTyped found foundBody lines := by
  intro h
  obtain ⟨tr, s, hpath, hs, hsent, -⟩ :=
    (reads_init found foundBody lines).path found foundBody (wire 10 lines) hlines
  obtain ⟨t, hnext, ht⟩ := hs.next_end
  have hrun : (senderLoop found foundBody (wire 10 lines)).Run (tr ++ [(s, ())]) t :=
    .snoc hpath hnext
  rcases ht with hundefined | ⟨text, htext⟩
  · exact h.defined _ t hrun hundefined
  · have hlength := (h.nothingElse _ t hrun).length_le
    rw [htext, hsent, List.length_append, List.length_append, List.length_singleton] at hlength
    omega

end Sysopy.QueueChat
