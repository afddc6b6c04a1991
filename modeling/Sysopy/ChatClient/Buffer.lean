import Sysopy.ChatClient.Client
import Sysopy.Foundation.Memory

/-!
# The memory of the outgoing messages

A line becomes a message in `msg_with_header` and is then copied to a cell of
`messages`. The two pieces of memory have different sizes, and neither is that of what
is written; the buffer of ten cells is meant to double when it is full, but its loop
runs over as many cells as the new buffer has.

## Sections

* §1 the statements
* §2 a line in its cell
* §3 the full buffer
* §4 lines without a flush
-/

namespace Sysopy.ChatClient

open Sysopy.Foundation

/-! ## §1  The statements -/

def msgMaxLen : ℕ := 256

def cellSize : ℕ := msgMaxLen + 2

/-- The shared variables; `cells` are the cells that are allocated. -/
structure Buffer where
  messagesWaiting : ℕ
  messageBuffSize : ℕ
  cells : List (List Byte)

/-- `init_msg_buff`; cell `i` is `malloc`ed where `found i` is. -/
def initMsgBuff (found : ℕ → ℕ → Byte) : Buffer where
  messagesWaiting := 0
  messageBuffSize := 10
  cells := (List.range 10).map fun i => malloc (found i) cellSize

/-- The four stores to `msg_with_header`; `line` is what `getline` has read. -/
def addHeader (myId line msgWithHeader : List Byte) : Option (List Byte) := do
  let msg ← strcpyIn 0 myId msgWithHeader
  let msg ← storeIn myId.length [58] msg
  let msg ← storeIn (myId.length + 1) [10] msg
  strcpyIn (myId.length + 2) (beforeTerminator 0 line) msg

/-- `strcpy(cell, msg)` -/
def copyTo (cell msg : List Byte) : Option (List Byte) := do
  let s ← cString 0 msg
  strcpyIn 0 s cell

/-- The loop of `enlarge_msg_buff`: the new cells, each with the string of the old cell,
which is freed. -/
def moveCells (found : ℕ → ℕ → Byte) (cells : List (List Byte)) :
    ℕ → Option (List (List Byte))
  | 0 => some []
  | i + 1 => do
      let moved ← moveCells found cells i
      let cell ← cells[i]?
      let newCell ← copyTo (malloc (found i) cellSize) cell
      some (moved ++ [newCell])

/-- `enlarge_msg_buff`, `none` if it uses memory that is not allocated. -/
def Buffer.enlarge (found : ℕ → ℕ → Byte) (b : Buffer) : Option Buffer := do
  -- the bound of the loop is the new size
  let messageBuffSize := b.messageBuffSize * 2
  let cells ← moveCells found b.cells messageBuffSize
  some { b with messageBuffSize := messageBuffSize, cells := cells }

/-- The critical section of `stdin_read_fun`. -/
def Buffer.append (found : ℕ → ℕ → Byte) (b : Buffer) (msg : List Byte) : Option Buffer := do
  let b ← if b.messagesWaiting = b.messageBuffSize then b.enlarge found else some b
  let cell ← b.cells[b.messagesWaiting]?
  let cell ← copyTo cell msg
  some { b with
    cells := b.cells.set b.messagesWaiting cell
    messagesWaiting := b.messagesWaiting + 1 }

/-- The loop of `stdin_read_fun` for these lines, with `msg_with_header`. -/
def readLines (found : ℕ → ℕ → Byte) (myId : List Byte) :
    List (List Byte) → List Byte → Buffer → Option Buffer
  | [], _, b => some b
  | line :: lines, msgWithHeader, b => do
      let msg ← addHeader myId line msgWithHeader
      let b ← b.append found msg
      readLines found myId lines msg b

/-! ## §2  A line in its cell -/

variable {found : ℕ → ℕ → Byte} {myId line msg msgWithHeader cell : List Byte} {b b' : Buffer}

/-- What the stores make of `msg_with_header`; the last one fits if the line does. -/
theorem addHeader_eq (line : List Byte)
    (hsize : msgWithHeader.length = cellSize + myId.length + 1) :
    addHeader myId line msgWithHeader =
      if (beforeTerminator 0 line).length ≤ msgMaxLen then
        some (withHeader myId (beforeTerminator 0 line) ++ 0 ::
          msgWithHeader.drop (myId.length + (beforeTerminator 0 line).length + 3))
      else none := by
  unfold addHeader
  generalize beforeTerminator 0 line = text
  obtain ⟨front, rest, rfl, hfront⟩ : ∃ front rest, msgWithHeader = front ++ rest ∧
      front.length = myId.length + 1 := by
    refine ⟨msgWithHeader.take (myId.length + 1), msgWithHeader.drop (myId.length + 1),
      (List.take_append_drop _ _).symm, ?_⟩
    rw [List.length_take]
    omega
  have hrest : rest.length = cellSize := by
    rw [List.length_append] at hsize
    omega
  unfold cellSize at hrest
  have h₁ : strcpyIn 0 myId (front ++ rest) = some (myId ++ 0 :: rest) := by
    rw [strcpyIn, ← List.nil_append (front ++ rest), storeIn_append List.length_nil, terminated,
      List.length_append, List.length_append, List.length_singleton, if_pos (by omega),
      ← hfront, List.drop_left, List.nil_append, List.append_assoc]
    rfl
  have h₂ : storeIn myId.length [58] (myId ++ 0 :: rest) = some ((myId ++ [58]) ++ rest) := by
    rw [storeIn_append rfl, if_pos (by simp)]
    rfl
  have h₃ : storeIn (myId.length + 1) [10] ((myId ++ [58]) ++ rest) =
      some ((myId ++ [58] ++ [10]) ++ rest.drop 1) := by
    rw [storeIn_append (by simp), if_pos (by rw [List.length_singleton]; omega)]
    rfl
  have h₄ : strcpyIn (myId.length + 2) text ((myId ++ [58] ++ [10]) ++ rest.drop 1) =
      if text.length ≤ msgMaxLen then
        some (withHeader myId text ++ 0 :: (front ++ rest).drop (myId.length + text.length + 3))
      else none := by
    have hdrop : (front ++ rest).drop (myId.length + text.length + 3) =
        rest.drop (text.length + 1 + 1) := by
      rw [List.drop_append, List.drop_eq_nil_of_le (by omega), List.nil_append]
      congr 1
      omega
    have hfits : (terminated 0 text).length ≤ (rest.drop 1).length ↔
        text.length ≤ msgMaxLen := by
      rw [terminated, List.length_append, List.length_singleton, List.length_drop]
      omega
    rw [strcpyIn, storeIn_append (by simp), hdrop]
    simp only [hfits]
    split_ifs
    · simp [withHeader, terminated]
    · rfl
  simp only [h₁, h₂, h₃, h₄, Option.bind_eq_bind, Option.bind_some]

theorem copyTo_eq {s : List Byte} (hs : cString 0 msg = some s) (hcell : cell.length = cellSize) :
    copyTo cell msg =
      if s.length < cellSize then some (strcpy 0 s cell) else none := by
  rw [copyTo, hs, Option.bind_eq_bind, Option.bind_some, strcpyIn, storeIn, terminated,
    List.length_append, List.length_singleton, hcell, Nat.zero_add]
  rfl

theorem zero_notMem_withHeader (hid : 0 ∉ myId) :
    0 ∉ withHeader myId (beforeTerminator 0 line) := by
  simp [withHeader, hid, notMem_beforeTerminator]

theorem cString_addHeader (hid : 0 ∉ myId) (post : List Byte) :
    cString 0 (withHeader myId (beforeTerminator 0 line) ++ 0 :: post) =
      some (withHeader myId (beforeTerminator 0 line)) :=
  cString_eq_some.mpr ⟨zero_notMem_withHeader hid, post, rfl⟩

theorem length_withHeader (myId text : List Byte) :
    (withHeader myId text).length = myId.length + 2 + text.length := by
  rw [withHeader, List.length_append, List.length_append]
  rfl

/-- The identifier and the line that `strcpy` finds in `msg_buf` are at most 255 bytes. -/
def Fits (myId line : List Byte) : Prop :=
  myId.length + (beforeTerminator 0 line).length ≤ 255

theorem Fits.length_withHeader_lt {line : List Byte} (hnul : 0 ∉ line) (h : Fits myId line) :
    (withHeader myId line).length < cellSize := by
  rw [Fits, beforeTerminator_eq_self hnul] at h
  rw [length_withHeader]
  unfold cellSize msgMaxLen
  omega

/-- The copy to the cell is the one that needs most. -/
theorem fits_of_copyTo {cell' : List Byte} (hid : 0 ∉ myId)
    (hsize : msgWithHeader.length = cellSize + myId.length + 1) (hcell : cell.length = cellSize)
    (hmsg : addHeader myId line msgWithHeader = some msg) (hcopy : copyTo cell msg = some cell') :
    Fits myId line := by
  rw [addHeader_eq _ hsize, Option.ite_none_right_eq_some, Option.some.injEq] at hmsg
  obtain ⟨-, rfl⟩ := hmsg
  rw [copyTo_eq (cString_addHeader hid _) hcell, Option.ite_none_right_eq_some,
    length_withHeader] at hcopy
  have hlt := hcopy.1
  unfold cellSize msgMaxLen at hlt
  unfold Fits
  omega

/-- **A line stays inside both buffers exactly if it fits.** -/
theorem stays_inside_iff (hid : 0 ∉ myId)
    (hsize : msgWithHeader.length = cellSize + myId.length + 1) (hcell : cell.length = cellSize) :
    (∃ msg cell', addHeader myId line msgWithHeader = some msg ∧ copyTo cell msg = some cell' ∧
      cString 0 cell' = some (withHeader myId (beforeTerminator 0 line))) ↔ Fits myId line := by
  constructor
  · rintro ⟨msg, cell', hmsg, hcopy, -⟩
    exact fits_of_copyTo hid hsize hcell hmsg hcopy
  · intro hfits
    unfold Fits at hfits
    have hadd := addHeader_eq line hsize
    rw [if_pos (by unfold msgMaxLen; omega)] at hadd
    refine ⟨_, _, hadd, ?_,
      cString_strcpy (zero_notMem_withHeader hid) (Nat.zero_le cell.length)⟩
    rw [copyTo_eq (cString_addHeader hid _) hcell, if_pos]
    rw [length_withHeader]
    unfold cellSize msgMaxLen
    omega

/-- The identifier `"i"` and the line `"a\n"`. -/
theorem stays_inside_iff_short : ∃ msg cell',
    addHeader [105] [97, 10] (List.replicate 260 0) = some msg ∧
      copyTo (List.replicate 258 0) msg = some cell' ∧
      cString 0 cell' = some (withHeader [105] (beforeTerminator 0 [97, 10])) :=
  (stays_inside_iff (by decide) List.length_replicate List.length_replicate).mpr
    (by unfold Fits; decide)

/-- 254 characters and a newline fit in `msg_with_header` but not in the cell. -/
theorem long_line_leaves_cell : ∃ msg,
    addHeader [105] (List.replicate 254 97 ++ [10]) (List.replicate 260 0) = some msg ∧
      copyTo (List.replicate 258 0) msg = none ∧
      ¬∃ msg cell', addHeader [105] (List.replicate 254 97 ++ [10]) (List.replicate 260 0) =
        some msg ∧ copyTo (List.replicate 258 0) msg = some cell' ∧
        cString 0 cell' =
          some (withHeader [105] (beforeTerminator 0 (List.replicate 254 97 ++ [10]))) := by
  have hfits : ¬Fits [105] (List.replicate 254 97 ++ [10]) := by
    unfold Fits
    decide +kernel
  have hevaluated : ((addHeader [105] (List.replicate 254 97 ++ [10])
      (List.replicate 260 0)).map (copyTo (List.replicate 258 0))) = some none := by
    decide +kernel
  obtain ⟨msg, hmsg, hnone⟩ := Option.map_eq_some_iff.mp hevaluated
  refine ⟨msg, hmsg, hnone, ?_⟩
  rintro ⟨msg', cell', hmsg', hcopy, -⟩
  exact hfits (fits_of_copyTo (by decide) List.length_replicate List.length_replicate hmsg' hcopy)

/-! ## §3  The full buffer -/

theorem le_of_moveCells {cells moved : List (List Byte)} {n : ℕ}
    (h : moveCells found cells n = some moved) : n ≤ cells.length := by
  cases n with
  | zero => exact Nat.zero_le _
  | succ n =>
      obtain ⟨moved', -, h⟩ := Option.bind_eq_some_iff.mp h
      obtain ⟨cell, hcell, -⟩ := Option.bind_eq_some_iff.mp h
      exact (List.getElem?_eq_some_iff.mp hcell).1

theorem enlarge_eq_none (hlength : b.cells.length = b.messageBuffSize)
    (hsize : b.messageBuffSize ≠ 0) : b.enlarge found = none := by
  refine Option.eq_none_iff_forall_ne_some.mpr fun b' h => ?_
  obtain ⟨moved, hmoved, -⟩ := Option.bind_eq_some_iff.mp h
  have hle := le_of_moveCells hmoved
  omega

/-- What `enlarge_msg_buff` is to do: it returns, twice as many cells are allocated, and the
waiting messages are the same strings. -/
def Grows (found : ℕ → ℕ → Byte) (b : Buffer) : Prop :=
  ∃ b', b.enlarge found = some b' ∧ b'.messageBuffSize = 2 * b.messageBuffSize ∧
    b'.cells.length = 2 * b.messageBuffSize ∧ b'.messagesWaiting = b.messagesWaiting ∧
    ∀ i < b.messagesWaiting, b'.cells[i]?.bind (cString 0) = b.cells[i]?.bind (cString 0)

theorem grows_iff (hlength : b.cells.length = b.messageBuffSize)
    (hfull : b.messagesWaiting = b.messageBuffSize) :
    Grows found b ↔ b.messageBuffSize = 0 := by
  constructor
  · rintro ⟨b', h, -⟩
    by_contra hsize
    rw [enlarge_eq_none hlength hsize] at h
    exact nomatch h
  · intro hsize
    refine ⟨{ b with messageBuffSize := 0, cells := [] }, ?_, ?_, ?_, rfl, fun i hi => ?_⟩
    · rw [Buffer.enlarge, hsize]
      rfl
    · rw [hsize]
    · rw [hsize]
      rfl
    · omega

/-! ## §4  Lines without a flush -/

/-- The lines wait in the ten cells, each with its header. -/
structure Kept (myId : List Byte) (lines : List (List Byte)) (b : Buffer) : Prop where
  waiting : b.messagesWaiting = lines.length
  size : b.messageBuffSize = 10
  length : b.cells.length = 10
  cell : ∀ c ∈ b.cells, c.length = cellSize
  strings : ∀ (i : ℕ) (line : List Byte), lines[i]? = some line →
    b.cells[i]?.bind (cString 0) = some (withHeader myId (beforeTerminator 0 line))

theorem kept_initMsgBuff (myId : List Byte) (found : ℕ → ℕ → Byte) :
    Kept myId [] (initMsgBuff found) where
  waiting := rfl
  size := rfl
  length := by rw [initMsgBuff, List.length_map, List.length_range]
  cell c hc := by
    obtain ⟨i, -, rfl⟩ := List.mem_map.mp hc
    exact length_malloc _ _
  strings i line h := by cases h

variable {lines rest : List (List Byte)}

theorem append_eq {cell' : List Byte} (hnotfull : b.messagesWaiting ≠ b.messageBuffSize)
    (hget : b.cells[b.messagesWaiting]? = some cell) (hcopy : copyTo cell msg = some cell') :
    b.append found msg = some { b with
      cells := b.cells.set b.messagesWaiting cell'
      messagesWaiting := b.messagesWaiting + 1 } := by
  rw [Buffer.append, if_neg hnotfull, Option.bind_eq_bind, Option.bind_some]
  dsimp only
  rw [hget, Option.bind_eq_bind, Option.bind_some, hcopy]
  rfl

theorem Kept.set (h : Kept myId lines b) (hlt : lines.length < 10)
    (hlength : cell.length = cellSize)
    (hcell : cString 0 cell = some (withHeader myId (beforeTerminator 0 line))) :
    Kept myId (lines ++ [line]) { b with
      cells := b.cells.set b.messagesWaiting cell
      messagesWaiting := b.messagesWaiting + 1 } := by
  refine ⟨?_, h.size, ?_, ?_, ?_⟩
  · rw [h.waiting, List.length_append, List.length_singleton]
  · rw [List.length_set, h.length]
  · intro c hc
    rcases List.mem_or_eq_of_mem_set hc with hc | rfl
    · exact h.cell c hc
    · exact hlength
  · intro i l hl
    dsimp only
    by_cases hi : i = b.messagesWaiting
    · subst hi
      rw [h.waiting, List.getElem?_concat_length, Option.some.injEq] at hl
      subst hl
      rw [List.getElem?_set_self (by rw [h.waiting, h.length]; exact hlt), Option.bind_some]
      exact hcell
    · rw [List.getElem?_set_ne (Ne.symm hi)]
      apply h.strings i l
      rwa [List.getElem?_append_left] at hl
      have hle := (List.getElem?_eq_some_iff.mp hl).1
      rw [List.length_append, List.length_singleton] at hle
      rw [h.waiting] at hi
      omega

theorem Kept.append (found : ℕ → ℕ → Byte) (h : Kept myId lines b) (hid : 0 ∉ myId)
    (hlt : lines.length < 10)
    (hmsg : cString 0 msg = some (withHeader myId (beforeTerminator 0 line)))
    (hfits : Fits myId line) :
    ∃ b', b.append found msg = some b' ∧ Kept myId (lines ++ [line]) b' := by
  have hnotfull : b.messagesWaiting ≠ b.messageBuffSize := by
    rw [h.waiting, h.size]
    exact hlt.ne
  obtain ⟨cell, hget⟩ : ∃ cell, b.cells[b.messagesWaiting]? = some cell :=
    ⟨_, List.getElem?_eq_getElem (by rw [h.waiting, h.length]; exact hlt)⟩
  have hcell := h.cell cell (List.mem_of_getElem? hget)
  have hroom : (withHeader myId (beforeTerminator 0 line)).length < cellSize := by
    rw [length_withHeader]
    unfold Fits at hfits
    unfold cellSize msgMaxLen
    omega
  have hcopy : copyTo cell msg =
      some (strcpy 0 (withHeader myId (beforeTerminator 0 line)) cell) := by
    rw [copyTo_eq hmsg hcell, if_pos hroom]
  refine ⟨_, append_eq hnotfull hget hcopy, h.set hlt ?_ ?_⟩
  · rw [length_strcpy, hcell]
    rw [hcell, Nat.zero_add]
    exact hroom
  · exact cString_strcpy (zero_notMem_withHeader hid) (Nat.zero_le _)

/-- With all ten cells in use the next line finds no eleventh one. -/
theorem Kept.append_eq_none (h : Kept myId lines b) (hlines : lines.length = 10) :
    b.append found msg = none := by
  have hfull : b.messagesWaiting = b.messageBuffSize := by
    rw [h.waiting, h.size, hlines]
  have hnone : b.enlarge found = none := by
    refine enlarge_eq_none (h.length.trans h.size.symm) ?_
    rw [h.size]
    decide
  rw [Buffer.append, if_pos hfull, hnone]
  rfl

theorem length_addHeader (hsize : msgWithHeader.length = cellSize + myId.length + 1)
    (h : addHeader myId line msgWithHeader = some msg) : msg.length = msgWithHeader.length := by
  rw [addHeader_eq _ hsize, Option.ite_none_right_eq_some, Option.some.injEq] at h
  obtain ⟨hle, rfl⟩ := h
  rw [List.length_append, length_withHeader, List.length_cons, List.length_drop]
  unfold cellSize at hsize
  omega

theorem Kept.readLine (h : Kept myId lines b) (hid : 0 ∉ myId) (hlt : lines.length < 10)
    (hsize : msgWithHeader.length = cellSize + myId.length + 1) (hfits : Fits myId line) :
    ∃ msg b', msg.length = cellSize + myId.length + 1 ∧ Kept myId (lines ++ [line]) b' ∧
      readLines found myId (line :: rest) msgWithHeader b = readLines found myId rest msg b' := by
  have hadd := addHeader_eq line hsize
  rw [if_pos (by unfold Fits at hfits; unfold msgMaxLen; omega)] at hadd
  obtain ⟨b', happend, hkept⟩ := h.append found hid hlt (cString_addHeader hid _) hfits
  refine ⟨_, b', (length_addHeader hsize hadd).trans hsize, hkept, ?_⟩
  rw [readLines, hadd, Option.bind_eq_bind, Option.bind_some, happend]
  rfl

theorem readLines_kept (found : ℕ → ℕ → Byte) (hid : 0 ∉ myId)
    (hfits : ∀ line ∈ rest, Fits myId line) (h : Kept myId lines b)
    (hsize : msgWithHeader.length = cellSize + myId.length + 1)
    (hle : lines.length + rest.length ≤ 10) :
    ∃ b', readLines found myId rest msgWithHeader b = some b' ∧ Kept myId (lines ++ rest) b' := by
  induction rest generalizing lines b msgWithHeader with
  | nil => exact ⟨b, rfl, by rwa [List.append_nil]⟩
  | cons line rest ih =>
      rw [List.length_cons] at hle
      rw [List.forall_mem_cons] at hfits
      obtain ⟨msg, b', hmsg, hkept, hturn⟩ := h.readLine hid (by omega) hsize hfits.1
      rw [hturn]
      obtain ⟨b'', hrun, hkept'⟩ := ih hfits.2 hkept hmsg (by
        rw [List.length_append, List.length_singleton]
        omega)
      rw [List.append_assoc] at hkept'
      exact ⟨b'', hrun, hkept'⟩

theorem readLines_eq_none (hid : 0 ∉ myId) (hfits : ∀ line ∈ rest, Fits myId line)
    (h : Kept myId lines b) (hsize : msgWithHeader.length = cellSize + myId.length + 1)
    (hlines : lines.length ≤ 10) (hlt : 10 < lines.length + rest.length) :
    readLines found myId rest msgWithHeader b = none := by
  induction rest generalizing lines b msgWithHeader with
  | nil => exact absurd hlt (Nat.not_lt.mpr hlines)
  | cons line rest ih =>
      rw [List.length_cons] at hlt
      rw [List.forall_mem_cons] at hfits
      rcases Nat.lt_or_eq_of_le hlines with hroom | hfull
      · obtain ⟨msg, b', hmsg, hkept, hturn⟩ := h.readLine hid hroom hsize hfits.1
        rw [hturn]
        refine ih hfits.2 hkept hmsg ?_ ?_
        · rw [List.length_append, List.length_singleton]
          omega
        · rw [List.length_append, List.length_singleton]
          omega
      · rw [readLines]
        cases addHeader myId line msgWithHeader with
        | none => rfl
        | some msg =>
            rw [Option.bind_eq_bind, Option.bind_some, h.append_eq_none hfull]
            rfl

/-- All lines wait in the buffer if they are read from the start without a flush; `g` and
`first` are what `malloc` finds. -/
def KeepsAll (g : ℕ → Byte) (first found : ℕ → ℕ → Byte) (myId : List Byte)
    (lines : List (List Byte)) : Prop :=
  ∃ b, readLines found myId lines (malloc g (cellSize + myId.length + 1)) (initMsgBuff first) =
      some b ∧ b.messagesWaiting = lines.length ∧
    ∀ (i : ℕ) (line : List Byte), lines[i]? = some line →
      b.cells[i]?.bind (cString 0) = some (withHeader myId (beforeTerminator 0 line))

theorem keepsAll_iff {g : ℕ → Byte} {first : ℕ → ℕ → Byte} (hid : 0 ∉ myId)
    (hfits : ∀ line ∈ lines, Fits myId line) :
    KeepsAll g first found myId lines ↔ lines.length ≤ 10 := by
  have hsize := length_malloc g (cellSize + myId.length + 1)
  have hinit := kept_initMsgBuff myId first
  constructor
  · rintro ⟨b, hrun, -⟩
    by_contra hlt
    rw [readLines_eq_none hid hfits hinit hsize (Nat.zero_le 10) (by
      rw [List.length_nil]
      omega)] at hrun
    exact nomatch hrun
  · intro hle
    obtain ⟨b, hrun, hkept⟩ := readLines_kept found hid hfits hinit hsize (by
      rw [List.length_nil, Nat.zero_add]
      exact hle)
    exact ⟨b, hrun, hkept.waiting, hkept.strings⟩

/-- **No full buffer is enlarged**, except one without cells, which the program never has;
so the lines that wait are kept up to the tenth. -/
theorem enlarging_keeps_iff {g : ℕ → Byte} {first : ℕ → ℕ → Byte}
    (hlength : b.cells.length = b.messageBuffSize)
    (hfull : b.messagesWaiting = b.messageBuffSize) (hid : 0 ∉ myId)
    (hfits : ∀ line ∈ lines, Fits myId line) :
    (Grows found b ↔ b.messageBuffSize = 0) ∧
      (KeepsAll g first found myId lines ↔ lines.length ≤ 10) :=
  ⟨grows_iff hlength hfull, keepsAll_iff hid hfits⟩

/-- Ten cells of memory that is 0. -/
def tenCells : Buffer := ⟨10, 10, List.replicate 10 (List.replicate 258 0)⟩

theorem enlarging_keeps_iff_one : (Grows (fun _ _ => 0) tenCells ↔ tenCells.messageBuffSize = 0) ∧
    (KeepsAll (fun _ => 0) (fun _ _ => 0) (fun _ _ => 0) [105] [[97, 10]] ↔
      [[97, 10]].length ≤ 10) :=
  enlarging_keeps_iff rfl rfl (by decide) (by unfold Fits; decide)

/-- The eleventh line: the buffer with the first ten is full, and enlarging it leaves its
memory. -/
theorem eleventh_line_leaves_buffer : ∃ b,
    readLines (fun _ _ => 0) [105] (List.replicate 10 [97, 10])
        (malloc (fun _ => 0) (cellSize + 1 + 1)) (initMsgBuff fun _ _ => 0) = some b ∧
      b.messagesWaiting = b.messageBuffSize ∧ b.enlarge (fun _ _ => 0) = none ∧
      ¬Grows (fun _ _ => 0) b ∧
      ¬KeepsAll (fun _ => 0) (fun _ _ => 0) (fun _ _ => 0) [105] (List.replicate 11 [97, 10]) := by
  have hfits : ∀ n, ∀ line ∈ List.replicate n [97, 10], Fits [105] line := by
    intro n line hline
    obtain rfl := (List.mem_replicate.mp hline).2
    unfold Fits
    decide
  have hsize := length_malloc (fun _ => 0) (cellSize + 1 + 1)
  obtain ⟨b, hrun, hkept⟩ := readLines_kept (fun _ _ => 0) (by decide) (hfits 10)
    (kept_initMsgBuff [105] fun _ _ => 0) hsize (by decide)
  have hnone : b.enlarge (fun _ _ => 0) = none := by
    refine enlarge_eq_none (hkept.length.trans hkept.size.symm) ?_
    rw [hkept.size]
    decide
  refine ⟨b, hrun, ?_, hnone, ?_, ?_⟩
  · rw [hkept.waiting, hkept.size]
    rfl
  · rintro ⟨b', hb', -⟩
    rw [hnone] at hb'
    exact nomatch hb'
  · rw [keepsAll_iff (by decide) (hfits 11)]
    decide

end Sysopy.ChatClient
