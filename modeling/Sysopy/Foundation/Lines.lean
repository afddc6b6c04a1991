import Sysopy.Foundation.Memory

/-!
# Reading a stream line by line

A reader with room for `n` elements takes what comes up to and with the next terminator,
or the first `n` elements where that is further away. From a stream of framed messages
it takes the first one if that is short enough. `fgets` is such a reader of
bytes; at the end of the stream it leaves its buffer as it is, and on a pipe it waits for
more as long as there is a writer.

Any text is the stream of the lines that it splits into.
-/

namespace Sysopy.Foundation

variable {α : Type*} [DecidableEq α] {z : α} {n : ℕ}

def readLine (z : α) : ℕ → List α → List α × List α
  | 0, s => ([], s)
  | _ + 1, [] => ([], [])
  | n + 1, b :: s =>
      if b = z then ([b], s) else (b :: (readLine z n s).1, (readLine z n s).2)

/-- A message and its terminator are taken if there is room for them. -/
theorem readLine_message {m : List α} (hm : z ∉ m) (hn : m.length < n) (rest : List α) :
    readLine z n (m ++ z :: rest) = (m ++ [z], rest) := by
  induction m generalizing n with
  | nil =>
      obtain ⟨k, rfl⟩ := Nat.exists_eq_succ_of_ne_zero (Nat.ne_zero_of_lt hn)
      exact if_pos rfl
  | cons b m ih =>
      obtain ⟨k, rfl⟩ := Nat.exists_eq_succ_of_ne_zero (Nat.ne_zero_of_lt hn)
      have hb : b ≠ z := (List.ne_of_not_mem_cons hm).symm
      rw [List.cons_append, readLine, if_neg hb,
        ih (List.not_mem_of_not_mem_cons hm) (Nat.lt_of_succ_lt_succ hn)]
      rfl

omit [DecidableEq α] in
theorem wire_append (xs ys : List (List α)) : wire z (xs ++ ys) = wire z xs ++ wire z ys := by
  rw [wire, List.map_append, List.flatten_append]
  rfl

theorem readLine_wire {m : List α} (hm : z ∉ m) (hn : m.length < n) (ms : List (List α)) :
    readLine z n (wire z (m :: ms)) = (terminated z m, wire z ms) := by
  rw [wire_cons, readLine_message hm hn]
  rfl

/-! ## fgets -/

/-- `fgets(buf, n, stdin)`: the buffer, and what is left to be read. -/
def fgets (n : ℕ) (stdin buf : List Byte) : List Byte × List Byte :=
  if stdin = [] then (buf, [])
  else (store 0 (terminated 0 (readLine 10 (n - 1) stdin).1) buf,
    (readLine 10 (n - 1) stdin).2)

theorem fgets_end (n : ℕ) (buf : List Byte) : fgets n [] buf = (buf, []) := if_pos rfl

theorem fgets_fst {stdin : List Byte} (h : stdin ≠ []) (n : ℕ) (buf : List Byte) :
    ∃ rest, (fgets n stdin buf).1 = (readLine 10 (n - 1) stdin).1 ++ 0 :: rest := by
  rw [fgets, if_neg h, store_zero, terminated, List.append_assoc]
  exact ⟨_, rfl⟩

/-- The string that a line with its newline is when it has been read. -/
def lineString (l : List Byte) : List Byte := beforeTerminator 0 (terminated 10 l)

theorem lineString_eq (l : List Byte) :
    0 ∈ l ∧ lineString l <+: l ∨ 0 ∉ l ∧ lineString l = terminated 10 l := by
  by_cases hl : 0 ∈ l
  · obtain ⟨m, r, rfl, hm⟩ := List.eq_append_cons_of_mem hl
    refine Or.inl ⟨hl, ?_⟩
    rw [lineString, terminated, List.append_assoc, List.cons_append, beforeTerminator_append hm]
    exact List.prefix_append m (0 :: r)
  · refine Or.inr ⟨hl, beforeTerminator_eq_self ?_⟩
    rw [terminated, List.mem_append, not_or]
    exact ⟨hl, by decide⟩

theorem length_lineString_le (l : List Byte) : (lineString l).length ≤ l.length + 1 := by
  rcases lineString_eq l with ⟨-, hp⟩ | ⟨-, heq⟩
  · exact Nat.le_succ_of_le hp.length_le
  · rw [heq, terminated, List.length_append, List.length_singleton]

theorem eq_of_lineString_eq {l m : List Byte} (hl : 10 ∉ l) (h : lineString l = terminated 10 m) :
    l = m := by
  rcases lineString_eq l with ⟨-, hp⟩ | ⟨-, heq⟩
  · rw [h] at hp
    exact absurd (hp.subset (List.mem_append_right m List.mem_cons_self)) hl
  · exact List.append_cancel_right (heq.symm.trans h)

theorem fgets_line {l : List Byte} (hl : 10 ∉ l) (hn : l.length < n - 1) (ls : List (List Byte))
    (buf : List Byte) :
    (fgets n (wire 10 (l :: ls)) buf).2 = wire 10 ls ∧
      cString 0 (fgets n (wire 10 (l :: ls)) buf).1 = some (lineString l) := by
  have hread := readLine_wire hl hn ls
  have hne : wire 10 (l :: ls) ≠ [] := by simp
  refine ⟨?_, ?_⟩
  · rw [fgets, if_neg hne, hread]
  · rw [fgets, if_neg hne, hread, store_zero, terminated, List.append_assoc, List.singleton_append]
    rw [cString, List.drop_zero, if_pos (List.mem_append_right _ List.mem_cons_self),
      beforeTerminator_append_cons]
    rfl

/-- What `fgets` takes from a pipe and what it leaves there; `none` while it waits. -/
def fgetsPipe (n : ℕ) (writer : Bool) (pipe : List Byte) : Option (List Byte × List Byte) :=
  if 10 ∈ (readLine 10 (n - 1) pipe).1 ∨ (readLine 10 (n - 1) pipe).1.length = n - 1 ∨
      writer = false then
    some (readLine 10 (n - 1) pipe)
  else none

theorem fgetsPipe_line {l : List Byte} (hl : 10 ∉ l) (hn : l.length < n - 1) (writer : Bool)
    (ls : List (List Byte)) :
    fgetsPipe n writer (wire 10 (l :: ls)) = some (terminated 10 l, wire 10 ls) := by
  rw [fgetsPipe, readLine_wire hl hn]
  exact if_pos (Or.inl (List.mem_append_right l List.mem_cons_self))

theorem fgetsPipe_end (n : ℕ) : fgetsPipe n false [] = some ([], []) := by
  have hread : readLine (10 : Byte) (n - 1) [] = ([], []) := by
    cases n - 1 with
    | zero => rfl
    | succ k => rfl
  rw [fgetsPipe, hread]
  exact if_pos (Or.inr (Or.inr rfl))

theorem fgetsPipe_wait (hn : 1 < n) : fgetsPipe n true [] = none := by
  obtain ⟨k, rfl⟩ : ∃ k, n = k + 2 := ⟨n - 2, by omega⟩
  rfl

/-! ## Splitting a text -/

/-- A text is one last line, or a line and a text behind its terminator. -/
theorem line_induction (z : α) {P : List α → Prop} (last : ∀ s, z ∉ s → P s)
    (line : ∀ m r, z ∉ m → P r → P (m ++ z :: r)) (s : List α) : P s := by
  induction hn : s.length using Nat.strongRecOn generalizing s with
  | ind n ih =>
      by_cases hz : z ∈ s
      · obtain ⟨m, r, rfl, hm⟩ := List.eq_append_cons_of_mem hz
        refine line m r hm (ih r.length ?_ r rfl)
        rw [← hn, List.length_append, List.length_cons]
        exact Nat.lt_add_left m.length (Nat.lt_succ_self r.length)
      · exact last s hz

theorem wire_splitOn (z : α) (s : List α) : wire z (s.splitOn z) = s ++ [z] := by
  induction s using line_induction z with
  | last s hs => rw [List.splitOn_eq_singleton hs, wire_cons, wire_nil]
  | line m r hm ih =>
      rw [List.splitOn_append_cons_self_of_not_mem hm, wire_cons, ih, List.append_assoc,
        List.cons_append]

/-- The lines of a text have no terminator and nothing that the text does not have. -/
theorem of_mem_splitOn {s l : List α} (hl : l ∈ s.splitOn z) :
    z ∉ l ∧ l.length ≤ s.length ∧ l ⊆ s := by
  induction s using line_induction z with
  | last s hs =>
      rw [List.splitOn_eq_singleton hs] at hl
      obtain rfl := List.mem_singleton.mp hl
      exact ⟨hs, le_rfl, List.Subset.refl l⟩
  | line m r hm ih =>
      rw [List.splitOn_append_cons_self_of_not_mem hm] at hl
      rw [List.length_append, List.length_cons]
      rcases List.mem_cons.mp hl with rfl | hl
      · exact ⟨hm, Nat.le_add_right _ _, List.subset_append_left _ _⟩
      · obtain ⟨hz, hlength, hsubset⟩ := ih hl
        refine ⟨hz, by omega, fun b hb => ?_⟩
        exact List.mem_append_right m (List.mem_cons_of_mem z (hsubset hb))

section Heads

variable {c : α} {s m : List α}

/-- How often a `c` stands behind a terminator. -/
def pairCount (z c : α) : List α → ℕ
  | [] => 0
  | a :: s => (if a = z ∧ s.head? = some c then 1 else 0) + pairCount z c s

theorem pairCount_append (hm : z ∉ m) (s : List α) :
    pairCount z c (m ++ s) = pairCount z c s := by
  induction m with
  | nil => rfl
  | cons b m ih =>
      have hb : b ≠ z := (List.ne_of_not_mem_cons hm).symm
      rw [List.cons_append, pairCount, if_neg fun h => hb h.1,
        ih (List.not_mem_of_not_mem_cons hm), Nat.zero_add]

/-- **The first element of the lines**: the first line begins as the text does, and as many
later ones begin with `c` as there are `c` behind a terminator. -/
theorem splitOn_heads (hc : c ≠ z) (s : List α) :
    ∃ first more, s.splitOn z = first :: more ∧ (first.head? = some c ↔ s.head? = some c) ∧
      more.countP (fun l => l.head? = some c) = pairCount z c s := by
  induction s using line_induction z with
  | last s hs =>
      refine ⟨s, [], List.splitOn_eq_singleton hs, Iff.rfl, ?_⟩
      have hnone := pairCount_append (c := c) hs []
      rw [List.append_nil] at hnone
      exact hnone.symm
  | line m r hm ih =>
      obtain ⟨first, more, hsplit, hfirst, hmore⟩ := ih
      refine ⟨m, first :: more, ?_, ?_, ?_⟩
      · rw [List.splitOn_append_cons_self_of_not_mem hm, hsplit]
      · cases m with
        | nil => exact iff_of_false (by simp) (by simpa using hc.symm)
        | cons b m => rfl
      · rw [pairCount_append hm, pairCount, List.countP_cons, hmore, Nat.add_comm]
        simp [hfirst]

end Heads

end Sysopy.Foundation
