import Sysopy.Foundation.Framing

/-!
# C strings in bounded buffers

A buffer is the list of its bytes. `strlen` looks for the first NUL; when the
buffer has none the read leaves the buffer, which is `none` here.
-/

namespace Sysopy.Foundation

abbrev Byte := UInt8

def strlen (buf : List Byte) : Option ℕ :=
  if 0 ∈ buf then some (beforeTerminator 0 buf).length else none

/-- The first `strlen(buf) + 1` bytes: the string with its NUL. -/
def stringBytes (buf : List Byte) : Option (List Byte) :=
  (strlen buf).map fun n => buf.take (n + 1)

theorem stringBytes_of_mem {buf : List Byte} (h : 0 ∈ buf) :
    stringBytes buf = some (terminated 0 (beforeTerminator 0 buf)) := by
  obtain ⟨r, hr⟩ := exists_eq_beforeTerminator_append h
  rw [stringBytes, strlen, if_pos h, Option.map_some, Option.some.injEq, terminated]
  conv_lhs => rw [hr]
  rw [beforeTerminator_append (notMem_beforeTerminator buf), List.take_length_add_append]
  rfl

theorem stringBytes_of_notMem {buf : List Byte} (h : 0 ∉ buf) : stringBytes buf = none := by
  rw [stringBytes, strlen, if_neg h]
  rfl

/-- A chunk received into a zeroed buffer of `n` bytes. -/
def zeroPadded (n : ℕ) (chunk : List Byte) : List Byte :=
  chunk ++ List.replicate (n - chunk.length) 0

theorem beforeTerminator_zeroPadded (n : ℕ) (chunk : List Byte) :
    beforeTerminator 0 (zeroPadded n chunk) = beforeTerminator 0 chunk := by
  unfold zeroPadded
  cases n - chunk.length with
  | zero => rw [List.replicate_zero, List.append_nil]
  | succ k => rw [List.replicate_succ, beforeTerminator_append_cons]

/-- A zeroed buffer keeps a NUL unless a chunk without one fills it. -/
theorem zero_mem_zeroPadded {n : ℕ} {chunk : List Byte} :
    0 ∈ zeroPadded n chunk ↔ chunk.length < n ∨ 0 ∈ chunk := by
  rw [zeroPadded, List.mem_append, List.mem_replicate, and_iff_left rfl, Nat.sub_ne_zero_iff_lt,
    or_comm]

/-- The string in a zeroed buffer is the whole chunk if the chunk's only NUL is its last
byte. -/
theorem stringBytes_zeroPadded_iff {n : ℕ} {chunk : List Byte} :
    stringBytes (zeroPadded n chunk) = some chunk ↔ ∃ m, 0 ∉ m ∧ chunk = terminated 0 m := by
  constructor
  · intro h
    by_cases hz : 0 ∈ zeroPadded n chunk
    · rw [stringBytes_of_mem hz, beforeTerminator_zeroPadded, Option.some.injEq] at h
      exact ⟨beforeTerminator 0 chunk, notMem_beforeTerminator chunk, h.symm⟩
    · rw [stringBytes_of_notMem hz] at h
      exact absurd h.symm (Option.some_ne_none _)
  · rintro ⟨m, hm, rfl⟩
    have hz : 0 ∈ zeroPadded n (terminated 0 m) :=
      zero_mem_zeroPadded.mpr (Or.inr (List.mem_append_right m List.mem_cons_self))
    have hstring : beforeTerminator 0 (terminated 0 m) = m := beforeTerminator_append hm []
    rw [stringBytes_of_mem hz, beforeTerminator_zeroPadded, hstring]

/-! ## Comparison -/

/-- `strcmp` of two strings without their NULs. -/
def strcmp : List Byte → List Byte → Ordering
  | [], [] => .eq
  | [], _ :: _ => .lt
  | _ :: _, [] => .gt
  | a :: s, b :: t => if a < b then .lt else if b < a then .gt else strcmp s t

theorem strcmp_eq_eq : ∀ s t : List Byte, strcmp s t = .eq ↔ s = t
  | [], [] => by simp [strcmp]
  | [], _ :: _ => by simp [strcmp]
  | _ :: _, [] => by simp [strcmp]
  | a :: s, b :: t => by
      unfold strcmp
      split_ifs with hlt hgt
      · exact iff_of_false nofun fun h => UInt8.lt_irrefl b ((List.cons.inj h).1 ▸ hlt)
      · exact iff_of_false nofun fun h => UInt8.lt_irrefl b ((List.cons.inj h).1 ▸ hgt)
      · have hab : a = b := UInt8.le_antisymm (UInt8.not_lt.mp hgt) (UInt8.not_lt.mp hlt)
        rw [strcmp_eq_eq s t, hab, List.cons_inj_right]

theorem strcmp_eq_compareLex : ∀ s t : List Byte, strcmp s t = List.compareLex compare s t
  | [], [] => rfl
  | [], _ :: _ => rfl
  | _ :: _, [] => rfl
  | a :: s, b :: t => by
      rw [strcmp, List.compareLex_cons_cons, strcmp_eq_compareLex s t]
      show _ = (compareOfLessAndEq a b).then _
      unfold compareOfLessAndEq
      split_ifs with hlt hgt heq heq
      · rfl
      · exact absurd (heq ▸ hgt) (UInt8.lt_irrefl a)
      · rfl
      · rfl
      · exact absurd (UInt8.le_antisymm (UInt8.not_lt.mp hgt) (UInt8.not_lt.mp hlt)) heq

instance : Std.TransCmp strcmp where
  eq_swap {s t} := by
    simp only [strcmp_eq_compareLex]
    exact Std.OrientedCmp.eq_swap
  isLE_trans {s t u} := by
    simp only [strcmp_eq_compareLex]
    exact Std.TransCmp.isLE_trans

end Sysopy.Foundation
