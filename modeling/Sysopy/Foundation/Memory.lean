import Mathlib.Data.List.Basic
import Mathlib.Data.List.TakeDrop
import Sysopy.Foundation.CString

/-!
# Writing bytes and strings into memory

A piece of memory is the list of its bytes. `store off bs` overwrites the bytes
from `off` on and keeps all others; `strcpy` stores a string with its NUL, and
`cString off` is the string that a reader of `off` finds, if there is a NUL. A
string stays what it is as long as its NUL is not overwritten; when a second
string begins where the characters of the first end, a reader finds both.
-/

namespace Sysopy.Foundation

variable {buf bs s t : List Byte} {off : ℕ}

/-- Overwrite the bytes from `off` on. -/
def store (off : ℕ) (bs buf : List Byte) : List Byte :=
  buf.take off ++ bs ++ buf.drop (off + bs.length)

/-- `strcpy(buf + off, s)`: the string and its NUL. -/
def strcpy (off : ℕ) (s buf : List Byte) : List Byte := store off (terminated 0 s) buf

/-- What `strncpy` writes: at most `n` bytes of the string, then NULs up to `n`. -/
def strncpyBytes (n : ℕ) (s : List Byte) : List Byte :=
  s.take n ++ List.replicate (n - s.length) 0

/-- The string at `off`, `none` if the reader finds no NUL. -/
def cString (off : ℕ) (buf : List Byte) : Option (List Byte) :=
  if 0 ∈ buf.drop off then some (beforeTerminator 0 (buf.drop off)) else none

/-- `store` where the bytes fit, `none` where one of them is behind the end. -/
def storeIn (off : ℕ) (bs buf : List Byte) : Option (List Byte) :=
  if off + bs.length ≤ buf.length then some (store off bs buf) else none

def strcpyIn (off : ℕ) (s buf : List Byte) : Option (List Byte) := storeIn off (terminated 0 s) buf

/-- What `malloc(n)` finds in memory. -/
def malloc (found : ℕ → Byte) (n : ℕ) : List Byte := (List.range n).map found

/-- `realloc`: a longer piece of memory goes on with what is found behind the old one. -/
def realloc (found : ℕ → Byte) (n : ℕ) (buf : List Byte) : List Byte :=
  buf.take n ++ (malloc found n).drop buf.length

theorem length_malloc (found : ℕ → Byte) (n : ℕ) : (malloc found n).length = n := by
  rw [malloc, List.length_map, List.length_range]

theorem length_realloc {found : ℕ → Byte} {n : ℕ} (hn : buf.length ≤ n) :
    (realloc found n buf).length = n := by
  rw [realloc, List.length_append, List.length_drop, length_malloc, List.length_take,
    Nat.min_eq_right hn, Nat.add_sub_cancel' hn]

theorem storeIn_append {pre rest : List Byte} (hpre : pre.length = off) :
    storeIn off bs (pre ++ rest) =
      if bs.length ≤ rest.length then some (pre ++ bs ++ rest.drop bs.length) else none := by
  subst hpre
  rw [storeIn, List.length_append]
  simp only [Nat.add_le_add_iff_left]
  split_ifs
  · rw [store, List.take_left, List.drop_append, List.drop_eq_nil_of_le (Nat.le_add_right _ _),
      List.nil_append, Nat.add_sub_cancel_left]
  · rfl

theorem length_store (h : off + bs.length ≤ buf.length) :
    (store off bs buf).length = buf.length := by
  simp only [store, List.length_append, List.length_take, List.length_drop]
  omega

theorem length_strcpy (h : off + s.length < buf.length) :
    (strcpy off s buf).length = buf.length := by
  apply length_store
  rw [terminated, List.length_append, List.length_singleton]
  exact h

theorem strcpyIn_eq (h : off + s.length < buf.length) :
    strcpyIn off s buf = some (strcpy off s buf) := by
  apply if_pos
  rw [terminated, List.length_append, List.length_singleton]
  exact h

theorem set_eq_store {b : Byte} (h : off < buf.length) : buf.set off b = store off [b] buf := by
  rw [List.set_eq_take_append_cons_drop, if_pos h, store, List.append_assoc]
  rfl

theorem store_cons {b : Byte} (h : off < buf.length) :
    store off (b :: bs) buf = store (off + 1) bs (buf.set off b) := by
  have htake : (buf.set off b).take (off + 1) = buf.take off ++ [b] := by
    rw [List.take_add_one, List.take_set_of_le (Nat.le_refl off), List.getElem?_set_self h]
    rfl
  rw [store, store, htake, List.drop_set_of_lt (by omega), List.append_assoc, List.append_assoc,
    List.append_assoc, List.length_cons, Nat.add_assoc, Nat.add_comm 1]
  rfl

theorem store_zero : store 0 bs buf = bs ++ buf.drop bs.length := by
  rw [store, List.take_zero, List.nil_append, Nat.zero_add]

theorem take_store {n : ℕ} (h : n ≤ off) (hbuf : off ≤ buf.length) :
    (store off bs buf).take n = buf.take n := by
  have hlen : n ≤ (buf.take off).length := by
    rw [List.length_take]
    omega
  rw [store, List.append_assoc, List.take_append_of_le_length hlen, List.take_take,
    Nat.min_eq_left h]

/-- A place before the bytes written sees the same write from nearer. -/
theorem drop_store {off' : ℕ} (h : off ≤ off') (hbuf : off' ≤ buf.length) :
    (store off' bs buf).drop off = store (off' - off) bs (buf.drop off) := by
  have hlen : off ≤ (buf.take off').length := by
    rw [List.length_take]
    omega
  rw [store, store, List.append_assoc, List.drop_append_of_le_length hlen, List.drop_take,
    List.drop_drop, List.append_assoc]
  congr 3
  omega

theorem length_strncpyBytes (n : ℕ) (s : List Byte) : (strncpyBytes n s).length = n := by
  rw [strncpyBytes, List.length_append, List.length_take, List.length_replicate]
  omega

theorem strncpyBytes_take {m n : ℕ} (h : m ≤ n) (s : List Byte) :
    (strncpyBytes n s).take m = strncpyBytes m s := by
  rw [strncpyBytes, strncpyBytes, List.take_append, List.take_take, Nat.min_eq_left h,
    List.take_replicate, List.length_take]
  congr 2
  omega

/-! ## Strings -/

theorem cString_eq_some : cString off buf = some s ↔
    0 ∉ s ∧ ∃ r, buf.drop off = s ++ 0 :: r := by
  unfold cString
  split_ifs with h
  · rw [Option.some.injEq]
    constructor
    · rintro rfl
      exact ⟨notMem_beforeTerminator _, exists_eq_beforeTerminator_append h⟩
    · rintro ⟨hs, r, hr⟩
      rw [hr, beforeTerminator_append hs]
  · refine ⟨False.elim, ?_⟩
    rintro ⟨-, r, hr⟩
    exact absurd (hr ▸ List.mem_append_right s List.mem_cons_self) h

theorem length_pos_of_cString (h : cString 0 buf = some s) : 0 < buf.length := by
  obtain ⟨-, r, hr⟩ := cString_eq_some.mp h
  obtain rfl : buf = s ++ 0 :: r := hr
  exact List.length_pos_iff.mpr (List.append_ne_nil_of_right_ne_nil _ (List.cons_ne_nil _ _))

theorem cString_strcpy (hs : 0 ∉ s) (hbuf : off ≤ buf.length) :
    cString off (strcpy off s buf) = some s := by
  refine cString_eq_some.mpr ⟨hs, buf.drop (off + (terminated 0 s).length), ?_⟩
  rw [strcpy, drop_store le_rfl hbuf, Nat.sub_self, store_zero, List.drop_drop, terminated,
    List.append_assoc]
  rfl

theorem cString_realloc {found : ℕ → Byte} {n : ℕ} (h : cString 0 buf = some s)
    (hn : buf.length ≤ n) : cString 0 (realloc found n buf) = some s := by
  obtain ⟨hs, r, hr⟩ := cString_eq_some.mp h
  refine cString_eq_some.mpr ⟨hs, r ++ (malloc found n).drop buf.length, ?_⟩
  rw [List.drop_zero] at hr ⊢
  rw [realloc, List.take_of_length_le hn]
  nth_rewrite 1 [hr]
  rw [List.append_assoc, List.cons_append]

theorem cString_store_behind {off' : ℕ} (h : cString off buf = some s)
    (hoff : off + s.length < off') (hbuf : off' ≤ buf.length) :
    cString off (store off' bs buf) = some s := by
  obtain ⟨hs, r, hr⟩ := cString_eq_some.mp h
  refine cString_eq_some.mpr ⟨hs, ?_⟩
  rw [drop_store (by omega) hbuf, hr, store]
  obtain ⟨k, hk⟩ : ∃ k, off' - off = s.length + (k + 1) := ⟨off' - off - s.length - 1, by omega⟩
  refine ⟨r.take k ++ bs ++ (s ++ 0 :: r).drop (off' - off + bs.length), ?_⟩
  rw [hk, List.take_length_add_append, List.take_succ_cons]
  simp

theorem prefix_of_cString (h : cString off buf = some s) : s <+: buf.drop off := by
  obtain ⟨-, r, hr⟩ := cString_eq_some.mp h
  exact ⟨0 :: r, hr.symm⟩

/-- What is written behind the characters of a string leaves them in place. -/
theorem prefix_store_behind {off' : ℕ} (h : s <+: buf.drop off) (hoff : off + s.length ≤ off')
    (hbuf : off' ≤ buf.length) : s <+: (store off' bs buf).drop off := by
  obtain ⟨r, hr⟩ := h
  rw [drop_store (by omega) hbuf, ← hr, store]
  obtain ⟨k, hk⟩ : ∃ k, off' - off = s.length + k := ⟨off' - off - s.length, by omega⟩
  rw [hk, List.take_length_add_append, List.append_assoc, List.append_assoc]
  exact List.prefix_append s _

/-- A string copied to the end of the characters of another one continues it. -/
theorem cString_strcpy_join (h : s <+: buf.drop off) (hs : 0 ∉ s) (ht : 0 ∉ t)
    (hbuf : off + s.length ≤ buf.length) :
    cString off (strcpy (off + s.length) t buf) = some (s ++ t) := by
  obtain ⟨r, hr⟩ := h
  refine cString_eq_some.mpr ⟨by simp [hs, ht], ?_⟩
  refine ⟨(s ++ r).drop (s.length + (terminated 0 t).length), ?_⟩
  rw [strcpy, drop_store (by omega) hbuf, ← hr, store, Nat.add_sub_cancel_left,
    List.take_left, terminated]
  simp

end Sysopy.Foundation
