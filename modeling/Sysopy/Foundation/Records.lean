import Mathlib.Data.List.Basic
import Mathlib.Data.List.TakeDrop
import Sysopy.Foundation.Memory

/-!
# Records of one size in a row of bytes

A file of records is the records one after the other. A record is read and overwritten
at the multiple of the record size; two records change places by two overwrites.
-/

namespace Sysopy.Foundation

/-- All records have `r` bytes. -/
def Uniform (r : ℕ) (recs : List (List Byte)) : Prop := ∀ x ∈ recs, x.length = r

variable {r k : ℕ} {recs : List (List Byte)} {x : List Byte}

theorem Uniform.set (h : Uniform r recs) (hx : x.length = r) (k : ℕ) :
    Uniform r (recs.set k x) := by
  intro y hy
  rcases List.mem_or_eq_of_mem_set hy with hy | rfl
  · exact h y hy
  · exact hx

theorem Uniform.perm {recs' : List (List Byte)} (h : Uniform r recs) (hperm : recs'.Perm recs) :
    Uniform r recs' :=
  fun x hx => h x (hperm.mem_iff.mp hx)

theorem Uniform.length_flatten (h : Uniform r recs) : recs.flatten.length = recs.length * r := by
  induction recs with
  | nil => rw [List.flatten_nil, List.length_nil, List.length_nil, Nat.zero_mul]
  | cons x recs ih =>
      rw [List.flatten_cons, List.length_append, h x List.mem_cons_self,
        ih fun y hy => h y (List.mem_cons_of_mem _ hy), List.length_cons, Nat.succ_mul,
        Nat.add_comm]

theorem Uniform.split (h : Uniform r recs) (k : ℕ) (hk : k < recs.length) :
    ∃ pre post, recs.flatten = pre ++ recs[k] ++ post ∧ pre.length = k * r ∧
      ∀ y, (recs.set k y).flatten = pre ++ y ++ post := by
  refine ⟨(recs.take k).flatten, (recs.drop (k + 1)).flatten, ?_, ?_, fun y => ?_⟩
  · conv_lhs => rw [← List.take_append_drop k recs, List.drop_eq_getElem_cons hk]
    rw [List.flatten_append, List.flatten_cons, List.append_assoc]
  · have hpre : Uniform r (recs.take k) := fun y hy => h y (List.mem_of_mem_take hy)
    rw [hpre.length_flatten, List.length_take, Nat.min_eq_left hk.le]
  · rw [List.set_eq_take_append_cons_drop, if_pos hk, List.flatten_append, List.flatten_cons,
      List.append_assoc]

theorem Uniform.read (h : Uniform r recs) (hk : k < recs.length) :
    (recs.flatten.drop (k * r)).take r = recs[k] := by
  obtain ⟨pre, post, heq, hpre, -⟩ := h.split k hk
  rw [heq, ← hpre, List.append_assoc, List.drop_left]
  conv_lhs => rw [← h recs[k] (List.getElem_mem hk)]
  rw [List.take_left]

theorem Uniform.store (h : Uniform r recs) (hk : k < recs.length) (hx : x.length = r) :
    store (k * r) x recs.flatten = (recs.set k x).flatten := by
  obtain ⟨pre, post, heq, hpre, hset⟩ := h.split k hk
  have hlen : pre.length + x.length = (pre ++ recs[k]).length := by
    rw [List.length_append, hx, h recs[k] (List.getElem_mem hk)]
  rw [Foundation.store, heq, hset, ← hpre, List.append_assoc pre, List.take_left,
    ← List.append_assoc, hlen, List.drop_left]

/-- There is a record for each multiple of the size inside the file. -/
theorem Uniform.mul_lt (h : Uniform r recs) (hk : k < recs.length) :
    k * r + r ≤ recs.flatten.length := by
  rw [h.length_flatten, ← Nat.succ_mul]
  exact Nat.mul_le_mul_right r hk

variable {a b : ℕ} {bytes : List Byte}

/-- The `r` bytes from `a` on and the `r` bytes from `b` on change places. -/
def exchange (r a b : ℕ) (bytes : List Byte) : List Byte :=
  store b ((bytes.drop a).take r) (store a ((bytes.drop b).take r) bytes)

theorem length_piece (h : a + r ≤ bytes.length) : ((bytes.drop a).take r).length = r := by
  rw [List.length_take, List.length_drop]
  exact Nat.min_eq_left (Nat.le_sub_of_add_le' h)

theorem length_store_piece (ha : a + r ≤ bytes.length) (hb : b + r ≤ bytes.length) :
    (store a ((bytes.drop b).take r) bytes).length = bytes.length :=
  length_store (by rw [length_piece hb]; exact ha)

theorem length_exchange (ha : a + r ≤ bytes.length) (hb : b + r ≤ bytes.length) :
    (exchange r a b bytes).length = bytes.length := by
  have hstore := length_store_piece ha hb
  rw [exchange, length_store (by rw [length_piece ha, hstore]; exact hb), hstore]

theorem Uniform.exchange (h : Uniform r recs) (ha : a < recs.length) (hb : b < recs.length) :
    exchange r (a * r) (b * r) recs.flatten =
      ((recs.set a recs[b]).set b recs[a]).flatten := by
  have hset : Uniform r (recs.set a recs[b]) := h.set (h _ (List.getElem_mem hb)) a
  rw [Foundation.exchange, h.read ha, h.read hb, h.store ha (h _ (List.getElem_mem hb)),
    hset.store (by rwa [List.length_set]) (h _ (List.getElem_mem ha))]

end Sysopy.Foundation
