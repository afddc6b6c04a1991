import Mathlib.Data.List.Basic
import Mathlib.Data.List.Nodup
import Mathlib.Logic.Function.Basic
import Mathlib.Tactic.TypeStar

/-!
# Doubly linked chains in a heap

A heap gives each live address its node, and a node points to the next and to the
previous one. `Seg heap before first xs after` says that `first` leads through the
nodes `xs` to `after`, and back to `before`. Two segments become one by two stores,
whatever the first one led to and the second one came from (`Seg.join`): adding at
the end, joining two lists and taking a node out are all that.

## Sections

* §1 segments
* §2 what a chain determines
* §3 stores
* §4 joining two segments
-/

namespace Sysopy.Foundation

class Linked (A : outParam Type*) (N : Type*) where
  next : N → Option A
  prev : N → Option A
  setNext : Option A → N → N
  setPrev : Option A → N → N
  next_setNext : ∀ p x, next (setNext p x) = p
  prev_setNext : ∀ p x, prev (setNext p x) = prev x
  next_setPrev : ∀ p x, next (setPrev p x) = next x
  prev_setPrev : ∀ p x, prev (setPrev p x) = p

open Linked

attribute [simp] next_setNext prev_setNext next_setPrev prev_setPrev

variable {A N : Type*} [Linked A N]

/-! ## §1  Segments -/

/-- `first` leads through `xs` to `after`, and the first of them back to `before`. -/
inductive Seg (heap : A → Option N) : Option A → Option A → List A → Option A → Prop
  | nil {before after : Option A} : Seg heap before after [] after
  | cons {before after : Option A} {a : A} {x : N} {xs : List A} :
      heap a = some x → prev x = before → Seg heap (some a) (next x) xs after →
      Seg heap before (some a) (a :: xs) after

/-- The last address of the list, or what comes before. -/
def lastOr (before : Option A) : List A → Option A
  | [] => before
  | a :: xs => lastOr (some a) xs

omit [Linked A N] in
@[simp] theorem lastOr_append_singleton (before : Option A) (xs : List A) (a : A) :
    lastOr before (xs ++ [a]) = some a := by
  induction xs generalizing before with
  | nil => rfl
  | cons b xs ih => exact ih (some b)

omit [Linked A N] in
theorem lastOr_mem {xs : List A} {a : A} (h : lastOr none xs = some a) : a ∈ xs := by
  rcases List.eq_nil_or_concat xs with rfl | ⟨ys, b, rfl⟩
  · exact nomatch h
  · rw [List.concat_eq_append, lastOr_append_singleton] at h
    rw [List.concat_eq_append, Option.some.inj h]
    exact List.mem_append_right _ (List.mem_singleton_self a)

omit [Linked A N] in
theorem exists_lastOr {xs : List A} (h : xs ≠ []) : ∃ a ∈ xs, lastOr none xs = some a := by
  rcases List.eq_nil_or_concat xs with rfl | ⟨ys, b, rfl⟩
  · exact absurd rfl h
  · rw [List.concat_eq_append, lastOr_append_singleton]
    exact ⟨b, List.mem_append_right _ (List.mem_singleton_self b), rfl⟩

namespace Seg

variable {heap heap' : A → Option N} {before first after mid : Option A} {xs ys : List A} {a : A}

theorem append (h : Seg heap before first xs mid) (h' : Seg heap (lastOr before xs) mid ys after) :
    Seg heap before first (xs ++ ys) after := by
  induction h with
  | nil => exact h'
  | cons hx hprev _ ih => exact .cons hx hprev (ih h')

theorem split (h : Seg heap before first (xs ++ ys) after) :
    ∃ mid, Seg heap before first xs mid ∧ Seg heap (lastOr before xs) mid ys after := by
  induction xs generalizing before first with
  | nil => exact ⟨first, .nil, h⟩
  | cons a xs ih =>
      cases h with
      | cons hx hprev h =>
          obtain ⟨mid, hxs, hys⟩ := ih h
          exact ⟨mid, .cons hx hprev hxs, hys⟩

theorem congr (h : Seg heap before first xs after) (hheap : ∀ a ∈ xs, heap' a = heap a) :
    Seg heap' before first xs after := by
  induction h with
  | nil => exact .nil
  | cons hx hprev _ ih =>
      refine .cons ((hheap _ List.mem_cons_self).trans hx) hprev (ih fun b hb => ?_)
      exact hheap b (List.mem_cons_of_mem _ hb)

/-! ## §2  What a chain determines -/

theorem live (h : Seg heap before first xs after) (ha : a ∈ xs) : ∃ x, heap a = some x := by
  induction h with
  | nil => exact absurd ha List.not_mem_nil
  | cons hx _ _ ih =>
      rcases List.mem_cons.mp ha with rfl | ha
      · exact ⟨_, hx⟩
      · exact ih ha

theorem first_cons (h : Seg heap before first (a :: xs) after) : first = some a := by
  cases h
  rfl

theorem first_nil (h : Seg heap before first [] after) : first = after := by
  cases h
  rfl

theorem first_eq_none (h : Seg heap before first xs none) : first = none ↔ xs = [] := by
  cases h with
  | nil => exact iff_of_true rfl rfl
  | cons _ _ _ => exact iff_of_false (Option.some_ne_none _) (List.cons_ne_nil _ _)

/-- The first pointer determines the list that ends with `NULL`. -/
theorem unique {before' : Option A} (h : Seg heap before first xs none)
    (h' : Seg heap before' first ys none) : xs = ys := by
  generalize hlast : (none : Option A) = after at h
  induction h generalizing ys before' with
  | nil =>
      subst hlast
      exact ((first_eq_none h').mp rfl).symm
  | cons hx _ _ ih =>
      cases h' with
      | cons hx' _ h' =>
          obtain rfl := Option.some.inj (hx.symm.trans hx')
          exact congrArg _ (ih h' hlast)

/-- **A list that ends with `NULL` is acyclic.** -/
theorem nodup (h : Seg heap before first xs none) : xs.Nodup := by
  generalize hlast : (none : Option A) = after at h
  induction h with
  | nil => exact List.nodup_nil
  | @cons _ _ a x xs hx hprev htail ih =>
      subst hlast
      refine List.nodup_cons.mpr ⟨fun hmem => ?_, ih rfl⟩
      -- from a second place of `a` the list would be shorter
      obtain ⟨pre, post, rfl⟩ := List.append_of_mem hmem
      obtain ⟨mid, -, hsecond⟩ := htail.split
      obtain rfl := hsecond.first_cons
      have heq := unique (Seg.cons hx hprev htail) hsecond
      have hlength := congrArg List.length heq
      simp only [List.length_cons, List.length_append] at hlength
      omega

end Seg

/-! ## §3  Stores -/

variable [DecidableEq A]

/-- A store through a pointer; there is none through `NULL`. -/
def modifyAt (heap : A → Option N) (p : Option A) (f : N → N) : A → Option N :=
  match p with
  | none => heap
  | some a => Function.update heap a ((heap a).map f)

omit [Linked A N] in
theorem modifyAt_of_ne {heap : A → Option N} {p : Option A} {f : N → N} {a : A} (h : p ≠ some a) :
    modifyAt heap p f a = heap a := by
  cases p with
  | none => rfl
  | some b => exact Function.update_of_ne (fun hab => h (congrArg some hab.symm)) ..

omit [Linked A N] in
theorem modifyAt_self {heap : A → Option N} {f : N → N} {a : A} {x : N} (h : heap a = some x) :
    modifyAt heap (some a) f a = some (f x) := by
  rw [modifyAt, Function.update_self, h]
  rfl

omit [Linked A N] in
theorem modifyAt_isSome {heap : A → Option N} {p : Option A} {f : N → N} {a : A} :
    (modifyAt heap p f a).isSome = (heap a).isSome := by
  by_cases h : p = some a
  · subst h
    rw [modifyAt, Function.update_self, Option.isSome_map]
  · rw [modifyAt_of_ne h]

namespace Seg

variable {heap : A → Option N} {before first after : Option A} {xs : List A}

theorem setNext_last (h : Seg heap before first xs after) (hnodup : xs.Nodup) (hne : xs ≠ [])
    (p : Option A) : Seg (modifyAt heap (lastOr none xs) (setNext p)) before first xs p := by
  rcases List.eq_nil_or_concat xs with rfl | ⟨ys, b, rfl⟩
  · exact absurd rfl hne
  · rw [List.concat_eq_append] at h hnodup ⊢
    rw [lastOr_append_singleton]
    obtain ⟨mid, hys, hb⟩ := h.split
    have hnotin : ∀ a ∈ ys, some b ≠ some a := by
      intro a ha hab
      obtain rfl := Option.some.inj hab
      exact (List.nodup_append.mp hnodup).2.2 b ha b (List.mem_singleton_self b) rfl
    refine (hys.congr fun a ha => modifyAt_of_ne (hnotin a ha)).append ?_
    cases hb with
    | cons hx hprev _ =>
        refine .cons (modifyAt_self hx) ((prev_setNext _ _).trans hprev) ?_
        rw [next_setNext]
        exact .nil

/-- The first node of a segment is made to lead back somewhere else. -/
theorem setPrev_first (h : Seg heap before first xs after) (hnodup : xs.Nodup) (p : Option A) :
    Seg (modifyAt heap xs.head? (setPrev p)) p first xs after := by
  cases h with
  | nil => exact .nil
  | @cons _ _ a x xs hx _ htail =>
      refine .cons (modifyAt_self hx) (prev_setPrev _ _) ?_
      rw [next_setPrev]
      refine htail.congr fun b hb => modifyAt_of_ne fun hab => ?_
      obtain rfl := Option.some.inj hab
      exact (List.nodup_cons.mp hnodup).1 hb

/-! ## §4  Joining two segments -/

/-- The last node of the first segment is linked to the first one of the second. -/
def link (heap : A → Option N) (xs ys : List A) (p : Option A) : A → Option N :=
  modifyAt (modifyAt heap (lastOr none xs) (setNext p)) ys.head? (setPrev (lastOr none xs))

omit [Linked A N] [DecidableEq A] in
theorem head?_ne_some {ys : List A} {a : A} (h : a ∉ ys) : ys.head? ≠ some a :=
  fun heq => h (List.mem_of_mem_head? heq)

omit [Linked A N] [DecidableEq A] in
theorem lastOr_ne_some {xs : List A} {a : A} (h : a ∉ xs) : lastOr none xs ≠ some a :=
  fun heq => h (lastOr_mem heq)

theorem link_of_notMem {xs ys : List A} {p : Option A} {a : A} (hx : a ∉ xs) (hy : a ∉ ys) :
    link heap xs ys p a = heap a := by
  unfold link
  rw [modifyAt_of_ne (head?_ne_some hy), modifyAt_of_ne (lastOr_ne_some hx)]

/-- **Two segments become one**, whatever the first led to and the second came from. -/
theorem join {ys : List A} {mid mid' before' : Option A} (hnodup : (xs ++ ys).Nodup)
    (hx : Seg heap none first xs mid) (hy : Seg heap before' mid' ys after) :
    Seg (link heap xs ys mid') none (if xs = [] then mid' else first) (xs ++ ys) after := by
  obtain ⟨hxs, hys, hdisj⟩ := List.nodup_append.mp hnodup
  have hynot : ∀ a ∈ ys, a ∉ xs := fun a ha ha' => hdisj a ha' a ha rfl
  have hxnot : ∀ a ∈ xs, a ∉ ys := fun a ha ha' => hdisj a ha a ha' rfl
  have hy' : Seg (link heap xs ys mid') (lastOr none xs) mid' ys after := by
    refine setPrev_first (hy.congr fun a ha => ?_) hys _
    exact modifyAt_of_ne (lastOr_ne_some (hynot a ha))
  by_cases hnil : xs = []
  · subst hnil
    exact hy'
  · rw [if_neg hnil]
    refine ((hx.setNext_last hxs hnil mid').congr fun a ha => ?_).append hy'
    exact modifyAt_of_ne (head?_ne_some (hxnot a ha))

end Seg

end Sysopy.Foundation
