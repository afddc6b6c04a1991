import Mathlib.Algebra.GroupWithZero.Nat
import Mathlib.Data.Fin.Basic
import Mathlib.Data.List.FinRange
import Mathlib.Logic.Function.Basic

/-!
# A table of clients with the times of their last activity

The datagram server keeps one such table for each address family: an array of
addresses and an array of ping times, where -1 marks a free slot. What the
addresses are does not matter here. No operation puts an address into a second
active slot.

## Sections

* §1 the operations
* §2 no client twice
-/

namespace Sysopy.DatagramServer

def maxClients : ℕ := 15

instance : NeZero maxClients := ⟨by decide⟩

abbrev Slot := Fin maxClients

/-! ## §1  The operations -/

/-- `in_ping_time` and `in_clients`, or `un_ping_time` and `un_clients`. -/
structure Table (α : Type*) where
  pingTime : Slot → ℤ
  clients : Slot → α

namespace Table

variable {α : Type*}

/-- Every slot is free; the addresses are those of zeroed memory. -/
def empty (zero : α) : Table α := { pingTime := fun _ => -1, clients := fun _ => zero }

def Active (t : Table α) (i : Slot) : Prop := t.pingTime i ≠ -1

instance (t : Table α) (i : Slot) : Decidable (t.Active i) := by
  unfold Active
  infer_instance

/-- The first active slot with this address. -/
def lookup [DecidableEq α] (t : Table α) (a : α) : Option Slot :=
  (List.finRange maxClients).find? fun i => t.Active i ∧ t.clients i = a

/-- The first free slot. -/
def emptySlot (t : Table α) : Option Slot :=
  (List.finRange maxClients).find? fun j => ¬ t.Active j

/-- The sender's slot, `none` for -1: its own, else a free one, which it takes;
`now` is what `time(NULL)` returns for its ping time. -/
def enroll [DecidableEq α] (t : Table α) (a : α) (now : ℤ) : Table α × Option Slot :=
  match t.lookup a with
  | some i => ({ t with pingTime := Function.update t.pingTime i now }, some i)
  | none =>
      match t.emptySlot with
      | some j =>
          ({ pingTime := Function.update t.pingTime j now
             clients := Function.update t.clients j a }, some j)
      | none => (t, none) -- "Cannot accept more clients"

/-- Iteration `i` of the forward loop on one table: a client that has been
silent for more than 10 seconds loses its slot, another one is sent the text. -/
def visit (t : Table α) (i : Slot) (now : ℤ) : Table α × List α :=
  if t.Active i ∧ now - t.pingTime i > 10 then
    ({ t with pingTime := Function.update t.pingTime i (-1) }, [])
  else if t.Active i then (t, [t.clients i])
  else (t, [])

/-! ## §2  No client twice -/

def Unique (t : Table α) : Prop :=
  ∀ i j, t.Active i → t.Active j → t.clients i = t.clients j → i = j

theorem unique_empty (zero : α) : (empty zero).Unique :=
  fun _ _ hi _ _ => absurd rfl hi

/-- Slots that become free do no harm, and neither do new ping times. -/
theorem Unique.mono {t t' : Table α} (h : t.Unique) (hclients : t'.clients = t.clients)
    (hactive : ∀ i, t'.Active i → t.Active i) : t'.Unique := by
  intro i j hi hj heq
  rw [hclients] at heq
  exact h i j (hactive i hi) (hactive j hj) heq

variable [DecidableEq α]

theorem lookup_some {t : Table α} {a : α} {i : Slot} (h : t.lookup a = some i) :
    t.Active i ∧ t.clients i = a := by
  simpa using List.find?_some h

theorem lookup_none {t : Table α} {a : α} (h : t.lookup a = none) (i : Slot)
    (hi : t.Active i) : t.clients i ≠ a := by
  have := List.find?_eq_none.mp h i (List.mem_finRange i)
  simp only [decide_eq_true_eq, not_and] at this
  exact this hi

theorem enroll_cases (t : Table α) (a : α) (now : ℤ) :
    (∃ i, t.lookup a = some i ∧ t.enroll a now =
      ({ t with pingTime := Function.update t.pingTime i now }, some i)) ∨
    (∃ j, t.lookup a = none ∧ t.emptySlot = some j ∧ t.enroll a now =
      ({ pingTime := Function.update t.pingTime j now
         clients := Function.update t.clients j a }, some j)) ∨
    (t.lookup a = none ∧ t.emptySlot = none ∧ t.enroll a now = (t, none)) := by
  unfold Table.enroll
  cases hl : t.lookup a with
  | some i => exact Or.inl ⟨i, rfl, rfl⟩
  | none =>
      cases he : t.emptySlot with
      | some j => exact Or.inr (Or.inl ⟨j, rfl, rfl, rfl⟩)
      | none => exact Or.inr (Or.inr ⟨rfl, rfl, rfl⟩)

theorem enroll_pingTime (t : Table α) (a : α) (now : ℤ) (k : Slot) :
    (t.enroll a now).1.pingTime k =
      if (t.enroll a now).2 = some k then now else t.pingTime k := by
  rcases t.enroll_cases a now with ⟨i, -, heq⟩ | ⟨j, -, -, heq⟩ | ⟨-, -, heq⟩
  · simp [heq, Function.update_apply, eq_comm]
  · simp [heq, Function.update_apply, eq_comm]
  · simp [heq]

/-- The sender's slot holds its address and no other address changes. -/
theorem enroll_clients (t : Table α) (a : α) (now : ℤ) (k : Slot) :
    (t.enroll a now).1.clients k =
      if (t.enroll a now).2 = some k then a else t.clients k := by
  rcases t.enroll_cases a now with ⟨i, hl, heq⟩ | ⟨j, -, -, heq⟩ | ⟨-, -, heq⟩
  · by_cases hk : i = k
    · subst hk
      simp [heq, (lookup_some hl).2]
    · simp [heq, hk]
  · simp [heq, Function.update_apply, eq_comm]
  · simp [heq]

theorem Unique.enroll_snd {t : Table α} (h : t.Unique) {a : α} {k : Slot} (hk : t.Active k)
    (ha : t.clients k = a) (now : ℤ) : (t.enroll a now).2 = some k := by
  rcases t.enroll_cases a now with ⟨i, hl, heq⟩ | ⟨j, hl, -, heq⟩ | ⟨hl, -, heq⟩
  · obtain ⟨hi, hia⟩ := lookup_some hl
    rw [heq, h i k hi hk (hia.trans ha.symm)]
  · exact absurd ha (lookup_none hl k hk)
  · exact absurd ha (lookup_none hl k hk)

/-- A sender is refused when its address is in no active slot and none is free. -/
theorem enroll_snd_eq_none (t : Table α) (a : α) (now : ℤ) :
    (t.enroll a now).2 = none ↔
      (∀ i, t.Active i → t.clients i ≠ a) ∧ ∀ i, t.Active i := by
  rcases t.enroll_cases a now with ⟨i, hl, heq⟩ | ⟨j, hl, he, heq⟩ | ⟨hl, he, heq⟩
  · rw [heq]
    refine ⟨fun h => absurd h (Option.some_ne_none _), fun h => ?_⟩
    exact absurd (lookup_some hl).2 (h.1 i (lookup_some hl).1)
  · rw [heq]
    refine ⟨fun h => absurd h (Option.some_ne_none _), fun h => ?_⟩
    exact absurd (h.2 j) (by simpa using List.find?_some he)
  · rw [heq]
    refine ⟨fun _ => ⟨lookup_none hl, fun i => ?_⟩, fun _ => rfl⟩
    simpa using List.find?_eq_none.mp he i (List.mem_finRange i)

omit [DecidableEq α] in
theorem Unique.update {t : Table α} (h : t.Unique) {a : α}
    (hnew : ∀ i, t.Active i → t.clients i ≠ a) (j : Slot) (now : ℤ) :
    Unique { pingTime := Function.update t.pingTime j now
             clients := Function.update t.clients j a } := by
  intro k l hk hl heq
  simp only [Active, Function.update_apply] at hk hl heq
  split_ifs at hk hl heq with hkj hlj hlj
  · rw [hkj, hlj]
  · exact absurd heq.symm (hnew l hl)
  · exact absurd heq (hnew k hk)
  · exact h k l hk hl heq

theorem Unique.enroll {t : Table α} (h : t.Unique) (a : α) (now : ℤ) :
    (t.enroll a now).1.Unique := by
  rcases t.enroll_cases a now with ⟨i, hl, heq⟩ | ⟨j, hl, -, heq⟩ | ⟨-, -, heq⟩
  · rw [heq]
    refine h.mono rfl fun k hk => ?_
    by_cases hki : k = i
    · rw [hki]
      exact (lookup_some hl).1
    · simpa [Active, Function.update_of_ne hki] using hk
  · rw [heq]
    exact h.update (lookup_none hl) j now
  · rw [heq]
    exact h

omit [DecidableEq α] in
theorem Unique.visit {t : Table α} (h : t.Unique) (i : Slot) (now : ℤ) :
    (t.visit i now).1.Unique := by
  unfold Table.visit
  split_ifs
  · refine h.mono rfl fun k hk => ?_
    have hki : k ≠ i := by
      rintro rfl
      exact hk (Function.update_self ..)
    simpa [Active, Function.update_of_ne hki] using hk
  · exact h
  · exact h

end Table

end Sysopy.DatagramServer
