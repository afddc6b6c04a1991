import Mathlib.Algebra.GroupWithZero.Nat
import Mathlib.Data.List.FinRange
import Sysopy.Foundation.CString
import Sysopy.Foundation.Tally

/-!
# The table of queues of the message-queue servers

Both message-queue servers keep the queues of their clients in an array of
`MAX_CLIENTS` entries, where -1 marks an empty slot, and look for an empty slot
with a loop that has no bound of its own. `occupied` counts the slots in use; it
is what the counter `num_clients` has to be compared with.
-/

namespace Sysopy.QueueChat

open Sysopy.Foundation

def maxClients : ℕ := 15

instance : NeZero maxClients := ⟨by decide⟩

abbrev Slot := Fin maxClients

def emptyClientSlot : ℤ := -1

/-- What a client calls itself: the C string in `client_id`. -/
abbrev Name := List Byte

/-- `my_msg_buf` as the server reads it: the strings in its fields. -/
structure Message where
  msgType : ℤ
  clientId : Name
  timestamp : List Byte
  msgBody : List Byte
deriving DecidableEq

/-- `"exit\n"` -/
def exitText : List Byte := [101, 120, 105, 116, 10]

/-- `"exit"`, at which the receiver ends its process -/
def exitWord : List Byte := [101, 120, 105, 116]

/-- A name or key that is given to a new queue takes none from another one. -/
theorem update_of_named {κ ν : Type*} [DecidableEq κ] {named : κ → Option ν} {x y : κ}
    {q q' : ν} (hx : named x = none) (hy : named y = some q') :
    Function.update named x (some q) y = some q' := by
  have hne : y ≠ x := by
    rintro rfl
    exact absurd (hy.symm.trans hx) (Option.some_ne_none q')
  exact (Function.update_of_ne hne ..).trans hy

abbrev QueueIds := Slot → ℤ

namespace QueueIds

def occupied (ids : QueueIds) : ℕ := tally (fun q => decide (q ≠ emptyClientSlot)) ids

/-- A queue the kernel gave out is no empty slot. -/
theorem natCast_ne_empty (q : ℕ) : (q : ℤ) ≠ emptyClientSlot := by
  unfold emptyClientSlot
  omega

theorem occupied_empty : occupied (fun _ => emptyClientSlot) = 0 :=
  tally_eq_zero fun _ => by simp

theorem occupied_fill {ids : QueueIds} {i : Slot} (h : ids i = emptyClientSlot) (q : ℕ) :
    occupied (Function.update ids i (q : ℤ)) = occupied ids + 1 := by
  have hmove := tally_update (fun q => decide (q ≠ emptyClientSlot)) ids i (q : ℤ)
  simpa [h, natCast_ne_empty, occupied] using hmove

theorem occupied_clear {ids : QueueIds} {i : Slot} (h : ids i ≠ emptyClientSlot) :
    occupied (Function.update ids i emptyClientSlot) + 1 = occupied ids := by
  have hmove := tally_update (fun q => decide (q ≠ emptyClientSlot)) ids i emptyClientSlot
  simpa [h, occupied] using hmove

theorem occupied_eq_max {ids : QueueIds} (h : ∀ i, ids i ≠ emptyClientSlot) :
    occupied ids = maxClients := by
  unfold occupied tally
  rw [Finset.filter_true_of_mem fun i _ => by simpa using h i, Finset.card_univ,
    Fintype.card_fin]

theorem exists_empty {ids : QueueIds} (h : occupied ids < maxClients) :
    ∃ i, ids i = emptyClientSlot := by
  by_contra hfull
  push Not at hfull
  exact absurd (occupied_eq_max hfull) h.ne

end QueueIds

end Sysopy.QueueChat
