import Mathlib.Data.List.Infix
import Sysopy.Foundation.Framing

/-!
# Pieces of a stream

A stream of messages with their terminators may be cut anywhere. Whatever a reader takes
for a message, up to the first terminator of what it was given, is a piece of one message:
a piece without the terminator does not reach from one message into the next.
-/

namespace Sysopy.Foundation

variable {α : Type*} {z : α} {P Q : List α → Prop} {bs m w : List α}

theorem infix_append_cons_of_notMem {a b : List α} (hz : z ∉ w) (h : w <:+: a ++ z :: b) :
    w <:+: a ∨ w <:+: b := by
  rcases List.infix_append_iff.mp h with h | h | ⟨l, r, rfl, hl, hr⟩
  · exact Or.inl h
  · rcases List.infix_cons_iff.mp h with hprefix | h
    · cases w with
      | nil => exact Or.inr (List.nil_infix)
      | cons x w =>
          obtain ⟨rfl, -⟩ := List.cons_prefix_cons.mp hprefix
          exact absurd List.mem_cons_self hz
    · exact Or.inr h
  · cases r with
    | nil =>
        rw [List.append_nil]
        exact Or.inl hl.isInfix
    | cons x r =>
        obtain ⟨rfl, -⟩ := List.cons_prefix_cons.mp hr
        exact absurd (List.mem_append_right l List.mem_cons_self) hz

/-- The pieces of a stream without the terminator have a property, and its last message is
complete. -/
structure Pieces (z : α) (P : List α → Prop) (bs : List α) : Prop where
  piece : ∀ w, w <:+: bs → z ∉ w → P w
  complete : bs = [] ∨ ∃ c, bs = c ++ [z]

namespace Pieces

theorem nil (h : P []) : Pieces z P [] where
  piece _ hw _ := List.infix_nil.mp hw ▸ h
  complete := Or.inl rfl

theorem mono (h : Pieces z P bs) (hPQ : ∀ w, P w → Q w) : Pieces z Q bs where
  piece w hw hz := hPQ w (h.piece w hw hz)
  complete := h.complete

theorem drop (h : Pieces z P bs) (k : ℕ) : Pieces z P (bs.drop k) where
  piece w hw hz := h.piece w (hw.trans (List.drop_suffix k bs).isInfix) hz
  complete := by
    rcases h.complete with rfl | ⟨c, rfl⟩
    · exact Or.inl List.drop_nil
    · rcases Nat.le_total k c.length with hk | hk
      · exact Or.inr ⟨c.drop k, List.drop_append_of_le_length hk⟩
      · obtain ⟨d, rfl⟩ := Nat.exists_eq_add_of_le hk
        rw [List.drop_append, List.drop_of_length_le (Nat.le_add_right _ d), List.nil_append,
          Nat.add_sub_cancel_left]
        cases d with
        | zero => exact Or.inr ⟨[], rfl⟩
        | succ d => exact Or.inl List.drop_nil

theorem append (h : Pieces z P bs) (hm : ∀ w, w <:+: m → P w) :
    Pieces z P (bs ++ terminated z m) where
  piece w hw hz := by
    have hlast : w <:+: m ++ z :: [] → P w := fun hw => by
      rcases infix_append_cons_of_notMem hz hw with hw | hw
      · exact hm w hw
      · exact List.infix_nil.mp hw ▸ hm [] List.nil_infix
    rcases h.complete with rfl | ⟨c, rfl⟩
    · exact hlast hw
    · rw [List.append_assoc, List.singleton_append] at hw
      rcases infix_append_cons_of_notMem hz hw with hw | hw
      · exact h.piece w (hw.trans (List.prefix_append c [z]).isInfix) hz
      · exact hlast hw
  complete := Or.inr ⟨bs ++ m, (List.append_assoc bs m [z]).symm⟩

theorem append_flatten {ps : List (List α)} (h : Pieces z P bs)
    (hps : ∀ p ∈ ps, ∃ m, p = terminated z m ∧ ∀ w, w <:+: m → P w) :
    Pieces z P (bs ++ ps.flatten) := by
  induction ps generalizing bs with
  | nil => rwa [List.flatten_nil, List.append_nil]
  | cons p ps ih =>
      obtain ⟨m, rfl, hm⟩ := hps p List.mem_cons_self
      rw [List.flatten_cons, ← List.append_assoc]
      exact ih (h.append hm) fun q hq => hps q (List.mem_cons_of_mem _ hq)

theorem beforeTerminator_take [DecidableEq α] (h : Pieces z P bs) (k : ℕ) :
    P (beforeTerminator z (bs.take k)) :=
  h.piece _ ((List.takeWhile_prefix _).trans (List.take_prefix k bs)).isInfix
    (notMem_beforeTerminator _)

/-- Where the pieces are short, a long part of the stream has a terminator. -/
theorem mem_take {n k : ℕ} (h : Pieces z P bs) (hP : ∀ w, P w → w.length < n)
    (hlength : n ≤ (bs.take k).length) : z ∈ bs.take k := by
  by_contra hz
  exact absurd (hP _ (h.piece _ (List.take_prefix k bs).isInfix hz)) (Nat.not_lt.mpr hlength)

end Pieces

end Sysopy.Foundation
