import Mathlib.Data.List.Basic
import Mathlib.Data.List.TakeWhile
import Mathlib.Tactic.Common

/-!
# Terminator framing

A stream of messages, each followed by a terminator `z` that occurs in none of
them. `wire` is the stream and determines the messages (`wire_injective`). A
relay that cuts the stream into chunks and passes on of each chunk only what
comes before its first terminator, followed by one terminator, reproduces the
stream only when every chunk is one whole message (`relayed_iff_framed`).
-/

namespace Sysopy.Foundation

variable {α : Type*} [DecidableEq α] {z : α}

def terminated (z : α) (m : List α) : List α := m ++ [z]

def wire (z : α) (ms : List (List α)) : List α := (ms.map (terminated z)).flatten

def beforeTerminator (z : α) (c : List α) : List α := c.takeWhile (· ≠ z)

omit [DecidableEq α] in
@[simp] theorem wire_nil : wire z [] = [] := rfl

omit [DecidableEq α] in
@[simp] theorem wire_cons (m : List α) (ms : List (List α)) :
    wire z (m :: ms) = m ++ z :: wire z ms := by
  simp [wire, terminated]

theorem notMem_beforeTerminator (c : List α) : z ∉ beforeTerminator z c := by
  intro hz
  simpa using List.mem_takeWhile_imp hz

theorem beforeTerminator_append_left {m : List α} (hm : z ∉ m) (t : List α) :
    beforeTerminator z (m ++ t) = m ++ beforeTerminator z t := by
  unfold beforeTerminator
  rw [List.takeWhile_append_of_pos fun a ha => by
    simpa using fun h : a = z => hm (h ▸ ha)]

@[simp] theorem beforeTerminator_cons_self (t : List α) : beforeTerminator z (z :: t) = [] := by
  simp [beforeTerminator]

theorem beforeTerminator_append {m : List α} (hm : z ∉ m) (t : List α) :
    beforeTerminator z (m ++ z :: t) = m := by
  rw [beforeTerminator_append_left hm, beforeTerminator_cons_self, List.append_nil]

theorem beforeTerminator_cons_eq_nil {a : α} {t : List α} :
    beforeTerminator z (a :: t) = [] ↔ a = z := by
  simp [beforeTerminator]

theorem exists_eq_beforeTerminator_append {c : List α} (hz : z ∈ c) :
    ∃ r, c = beforeTerminator z c ++ z :: r := by
  obtain ⟨m, r, rfl, hm⟩ := List.eq_append_cons_of_mem hz
  exact ⟨r, by rw [beforeTerminator_append hm]⟩

theorem beforeTerminator_eq_self {c : List α} (hz : z ∉ c) : beforeTerminator z c = c :=
  List.takeWhile_eq_self_iff.mpr fun a ha => by simpa using fun h : a = z => hz (h ▸ ha)

theorem beforeTerminator_append_cons (c rest : List α) :
    beforeTerminator z (c ++ z :: rest) = beforeTerminator z c := by
  by_cases hz : z ∈ c
  · obtain ⟨m, r, rfl, hm⟩ := List.eq_append_cons_of_mem hz
    rw [List.append_assoc, List.cons_append, beforeTerminator_append hm, beforeTerminator_append hm]
  · rw [beforeTerminator_append hz, beforeTerminator_eq_self hz]

/-- A text with a terminator behind it begins with what stands before the first one. -/
theorem exists_beforeTerminator_append (c rest : List α) :
    ∃ rest', c ++ z :: rest = beforeTerminator z c ++ z :: rest' := by
  have hz : z ∈ c ++ z :: rest := List.mem_append_right c List.mem_cons_self
  obtain ⟨r, hr⟩ := exists_eq_beforeTerminator_append hz
  rw [beforeTerminator_append_cons] at hr
  exact ⟨r, hr⟩

/-- Of a message with its terminator, a bounded reader gets what fits. -/
theorem beforeTerminator_take {m : List α} (hm : z ∉ m) (t : List α) (n : ℕ) :
    beforeTerminator z ((m ++ z :: t).take n) = m.take n := by
  rcases Nat.le_or_ge n m.length with hn | hn
  · rw [List.take_append_of_le_length hn]
    exact beforeTerminator_eq_self fun hz => hm (List.mem_of_mem_take hz)
  · obtain ⟨k, rfl⟩ := Nat.exists_eq_add_of_le hn
    rw [List.take_length_add_append, List.take_of_length_le hn]
    cases k with
    | zero => rw [List.take_zero, List.append_nil, beforeTerminator_eq_self hm]
    | succ k => rw [List.take_succ_cons, beforeTerminator_append hm]

theorem wire_injective : ∀ {xs ys : List (List α)}, (∀ m ∈ xs, z ∉ m) → (∀ m ∈ ys, z ∉ m) →
    wire z xs = wire z ys → xs = ys
  | [], [], _, _, _ => rfl
  | [], y :: ys, _, _, h => by simp at h
  | x :: xs, [], _, _, h => by simp at h
  | x :: xs, y :: ys, hx, hy, h => by
      rw [wire_cons, wire_cons] at h
      have hhead := congrArg (beforeTerminator z) h
      rw [beforeTerminator_append (hx x List.mem_cons_self),
        beforeTerminator_append (hy y List.mem_cons_self)] at hhead
      subst hhead
      have htail := List.cons.inj (List.append_cancel_left h)
      rw [wire_injective (fun m hm => hx m (List.mem_cons_of_mem _ hm))
        (fun m hm => hy m (List.mem_cons_of_mem _ hm)) htail.2]

/-! ## Chunks

The relay may lose what follows a terminator inside a chunk and may add a
terminator to a chunk without one. Counting the other symbols shows that the
two cannot compensate. -/

theorem countP_wire (ms : List (List α)) :
    (wire z ms).countP (· ≠ z) = ms.flatten.countP (· ≠ z) := by
  induction ms with
  | nil => rfl
  | cons m ms ih =>
      rw [wire_cons, List.flatten_cons, List.countP_append, List.countP_append,
        List.countP_cons_of_neg (by simp), ih]

theorem countP_beforeTerminator_le (cs : List (List α)) :
    (cs.map (beforeTerminator z)).flatten.countP (· ≠ z) ≤ cs.flatten.countP (· ≠ z) := by
  induction cs with
  | nil => exact le_rfl
  | cons c cs ih =>
      simp only [List.map_cons, List.flatten_cons, List.countP_append]
      exact Nat.add_le_add ((List.takeWhile_sublist _).countP_le) ih

/-- If the chunks carry the messages one by one, what comes behind them is nothing, and each
chunk is one message with its terminator, or it is the terminator of the last one. -/
theorem chunks_eq_of_beforeTerminator {rest : List α} : ∀ (cs : List (List α)),
    (∀ c ∈ cs, beforeTerminator z c ≠ []) →
    cs.flatten ++ rest = wire z (cs.map (beforeTerminator z)) →
    (rest = [] ∧ cs = (cs.map (beforeTerminator z)).map (terminated z)) ∨
    (rest = [z] ∧ ∃ ms m, cs.map (beforeTerminator z) = ms ++ [m] ∧
      cs = ms.map (terminated z) ++ [m])
  | [], _, hflat => Or.inl ⟨hflat, rfl⟩
  | c :: cs, hne, hflat => by
      have hnext : cs ≠ [] → ∀ t, cs.flatten ++ rest ≠ z :: t := by
        intro hcs t ht
        match cs, hcs, hne, ht with
        | c' :: cs', _, hne, ht =>
            have hc' := hne c' (by simp)
            match c', hc', ht with
            | a :: c', hc', ht =>
                have ha : a = z := by
                  simpa using congrArg List.head? ht
                exact hc' (by simp [beforeTerminator, ha])
      rw [List.flatten_cons, List.map_cons, wire_cons, List.append_assoc] at hflat
      by_cases hz : z ∈ c
      · obtain ⟨r, hr⟩ := exists_eq_beforeTerminator_append hz
        have htail : r ++ (cs.flatten ++ rest) = wire z (cs.map (beforeTerminator z)) := by
          have h : beforeTerminator z c ++ z :: (r ++ (cs.flatten ++ rest)) =
              beforeTerminator z c ++ z :: wire z (cs.map (beforeTerminator z)) := by
            rw [← hflat, ← List.cons_append, ← List.append_assoc, ← hr]
          exact (List.cons.inj (List.append_cancel_left h)).2
        -- what follows the terminator inside the chunk would be lost
        have hcount : r.countP (· ≠ z) = 0 := by
          have h1 := congrArg (List.countP (· ≠ z)) htail
          rw [List.countP_append, List.countP_append, countP_wire] at h1
          have h2 := countP_beforeTerminator_le (z := z) cs
          omega
        have hrnil : r = [] := by
          match r, cs, hne, htail, hcount with
          | [], _, _, _, _ => rfl
          | a :: r, [], _, htail, _ => simp at htail
          | a :: r, c' :: cs', hne, htail, hcount =>
              have ha : a = z := by
                simpa using List.countP_eq_zero.mp hcount a (by simp)
              obtain ⟨b, m, hb⟩ := List.exists_cons_of_ne_nil (hne c' (by simp))
              have hab : a = b := by
                rw [List.map_cons, wire_cons, hb] at htail
                simpa using congrArg List.head? htail
              exact absurd (hb ▸ List.mem_cons_self)
                (ha ▸ hab ▸ notMem_beforeTerminator (z := a) c')
        rw [hrnil] at hr htail
        have hterminated : c = terminated z (beforeTerminator z c) := hr
        rcases chunks_eq_of_beforeTerminator cs
          (fun c' hc' => hne c' (List.mem_cons_of_mem _ hc')) htail with
          ⟨hrest, hcs⟩ | ⟨hrest, ms, m, hms, hcs⟩
        · refine Or.inl ⟨hrest, ?_⟩
          rw [List.map_cons, List.map_cons, ← hcs]
          exact congrArg (· :: cs) hr
        · refine Or.inr ⟨hrest, beforeTerminator z c :: ms, m, ?_, ?_⟩
          · rw [List.map_cons, hms, List.cons_append]
          · rw [List.map_cons, List.cons_append, ← hcs, ← hterminated]
      · -- a chunk without terminator leaves it to the next chunk, which then starts with it
        rw [beforeTerminator_eq_self hz] at hflat
        have hstart := List.append_cancel_left hflat
        by_cases hcs : cs = []
        · subst hcs
          refine Or.inr ⟨hstart, [], c, ?_, rfl⟩
          rw [List.map_cons, beforeTerminator_eq_self hz]
          rfl
        · exact absurd hstart (hnext hcs _)

/-- **A chunk-wise relay is exact only on whole messages.** If the last bytes never come to it,
they can only be the terminator of the last message. -/
theorem relayed_iff_framed {ms cs : List (List α)} {rest : List α}
    (hms : ∀ m ∈ ms, m ≠ [] ∧ z ∉ m) (hcut : cs.flatten ++ rest = wire z ms) :
    wire z (cs.map (beforeTerminator z)) = wire z ms ↔
      (rest = [] ∧ cs = ms.map (terminated z)) ∨
      (rest = [z] ∧ ∃ ms' m, ms = ms' ++ [m] ∧ cs = ms'.map (terminated z) ++ [m]) := by
  have hself : ∀ ms : List (List α), (∀ m ∈ ms, z ∉ m) →
      (ms.map (terminated z)).map (beforeTerminator z) = ms := by
    intro ms hms
    rw [List.map_map]
    refine (List.map_congr_left fun m hm => ?_).trans (List.map_id ms)
    exact beforeTerminator_append (hms m hm) []
  constructor
  · intro h
    have hmap : cs.map (beforeTerminator z) = ms := by
      refine wire_injective ?_ (fun m hm => (hms m hm).2) h
      intro m hm
      obtain ⟨c, -, rfl⟩ := List.mem_map.mp hm
      exact notMem_beforeTerminator c
    rw [← hmap] at hcut ⊢
    refine chunks_eq_of_beforeTerminator cs ?_ hcut
    intro c hc
    exact (hms _ (hmap ▸ List.mem_map_of_mem hc)).1
  · rintro (⟨-, rfl⟩ | ⟨-, ms', m, rfl, rfl⟩)
    · rw [hself ms fun m hm => (hms m hm).2]
    · rw [List.map_append, hself ms' fun m hm => (hms m (List.mem_append_left _ hm)).2,
        List.map_singleton,
        beforeTerminator_eq_self (hms m (List.mem_append_right _ List.mem_cons_self)).2]

end Sysopy.Foundation
