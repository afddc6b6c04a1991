import Sysopy.ChatClient.Client

/-!
# What one run of the handler sends

`sig_handle` copies the waiting messages one by one, and each turn of the copy loop
clears cell 1. The cell of the turn was meant: with two messages or more the second one
is cleared before it is copied, and an empty string is sent in its place.

## Sections

* §1 the copies
* §2 the handler by itself
* §3 which buffers are flushed
-/

namespace Sysopy.ChatClient

open Sysopy.Foundation

variable {myId : Message} {messages : ℕ → Message} {s t u : Client}
  {tr : List (Client × Action)}

/-! ## §1  The copies -/

theorem copyWaiting_snd (n i : ℕ) :
    (copyWaiting messages n).2 i = if i = 1 ∧ 0 < n then [] else messages i := by
  induction n with
  | zero => simp [copyWaiting]
  | succ n ih =>
      show Function.update (copyWaiting messages n).2 1 [] i = _
      by_cases hi : i = 1
      · subst hi
        simp
      · rw [Function.update_of_ne hi, ih]
        simp [hi]

/-- Cell 1 has been cleared when its turn comes. -/
theorem copyWaiting_fst (n : ℕ) :
    (copyWaiting messages n).1 = (List.range n).map fun i => if i = 1 then [] else messages i := by
  induction n with
  | zero => rfl
  | succ n ih =>
      show (copyWaiting messages n).1 ++ [(copyWaiting messages n).2 n] = _
      rw [ih, copyWaiting_snd, List.range_succ, List.map_append, List.map_singleton]
      by_cases hn : n = 1
      · subst hn
        simp
      · simp [hn]

theorem copyWaiting_fst_eq_iff {n : ℕ} (hn : 1 ≤ n) :
    (copyWaiting messages n).1 = (List.range n).map messages ↔ n = 1 ∨ messages 1 = [] := by
  rw [copyWaiting_fst, List.map_inj_left]
  constructor
  · intro h
    by_cases h₁ : n = 1
    · exact Or.inl h₁
    · have hcell := h 1 (List.mem_range.mpr (by omega))
      rw [if_pos rfl] at hcell
      exact Or.inr hcell.symm
  · intro h i hi
    rw [List.mem_range] at hi
    split_ifs with hi₁
    · subst hi₁
      rcases h with rfl | h
      · exact absurd hi (Nat.lt_irrefl 1)
      · exact h.symm
    · rfl

/-! ## §2  The handler by itself -/

/-- What the handler that was started in `s` copies. -/
def Client.copied (s : Client) : List Message := (copyWaiting s.messages s.messagesWaiting).1

/-- Where the handler that was started in `s` is in `t`, and what it has sent. -/
def Flushing (s : Client) (tr : List (Client × Action)) (t : Client) : Prop :=
  match t.handler with
  | .off => t.messagesWaiting = 0 ∧ observe Client.sent tr = s.copied
  | .test | .read =>
      t.messages = s.messages ∧ t.messagesWaiting = s.messagesWaiting ∧
        observe Client.sent tr = []
  | .lock num | .copy num =>
      t.messages = s.messages ∧ t.messagesWaiting = s.messagesWaiting ∧
        num = s.messagesWaiting ∧ observe Client.sent tr = []
  | .reset num cpy =>
      num = s.messagesWaiting ∧ cpy = s.copied ∧ observe Client.sent tr = []
  | .unlock num cpy =>
      t.messagesWaiting = 0 ∧ num = s.messagesWaiting ∧ cpy = s.copied ∧
        observe Client.sent tr = []
  | .send num cpy i =>
      t.messagesWaiting = 0 ∧ num = s.messagesWaiting ∧ cpy = s.copied ∧ i ≤ num ∧
        observe Client.sent tr = cpy.take i

theorem Flushing.step (h : Flushing s tr t) (hwaiting : 1 ≤ s.messagesWaiting)
    (hnext : t.sigHandle = some u) : Flushing s (tr ++ [(t, .handler)]) u := by
  unfold Flushing at h
  cases handlerStep hnext with
  | nothing hpc hzero =>
      simp only [hpc] at h
      omega
  | test hpc =>
      simp only [hpc] at h
      obtain ⟨hmessages, hcount, hsent⟩ := h
      exact ⟨hmessages, hcount, by simp [hsent, Client.sent, hpc]⟩
  | read hpc =>
      simp only [hpc] at h
      obtain ⟨hmessages, hcount, hsent⟩ := h
      exact ⟨hmessages, hcount, hcount, by simp [hsent, Client.sent, hpc]⟩
  | lock num hpc =>
      simp only [hpc] at h
      obtain ⟨hmessages, hcount, hnum, hsent⟩ := h
      exact ⟨hmessages, hcount, hnum, by simp [hsent, Client.sent, hpc]⟩
  | copy num hpc =>
      simp only [hpc] at h
      obtain ⟨hmessages, hcount, hnum, hsent⟩ := h
      refine ⟨hnum, ?_, by simp [hsent, Client.sent, hpc]⟩
      rw [hmessages, hcount]
      rfl
  | reset num cpy hpc =>
      simp only [hpc] at h
      obtain ⟨hnum, hcpy, hsent⟩ := h
      exact ⟨rfl, hnum, hcpy, by simp [hsent, Client.sent, hpc]⟩
  | unlock num cpy hpc =>
      simp only [hpc] at h
      obtain ⟨hzero, hnum, hcpy, hsent⟩ := h
      exact ⟨hzero, hnum, hcpy, Nat.zero_le _, by simp [hsent, Client.sent, hpc]⟩
  | send num cpy i hpc hlt =>
      simp only [hpc] at h
      obtain ⟨hzero, hnum, hcpy, -, hsent⟩ := h
      refine ⟨hzero, hnum, hcpy, hlt, ?_⟩
      rw [observe_snoc, hsent, List.take_add_one]
      simp [Client.sent, hpc, hlt]
  | sent num cpy i hpc hle =>
      simp only [hpc] at h
      obtain ⟨hzero, hnum, hcpy, hi, hsent⟩ := h
      have hlength : cpy.length = num := by
        rw [hcpy, hnum]
        exact length_copyWaiting _ _
      refine ⟨hzero, ?_⟩
      rw [observe_snoc, hsent, ← hcpy, List.take_of_length_le (by omega)]
      simp [Client.sent, hpc, Nat.not_lt.mpr hle]

/-- Steps of the handler alone lead from `s` to its return. -/
def Returns (myId : Message) (messages : ℕ → Message) (s : Client) : Prop :=
  ∃ tr t, (client myId messages).Path s tr t ∧ (∀ x ∈ tr, x.2 = .handler) ∧ t.handler = .off

theorem Returns.cons (hnext : s.sigHandle = some t) (h : Returns myId messages t) :
    Returns myId messages s := by
  obtain ⟨tr, u, hpath, hall, hoff⟩ := h
  have hstep : (client myId messages).next s .handler = some t := hnext
  refine ⟨_, u, .cons hstep hpath, ?_, hoff⟩
  intro x hx
  rcases List.mem_cons.mp hx with rfl | hx
  · rfl
  · exact hall x hx

theorem returns_of_send {num : ℕ} {cpy : List Message} (hnum : num ≤ cpy.length) (left : ℕ) :
    ∀ {s : Client} {i : ℕ}, s.handler = .send num cpy i → i + left = num →
      Returns myId messages s := by
  induction left with
  | zero =>
      intro s i hpc hi
      have hnext : s.sigHandle = some { s with handler := .off } := by
        rw [Client.sigHandle, hpc]
        exact if_neg (by omega)
      exact .cons hnext ⟨[], _, .nil, by simp, rfl⟩
  | succ left ih =>
      intro s i hpc hi
      have hnext : s.sigHandle = some { s with handler := .send num cpy (i + 1) } := by
        rw [Client.sigHandle, hpc]
        exact (if_pos (by omega)).trans (if_pos (by omega))
      exact .cons hnext (ih rfl (by omega))

theorem returns_of_test (htest : s.handler = .test) (hfree : s.mutex = none)
    (hwaiting : 1 ≤ s.messagesWaiting) : Returns myId messages s := by
  have hread : s.sigHandle = some { s with handler := .read } := by
    rw [Client.sigHandle, htest]
    exact if_neg (by omega)
  refine .cons hread (.cons (t := { s with handler := .lock s.messagesWaiting }) rfl ?_)
  refine .cons (t := { s with mutex := some .main, handler := .copy s.messagesWaiting })
    (if_pos hfree) (.cons rfl (.cons rfl (.cons rfl ?_)))
  exact returns_of_send (length_copyWaiting _ _).ge s.messagesWaiting rfl (Nat.zero_add _)

/-! ## §3  Which buffers are flushed -/

/-- One run of the handler by itself sends the waiting messages and none is left. -/
def Flushes (myId : Message) (messages : ℕ → Message) (s : Client) : Prop :=
  ∃ tr t, (client myId messages).Path s tr t ∧ (∀ x ∈ tr, x.2 = .handler) ∧ t.handler = .off ∧
    observe Client.sent tr = (List.range s.messagesWaiting).map s.messages ∧
    t.messagesWaiting = 0

theorem sent_of_path (htest : s.handler = .test) (hwaiting : 1 ≤ s.messagesWaiting)
    (hpath : (client myId messages).Path s tr t) (hall : ∀ x ∈ tr, x.2 = .handler)
    (hoff : t.handler = .off) :
    t.messagesWaiting = 0 ∧ observe Client.sent tr = s.copied := by
  have hflushing : Flushing s tr t := by
    refine hpath.invariant_of_steps (C := fun _ a => a = .handler) hall ?_ ?_
    · unfold Flushing
      rw [htest]
      exact ⟨rfl, rfl, rfl⟩
    · rintro tr t a u h rfl hnext
      exact h.step hwaiting hnext
  unfold Flushing at hflushing
  rwa [hoff] at hflushing

theorem Flushes.copied (htest : s.handler = .test) (hwaiting : 1 ≤ s.messagesWaiting)
    (h : Flushes myId messages s) :
    s.copied = (List.range s.messagesWaiting).map s.messages := by
  obtain ⟨tr, t, hpath, hall, hoff, hsent, -⟩ := h
  exact (sent_of_path htest hwaiting hpath hall hoff).2.symm.trans hsent

/-- **A run of the handler keeps every message exactly if one message waits**, or the
second one is empty. -/
theorem flushes_iff (htest : s.handler = .test) (hfree : s.mutex = none)
    (hwaiting : 1 ≤ s.messagesWaiting) :
    Flushes myId messages s ↔ s.messagesWaiting = 1 ∨ s.messages 1 = [] := by
  rw [← copyWaiting_fst_eq_iff hwaiting]
  constructor
  · exact Flushes.copied htest hwaiting
  · intro heq
    obtain ⟨tr, t, hpath, hall, hoff⟩ := returns_of_test htest hfree hwaiting
    obtain ⟨hzero, hsent⟩ := sent_of_path htest hwaiting hpath hall hoff
    exact ⟨tr, t, hpath, hall, hoff, hsent.trans heq, hzero⟩

/-- What the threads do for a line: it is read, appended and signalled. -/
def appendLine (line : Message) : List Action := .getline line :: List.replicate 6 .stdin

/-- One line waits when the signal is delivered. -/
theorem flushes_one : ∃ tr s, (client [105] fun _ => []).Run tr s ∧
    s.messagesWaiting = 1 ∧ Flushes [105] (fun _ => []) s := by
  have hrun := (client [105] fun _ => []).run_of_replay (appendLine [97] ++ [.signal]) rfl
  exact ⟨_, _, hrun, rfl, (flushes_iff rfl rfl (by decide)).mpr (Or.inl rfl)⟩

/-- Two lines wait: the second one is lost. -/
theorem second_message_is_cleared : ∃ tr s, (client [105] fun _ => []).Run tr s ∧
    s.handler = .test ∧ s.mutex = none ∧ s.messagesWaiting = 2 ∧
    (List.range 2).map s.messages = [[105, 58, 10, 97], [105, 58, 10, 98]] ∧
    s.copied = [[105, 58, 10, 97], []] ∧ ¬Flushes [105] (fun _ => []) s := by
  have hrun := (client [105] fun _ => []).run_of_replay
    (appendLine [97] ++ appendLine [98] ++ [.signal]) rfl
  refine ⟨_, _, hrun, rfl, rfl, rfl, by decide, by decide, fun h => ?_⟩
  exact absurd (h.copied rfl (by decide)) (by decide)

end Sysopy.ChatClient
