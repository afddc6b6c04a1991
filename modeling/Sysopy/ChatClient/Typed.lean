import Mathlib.Data.List.Forall2
import Sysopy.ChatClient.Delivery
import Sysopy.ChatClient.Flush

/-!
# What a client sends was typed

A message goes from the stdin thread through a cell of the buffer and a copy of the handler
to the socket. On the way it may be dropped, and in cell 1 it may be cleared, but nothing
changes places and nothing is made up.

## Sections

* §1 messages that are dropped or cleared
* §2 the messages on their way
* §3 what is sent was typed
-/

namespace Sysopy.ChatClient

open Sysopy.Foundation

variable {myId : Message} {messages : ℕ → Message} {s t : Client} {ms ms' ts ts' : List Message}

/-! ## §1  Messages that are dropped or cleared -/

/-- The message, or what is left of it in a cleared cell. -/
def WholeOrEmpty (m t : Message) : Prop := m = t ∨ m = []

instance : Std.Refl WholeOrEmpty := ⟨fun _ => Or.inl rfl⟩

instance : IsTrans Message WholeOrEmpty := by
  refine ⟨?_⟩
  rintro a b c (rfl | rfl) hbc
  · exact hbc
  · exact Or.inr rfl

/-- In their order some of the messages `ts`, each of them whole or cleared. -/
def Remains (ms ts : List Message) : Prop := List.SublistForall₂ WholeOrEmpty ms ts

theorem Remains.refl (ms : List Message) : Remains ms ms :=
  (List.Sublist.refl ms).sublistForall₂

theorem Remains.trans (h : Remains ms ts) (h' : Remains ts ts') : Remains ms ts' :=
  List.SublistForall₂.is_trans.trans _ _ _ h h'

theorem Remains.append (h : Remains ms ts) (h' : Remains ms' ts') :
    Remains (ms ++ ms') (ts ++ ts') := by
  induction h with
  | nil =>
      rename_i l
      induction l with
      | nil => exact h'
      | cons t l ih => exact .cons_right ih
  | cons hm _ ih => exact .cons hm ih
  | cons_right _ ih => exact .cons_right ih

theorem remains_of_sublist (h : ms.Sublist ts) : Remains ms ts := h.sublistForall₂

theorem remains_of_forall₂ (h : List.Forall₂ WholeOrEmpty ms ts) : Remains ms ts :=
  List.sublistForall₂_iff.mpr ⟨ts, h, List.Sublist.refl ts⟩

theorem Remains.mem (h : Remains ms ts) {m : Message} (hm : m ∈ ms) : m = [] ∨ m ∈ ts := by
  induction h with
  | nil => exact absurd hm List.not_mem_nil
  | cons hwhole _ ih =>
      rcases List.mem_cons.mp hm with rfl | hm
      · rcases hwhole with rfl | rfl
        · exact Or.inr List.mem_cons_self
        · exact Or.inl rfl
      · exact (ih hm).imp_right (List.mem_cons_of_mem _)
  | cons_right _ ih => exact (ih hm).imp_right (List.mem_cons_of_mem _)

/-! ## §2  The messages on their way -/

/-- The message of a line that is read. -/
def typed (myId : Message) : Client → Action → List Message
  | _, .getline line => [withHeader myId line]
  | _, _ => []

/-- The message that the stdin thread has and has not counted. -/
def StdinPc.msg : StdinPc → List Message
  | .lock msg | .resize msg | .append msg | .count msg => [msg]
  | _ => []

def Client.cells (s : Client) : List Message := (List.range s.messagesWaiting).map s.messages

/-- The messages that the handler has still to send, and those that wait. While it has not
reset the counter, the copies stand for the cells. -/
def Client.unsent (s : Client) : List Message :=
  match s.handler with
  | .reset num cpy => cpy.take num
  | .unlock num cpy => cpy.take num ++ s.cells
  | .send num cpy i => (cpy.take num).drop i ++ s.cells
  | _ => s.cells

/-- What has been sent and what may still be sent remains of what was typed. -/
structure Carried (myId : Message) (tr : List (Client × Action)) (s : Client) : Prop where
  sound : Sound s
  counted : ∀ msg, s.stdin = .count msg → s.messages s.messagesWaiting = msg
  remains : Remains (observe Client.sent tr ++ s.unsent ++ s.stdin.msg) (observe (typed myId) tr)

theorem remains_copyWaiting (messages : ℕ → Message) (num n : ℕ) :
    Remains ((copyWaiting messages n).1.take num) ((List.range n).map messages) := by
  refine (remains_of_sublist (List.take_sublist num _)).trans (remains_of_forall₂ ?_)
  rw [copyWaiting_fst, List.forall₂_map_left_iff, List.forall₂_map_right_iff,
    List.forall₂_same]
  intro i _
  split_ifs
  · exact Or.inr rfl
  · exact Or.inl rfl

/-- A step that types nothing leaves of the messages on their way what remains of them. -/
theorem Carried.of_remains {tr : List (Client × Action)} {a : Action} (h : Carried myId tr s)
    (ht : Sound t) (htyped : typed myId s a = [])
    (hcounted : ∀ msg, t.stdin = .count msg → t.messages t.messagesWaiting = msg)
    (hremains : Remains (s.sent a ++ t.unsent ++ t.stdin.msg) (s.unsent ++ s.stdin.msg)) :
    Carried myId (tr ++ [(s, a)]) t := by
  refine ⟨ht, hcounted, ?_⟩
  rw [observe_snoc, observe_snoc, htyped, List.append_nil]
  refine Remains.trans ?_ h.remains
  rw [List.append_assoc, List.append_assoc, List.append_assoc, ← List.append_assoc (s.sent a)]
  exact (Remains.refl _).append hremains

theorem cells_succ (messages : ℕ → Message) (n : ℕ) :
    (List.range (n + 1)).map messages = (List.range n).map messages ++ [messages n] := by
  rw [List.range_succ, List.map_append, List.map_singleton]

/-- The cell behind those that wait does not matter. -/
theorem unsent_append (s : Client) (msg : Message) (pc : StdinPc) : Client.unsent { s with
    messages := Function.update s.messages s.messagesWaiting msg, stdin := pc } = s.unsent := by
  have hcells : (List.range s.messagesWaiting).map
      (Function.update s.messages s.messagesWaiting msg) = s.cells := by
    refine List.map_congr_left fun i hi => ?_
    exact Function.update_of_ne (Nat.ne_of_lt (List.mem_range.mp hi)) ..
  unfold Client.unsent Client.cells at *
  rw [hcells]

/-- Where the stdin thread counts, the handler is not in its critical section. -/
theorem Sound.holds_handler (hs : Sound s) (h : s.stdin.holds = true) :
    s.handler.holds = false := by
  rw [← Bool.not_eq_true, ← hs.main, hs.io.mpr h]
  simp

theorem Sound.ne_count (hs : Sound s) (h : s.handler.holds = true) (msg : Message) :
    s.stdin ≠ .count msg := by
  intro heq
  have hfree := hs.holds_handler (by rw [heq]; rfl)
  exact Bool.noConfusion (hfree.symm.trans h)

theorem unsent_count (hs : s.handler.holds = false) {n : ℕ} (hn : n = s.messagesWaiting + 1)
    {pc : StdinPc} : Client.unsent { s with messagesWaiting := n, stdin := pc } =
      s.unsent ++ [s.messages s.messagesWaiting] := by
  subst hn
  unfold Client.unsent Client.cells
  cases hpc : s.handler with
  | copy num => exact Bool.noConfusion (hs.symm.trans (congrArg HandlerPc.holds hpc))
  | reset num cpy => exact Bool.noConfusion (hs.symm.trans (congrArg HandlerPc.holds hpc))
  | unlock num cpy => exact Bool.noConfusion (hs.symm.trans (congrArg HandlerPc.holds hpc))
  | send num cpy i => rw [List.append_assoc, ← cells_succ]
  | _ => exact cells_succ _ _

theorem Carried.stdinRead {tr : List (Client × Action)} (h : Carried myId tr s)
    (hn : s.stdinRead = some t) : Carried myId (tr ++ [(s, .stdin)]) t := by
  have ht := h.sound.stdinRead hn
  cases stdinStep hn with
  | append msg hpc =>
      refine h.of_remains ht rfl ?_ ?_
      · rintro m heq
        obtain rfl := StdinPc.count.inj heq
        exact Function.update_self ..
      · rw [unsent_append, hpc]
        exact Remains.refl _
  | count msg hpc =>
      have hfree := h.sound.holds_handler (by rw [hpc]; rfl)
      refine h.of_remains ht rfl (fun _ heq => StdinPc.noConfusion heq) ?_
      rw [unsent_count hfree rfl, h.counted msg hpc, hpc]
      simp only [StdinPc.msg, List.append_nil]
      exact Remains.refl _
  | lock msg hpc | enlarge msg hpc | resize msg hpc | unlock hpc | kill hpc =>
      refine h.of_remains ht rfl (fun _ heq => StdinPc.noConfusion heq) ?_
      rw [hpc]
      exact Remains.refl _

theorem Carried.sigHandle {tr : List (Client × Action)} (h : Carried myId tr s)
    (hn : s.sigHandle = some t) : Carried myId (tr ++ [(s, .handler)]) t := by
  have ht := h.sound.sigHandle hn
  cases handlerStep hn with
  | nothing hpc | test hpc | read hpc | lock num hpc | unlock num cpy hpc =>
      refine h.of_remains ht rfl h.counted ?_
      simp only [Client.sent, Client.unsent, hpc]
      exact Remains.refl _
  | copy num hpc =>
      -- the handler has the mutex
      refine h.of_remains ht rfl (fun msg heq => ?_) ?_
      · exact absurd heq (h.sound.ne_count (by rw [hpc]; rfl) msg)
      · simp only [Client.sent, Client.unsent, hpc]
        exact (remains_copyWaiting _ _ _).append (Remains.refl _)
  | reset num cpy hpc =>
      refine h.of_remains ht rfl (fun msg heq => ?_) ?_
      · exact absurd heq (h.sound.ne_count (by rw [hpc]; rfl) msg)
      · simp only [Client.sent, Client.unsent, hpc, Client.cells, List.range_zero, List.map_nil,
          List.append_nil]
        exact Remains.refl _
  | send num cpy i hpc hi hlen =>
      refine h.of_remains ht rfl h.counted ?_
      have hlt : i < (cpy.take num).length := by
        rw [List.length_take]
        exact Nat.lt_min.mpr ⟨hi, hlen⟩
      simp only [Client.sent, Client.unsent, hpc, if_pos hi]
      rw [List.drop_eq_getElem_cons hlt, List.getElem_take, List.getElem?_eq_getElem hlen]
      exact Remains.refl _
  | sent num cpy i hpc hle =>
      refine h.of_remains ht rfl h.counted ?_
      have hnone : (cpy.take num).drop i = [] :=
        List.drop_eq_nil_of_le ((List.length_take_le num cpy).trans hle)
      simp only [Client.sent, Client.unsent, hpc, if_neg (Nat.not_lt.mpr hle), hnone]
      exact Remains.refl _

/-! ## §3  What is sent was typed -/

theorem Carried.step {tr : List (Client × Action)} {a : Action} (h : Carried myId tr s)
    (hn : s.next myId a = some t) : Carried myId (tr ++ [(s, a)]) t := by
  cases a with
  | getline line =>
      have ht := h.sound.step hn
      simp only [Client.next, Option.ite_none_right_eq_some, Option.some.injEq] at hn
      obtain ⟨hpc, rfl⟩ := hn
      refine ⟨ht, fun _ heq => StdinPc.noConfusion heq, ?_⟩
      have hremains := h.remains
      rw [hpc] at hremains
      change Remains (observe Client.sent tr ++ s.unsent ++ []) _ at hremains
      rw [List.append_nil] at hremains
      rw [observe_snoc, observe_snoc]
      change Remains (observe Client.sent tr ++ [] ++ s.unsent ++ _) _
      rw [List.append_nil]
      exact hremains.append (Remains.refl _)
  | stdin => exact h.stdinRead hn
  | signal =>
      have ht := h.sound.step hn
      simp only [Client.next, Option.ite_none_right_eq_some, Option.some.injEq] at hn
      obtain ⟨⟨-, hpc⟩, rfl⟩ := hn
      refine h.of_remains ht rfl h.counted ?_
      simp only [Client.sent, Client.unsent, hpc]
      exact Remains.refl _
  | handler => exact h.sigHandle hn

theorem run_carried {tr : List (Client × Action)} (h : (client myId messages).Run tr s) :
    Carried myId tr s := by
  refine h.invariant (I := Carried myId) ⟨sound_start, fun _ heq => StdinPc.noConfusion heq, ?_⟩
    fun _ _ _ _ hs hn => hs.step hn
  exact Remains.refl _

end Sysopy.ChatClient
