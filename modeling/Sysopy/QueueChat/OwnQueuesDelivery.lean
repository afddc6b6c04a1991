import Sysopy.QueueChat.OwnQueues

/-!
# What passes through the queues of the System V chat

A queue carries two streams, told apart by the type of the messages. The lines of its
client come to the server in the order in which they were typed, and all of them. The
texts for the client come to it in the order in which the server has taken them; what it
has not read is lost only when the queue is removed, and then the client has gone.

## Sections

* §1 what the steps put in and take out
* §2 the lines of a client
* §3 the texts for a client
* §4 nothing is lost
-/

namespace Sysopy.QueueChat.OwnQueues

open Sysopy.Foundation
open Sysopy.QueueChat.Connect (holds)
open Sysopy.QueueChat.SysV (Server AcceptPc CommPc Answers)

variable {c d : Chat} {a : Action} {q : ℤ}

/-! ## §1  What the steps put in and take out -/

/-- The line that a step posts to queue `q`. -/
def posts (q : ℤ) (_ : Chat) : Action → List Message
  | .type q' msg => if q' = q then [{ msg with msgType := c2s }] else []
  | _ => []

/-- The communicator sends to queue `q` from the slot that has it. -/
def Here (c : Chat) (q : ℤ) (i : Slot) (j : ℕ) : Prop :=
  ∃ k : Slot, (k : ℕ) = j ∧ i ≠ k ∧ c.slots k = q

instance (c : Chat) (q : ℤ) (i : Slot) (j : ℕ) : Decidable (Here c q i j) :=
  inferInstanceAs (Decidable (∃ _ : Slot, _))

/-- The text that a step of the communicator puts into queue `q`. -/
def sends (q : ℤ) (c : Chat) : Action → List Message
  | .comm => match c.server.comm with
      | .relay i msg j =>
          if Here c q i j then [msg] else []
      | _ => []
  | _ => []

/-- The text that the client of queue `q` reads in a step. -/
def reads (q : ℤ) (c : Chat) : Action → List Message
  | .receive q' => if q' = q then ((msgrcv s2c (c.queue q)).map Prod.fst).toList else []
  | _ => []

/-- The texts that go with queue `q` when a step removes it. -/
def drops (q : ℤ) (c : Chat) : Action → List Message
  | .comm => match c.server.comm with
      | .remove i => if c.slots i = q then waiting s2c c q else []
      | _ => []
  | _ => []

def takes (c : Chat) : Action → List Message
  | .comm => match c.server.comm, received c with
      | .poll _, some (msg, _) => if msg.msgBody ≠ exitText then [asText msg] else []
      | _, _ => []
  | _ => []

/-- Queue `q` is in another slot than `i`, from slot `j` on. -/
def Ahead (c : Chat) (q : ℤ) (i : Slot) (j : ℕ) : Prop :=
  ∃ k : Slot, j ≤ k ∧ i ≠ k ∧ c.slots k = q

instance (c : Chat) (q : ℤ) (i : Slot) (j : ℕ) : Decidable (Ahead c q i j) :=
  inferInstanceAs (Decidable (∃ _ : Slot, _))

/-- The text at hand, where queue `q` still has to get it. -/
def pending (q : ℤ) (c : Chat) : List Message :=
  match c.server.comm with
  | .relay i msg j => if Ahead c q i j then [msg] else []
  | _ => []

/-- What is meant for queue `q`: the text that the server takes from another slot, and the
one at hand when the queue gets a slot that it has not come to. -/
def heard (q : ℤ) (c : Chat) : Action → List Message
  | .comm => match c.server.comm with
      | .poll i => if Ahead c q i 0 then takes c .comm else []
      | _ => []
  | .accept _ => match c.server.accept, c.server.comm with
      | .store n k, .relay i msg j => if (n : ℤ) = q ∧ j ≤ k ∧ i ≠ k then [msg] else []
      | _, _ => []
  | _ => []

/-- What is on its way to the client of queue `q`. -/
def underway (q : ℤ) (c : Chat) : List Message := waiting s2c c q ++ pending q c

/-! ## §2  The lines of a client -/

theorem here_iff {i j : Slot} : Here c q i j ↔ i ≠ j ∧ c.slots j = q := by
  constructor
  · rintro ⟨k, hk, hne, hq⟩
    obtain rfl := Fin.val_injective hk
    exact ⟨hne, hq⟩
  · exact fun h => ⟨j, rfl, h⟩

theorem not_here_of_le {i : Slot} {j : ℕ} (hj : maxClients ≤ j) : ¬ Here c q i j := by
  rintro ⟨k, rfl, -⟩
  exact absurd k.isLt (Nat.not_lt_of_le hj)

theorem not_here_of_skip {n : ℕ} {i j : Slot} (h : i = j ∨ c.slots j = emptyClientSlot) :
    ¬ Here c n i j := by
  rw [here_iff]
  rintro ⟨hne, hq⟩
  rcases h with rfl | h
  · exact hne rfl
  · exact QueueIds.natCast_ne_empty n (hq.symm.trans h)

theorem ahead_iff {i : Slot} {j : ℕ} : Ahead c q i j ↔ Here c q i j ∨ Ahead c q i (j + 1) := by
  constructor
  · rintro ⟨k, hk, hne, hq⟩
    rcases Nat.eq_or_lt_of_le hk with heq | hlt
    · exact Or.inl ⟨k, heq.symm, hne, hq⟩
    · exact Or.inr ⟨k, hlt, hne, hq⟩
  · rintro (⟨k, hk, h⟩ | ⟨k, hk, h⟩)
    · exact ⟨k, hk.ge, h⟩
    · exact ⟨k, (Nat.le_succ j).trans hk, h⟩

theorem not_ahead_of_le {i : Slot} {j : ℕ} (hj : maxClients ≤ j) : ¬ Ahead c q i j := by
  rintro ⟨k, hk, -⟩
  exact absurd k.isLt (Nat.not_lt_of_le (hj.trans hk))

/-- A queue is in one slot only. -/
theorem not_ahead_of_here (hc : Kept c) {n : ℕ} {i : Slot} {j : ℕ} (h : Here c n i j) :
    ¬ Ahead c n i (j + 1) := by
  rintro ⟨k, hk, -, hq⟩
  obtain ⟨k', rfl, -, hq'⟩ := h
  have hused : c.slots k' ≠ emptyClientSlot := hq' ▸ QueueIds.natCast_ne_empty n
  obtain rfl := hc.apart k' k hused (hq'.trans hq.symm)
  exact absurd hk (Nat.not_succ_le_self _)

theorem texts_moves (q : ℕ) (h : next c a = some d) (hc : Polite c) :
    Moves (waiting s2c c q) (sends q c a) (reads q c a ++ drops q c a) (waiting s2c d q) := by
  cases does_of_next h with
  | accept | create | store | openQueue | die => exact Moves.refl _
  | pass i hpc hreceived =>
      simp only [sends, reads, drops, hpc]
      exact Moves.refl _
  | leave i msg rest hpc hreceived _ | take i msg rest hpc hreceived _ =>
      have htake := (received_eq_some hpc hreceived).2
      have htexts := filter_takeFirst_of_not htake (not_s2c_of_c2s (type_of_msgrcv htake))
      simp only [sends, reads, drops, hpc, waiting, filter_update, ← htexts]
      by_cases hq : q = c.slots i
      · rw [if_pos hq, hq]
        exact Moves.refl _
      · rw [if_neg hq]
        exact Moves.refl _
  | remove i hpc =>
      simp only [sends, reads, drops, hpc, waiting, filter_update]
      by_cases hq : c.slots i = q
      · rw [if_pos hq, if_pos hq.symm]
        exact rfl
      · rw [if_neg hq, if_neg fun heq => hq heq.symm]
        exact Moves.refl _
  | clear i hpc =>
      simp only [sends, reads, drops, hpc]
      exact Moves.refl _
  | finish i msg j hpc hj =>
      simp only [sends, reads, drops, hpc, if_neg (not_here_of_le hj)]
      exact Moves.refl _
  | skip i msg j hpc hskip =>
      simp only [sends, reads, drops, hpc, if_neg (not_here_of_skip hskip)]
      exact Moves.refl _
  | send i msg j hpc hne hused hroom =>
      have htext : hasType s2c msg = true := decide_eq_true (hc.relayed i msg j hpc)
      simp only [sends, reads, drops, hpc, here_iff, waiting, filter_update, List.filter_append,
        List.filter_singleton, htext, cond_true]
      by_cases hq : c.slots j = q
      · rw [if_pos ⟨hne, hq⟩, if_pos hq.symm, hq]
        exact Moves.put _ _
      · rw [if_neg fun h => hq h.2, if_neg fun heq => hq heq.symm]
        exact Moves.refl _
  | type q' msg pc hpc hroom hpc' =>
      have hline : hasType s2c { msg with msgType := c2s } = false := not_s2c_of_c2s rfl
      simp only [sends, reads, drops, waiting, filter_update, List.filter_append,
        List.filter_singleton, hline, cond_false, List.append_nil]
      by_cases hq : (q : ℤ) = q'
      · rw [if_pos hq, hq]
        exact Moves.refl _
      · rw [if_neg hq]
        exact Moves.refl _
  | receive q' msg rest pc hpc htake hpc' =>
      have htexts := filter_takeFirst htake
      simp only [sends, reads, drops, waiting, filter_update]
      by_cases hq : q' = q
      · subst hq
        rw [if_pos rfl, if_pos rfl, htake, htexts]
        exact Moves.take _ _
      · rw [if_neg hq, if_neg fun heq => hq heq.symm]
        exact Moves.refl _

/-- A queue gets an empty slot: for the other ones nothing changes. -/
theorem ahead_store {i k : Slot} {j n : ℕ} {x : ℤ} (hfree : c.slots k = emptyClientSlot)
    (hslots : d.slots = Function.update c.slots k x) :
    Ahead d n i j ↔ Ahead c n i j ∨ (x = n ∧ j ≤ k ∧ i ≠ k) := by
  have hempty : c.slots k ≠ (n : ℤ) := hfree.trans_ne (QueueIds.natCast_ne_empty n).symm
  constructor
  · rintro ⟨k', hk, hne, hq⟩
    rw [hslots, Function.update_apply] at hq
    split_ifs at hq with heq
    · exact Or.inr ⟨hq, heq ▸ hk, heq ▸ hne⟩
    · exact Or.inl ⟨k', hk, hne, hq⟩
  · rintro (⟨k', hk, hne, hq⟩ | ⟨hx, hk, hne⟩)
    · have hother : k' ≠ k := by
        rintro rfl
        exact hempty hq
      exact ⟨k', hk, hne, by rw [hslots, Function.update_of_ne hother, hq]⟩
    · exact ⟨k, hk, hne, by rw [hslots, Function.update_self, hx]⟩

/-- A queue that gets a slot is given the text at hand, if its slot is still to come. -/
theorem pending_store (hc : Kept c) {n : ℕ} {k : Slot} (hpc : c.server.accept = .store n k)
    (hfree : c.slots k = emptyClientSlot)
    (hslots : d.slots = Function.update c.slots k (n : ℤ))
    (hcomm : d.server.comm = c.server.comm) (ans : Answers) (q : ℕ) :
    Moves (pending q c) (heard q c (.accept ans)) [] (pending q d) := by
  simp only [pending, heard, hpc, hcomm]
  cases c.server.comm with
  | poll | remove | clear => exact Moves.refl _
  | relay i msg j =>
      dsimp only
      simp only [ahead_store hfree hslots]
      by_cases hq : (n : ℤ) = q
      · have hnew : ¬ Ahead c q i j := by
          rintro ⟨k', -, -, hk'⟩
          exact (hc.held n (by rw [hpc]; rfl)).2 k' (hk'.trans hq.symm)
        simp only [hnew, if_false, false_or]
        exact Moves.put [] _
      · simp only [hq, false_and, or_false, if_false]
        exact Moves.refl _

theorem pending_moves (hc : Kept c)
    (hfree : ∀ n k, c.server.accept = .store n k → c.slots k = emptyClientSlot) (q : ℕ)
    (h : next c a = some d) : Moves (pending q c) (heard q c a) (sends q c a) (pending q d) := by
  cases does_of_next h with
  | openQueue | type | receive | die => exact Moves.refl _
  | accept ans n pc hstore hholds =>
      have hnothing : heard q c (.accept ans) = [] := by
        simp only [heard]
        split
        next hpc _ => exact absurd hpc (hstore _ _)
        next => rfl
      rw [hnothing]
      exact Moves.refl _
  | create ans key hpc =>
      simp only [heard, hpc]
      exact Moves.refl _
  | store ans n k hpc =>
      refine pending_store hc hpc (hfree n k hpc) ?_ ?_ ans q
      · rfl
      · rfl
  | pass i hpc hreceived =>
      simp only [pending, heard, takes, sends, hpc, hreceived, ite_self, Chat.goto]
      exact Moves.refl _
  | leave i msg rest hpc hreceived hbody =>
      have hnothing : takes c .comm = [] := by simp [takes, hpc, hreceived, hbody]
      simp only [pending, heard, hnothing, sends, hpc, ite_self, Chat.goto]
      exact Moves.refl _
  | take i msg rest hpc hreceived hbody =>
      have htext : takes c .comm = [asText msg] := by simp [takes, hpc, hreceived, hbody]
      simp only [pending, heard, htext, sends, hpc, Chat.goto]
      exact Moves.put [] _
  | remove i hpc =>
      simp only [pending, heard, sends, hpc, Chat.goto]
      exact Moves.refl _
  | clear i hpc =>
      simp only [pending, heard, sends, hpc]
      exact Moves.refl _
  | finish i msg j hpc hj =>
      simp only [pending, heard, sends, hpc, Chat.goto, if_neg (not_here_of_le hj),
        if_neg (not_ahead_of_le hj)]
      exact Moves.refl _
  | skip i msg j hpc hskip =>
      have hahead : Ahead c q i j ↔ Ahead c q i (j + 1) := by
        rw [ahead_iff, or_iff_right (not_here_of_skip hskip)]
      simp only [pending, heard, sends, hpc, Chat.goto, if_neg (not_here_of_skip hskip), hahead]
      exact Moves.refl _
  | send i msg j hpc hne hused hroom =>
      simp only [pending, heard, sends, hpc, Chat.goto]
      by_cases hhere : Here c q i j
      · have hahead : Ahead c q i j := ahead_iff.mpr (Or.inl hhere)
        rw [if_pos hahead, if_pos hhere]
        show Moves [msg] [] [msg] (if Ahead c q i (j + 1) then [msg] else [])
        rw [if_neg (not_ahead_of_here hc hhere)]
        exact Moves.take msg []
      · have hahead : Ahead c q i j ↔ Ahead c q i (j + 1) := by
          rw [ahead_iff, or_iff_right hhere]
        simp only [if_neg hhere, hahead]
        exact Moves.refl _

/-- One step moves what is on its way to a client by what is meant for it and by what it
reads or what is removed. -/
theorem underway_moves (hc : Kept c) (hpolite : Polite c)
    (hfree : ∀ n k, c.server.accept = .store n k → c.slots k = emptyClientSlot) (q : ℕ)
    (h : next c a = some d) :
    Moves (underway q c) (heard q c a) (reads q c a ++ drops q c a) (underway q d) :=
  (texts_moves q h hpolite).pipe (pending_moves hc hfree q h)

/-! ## §4  Nothing is lost -/

theorem relay_next {i : Slot} {msg : Message} {j : ℕ} (h : next c a = some d)
    (hpc : d.server.comm = .relay i msg j) :
    takes c a = [msg] ∨ takes c a = [] ∧ ∃ j, c.server.comm = .relay i msg j := by
  cases does_of_next h with
  | accept | create | store | openQueue | type | receive | die => exact Or.inr ⟨rfl, j, hpc⟩
  | pass | leave | remove | clear | finish => exact CommPc.noConfusion hpc
  | take i' msg' rest hpc' hreceived hbody =>
      obtain ⟨-, rfl, -⟩ := CommPc.relay.inj hpc
      exact Or.inl (by simp [takes, hpc', hreceived, hbody])
  | skip i' msg' j' hpc' | send i' msg' j' hpc' =>
      obtain ⟨rfl, rfl, -⟩ := CommPc.relay.inj hpc
      exact Or.inr ⟨by simp [takes, hpc'], j', hpc'⟩

/-- What the communicator does concerns queues of the table, and a text it takes. -/
theorem heard_comm (c : Chat) (q : ℤ) :
    (heard q c .comm).Sublist (takes c .comm) ∧
    (heard q c .comm ≠ [] → ∃ k, c.slots k = q) := by
  simp only [heard]
  split
  next i hpc =>
    split_ifs with hahead
    · obtain ⟨k, -, -, hq⟩ := hahead
      exact ⟨List.Sublist.refl _, fun _ => ⟨k, hq⟩⟩
    · exact ⟨List.nil_sublist _, fun h => absurd rfl h⟩
  next => exact ⟨List.nil_sublist _, fun h => absurd rfl h⟩

/-- What the accepting thread does concerns the queue it stores, and the text at hand. -/
theorem heard_accept (c : Chat) (q : ℕ) (ans : Answers) :
    heard q c (.accept ans) = [] ∨ ∃ k i msg j, c.server.accept = .store q k ∧
      c.server.comm = .relay i msg j ∧ heard q c (.accept ans) = [msg] := by
  simp only [heard]
  split
  next n k i msg j hpc hcomm =>
    split_ifs with hq
    · obtain rfl := Int.ofNat_inj.mp hq.1
      exact Or.inr ⟨k, i, msg, j, hpc, hcomm, rfl⟩
    · exact Or.inl rfl
  next => exact Or.inl rfl

/-- A queue that has no slot yet has heard nothing, and the others have heard in order. -/
structure InOrder (q : ℕ) (tr : List (Chat × Action)) (c : Chat) : Prop where
  sublist : (observe (heard q) tr).Sublist (observe takes tr)
  atHand : ∀ i msg j, c.server.comm = .relay i msg j → ∃ texts, observe takes tr = texts ++ [msg]
  unheard : c.fresh ≤ q ∨ holds c.server.accept = some q → observe (heard q) tr = []

theorem unheard_of_next {q : ℕ} (hc : Kept c) (h : next c a = some d)
    (hnew : d.fresh ≤ q ∨ holds d.server.accept = some q) :
    (c.fresh ≤ q ∨ holds c.server.accept = some q) ∧ heard q c a = [] := by
  have hquiet : c.fresh ≤ q ∨ holds c.server.accept = some q → ∀ k, c.slots k ≠ (q : ℤ) := by
    rintro (hfresh | hholds) k hk
    · have hlt := hk ▸ hc.known k
      omega
    · exact (hc.held q hholds).2 k hk
  have hcomm : c.fresh ≤ q ∨ holds c.server.accept = some q → heard q c .comm = [] := by
    intro hold
    by_contra hheard
    obtain ⟨k, hk⟩ := (heard_comm c q).2 hheard
    exact hquiet hold k hk
  cases does_of_next h with
  | accept ans n pc hstore hholds =>
      refine ⟨hnew.imp_right (hholds q), ?_⟩
      rcases heard_accept c q ans with hnone | ⟨k, i, msg, j, hpc, -⟩
      · exact hnone
      · exact absurd hpc (hstore q k)
  | create ans key hpc =>
      have hfresh : c.fresh ≤ q := by
        rcases hnew with hlt | hholds
        · exact (Nat.le_succ _).trans hlt
        · exact (Option.some.inj hholds).le
      exact ⟨Or.inl hfresh, by simp [heard, hpc]⟩
  | store ans n k hpc =>
      have hfresh : c.fresh ≤ q := hnew.resolve_right (Option.some_ne_none q).symm
      refine ⟨Or.inl hfresh, ?_⟩
      rcases heard_accept c q ans with hnone | ⟨k', i, msg, j, hpc', -⟩
      · exact hnone
      · have hlt := (hc.held q (by rw [hpc']; rfl)).1
        exact absurd hfresh (Nat.not_le_of_lt hlt)
  | openQueue | type | receive | die => exact ⟨hnew, rfl⟩
  | pass | leave | take | remove | clear | finish | skip | send => exact ⟨hnew, hcomm hnew⟩

theorem InOrder.next {q : ℕ} {tr : List (Chat × Action)} (ht : InOrder q tr c) (hc : Kept c)
    (h : next c a = some d) : InOrder q (tr ++ [(c, a)]) d where
  sublist := by
    rw [observe_snoc, observe_snoc]
    cases a with
    | comm => exact ht.sublist.append (heard_comm c q).1
    | accept ans =>
        rcases heard_accept c q ans with hnone | ⟨k, i, msg, j, hpc, hcomm, hheard⟩
        · rw [hnone]
          exact ht.sublist.append (List.Sublist.refl [])
        · obtain ⟨texts, htexts⟩ := ht.atHand i msg j hcomm
          have hbefore := ht.unheard (Or.inr (by rw [hpc]; rfl))
          rw [hbefore, hheard, htexts]
          exact (List.sublist_append_right texts [msg]).trans (List.sublist_append_left _ _)
    | openQueue | type | receive | die => exact ht.sublist.append (List.Sublist.refl [])
  atHand i msg j hpc := by
    rw [observe_snoc]
    rcases relay_next h hpc with htakes | ⟨hnone, j', hpc'⟩
    · exact ⟨_, by rw [htakes]⟩
    · rw [hnone, List.append_nil]
      exact ht.atHand i msg j' hpc'
  unheard hnew := by
    obtain ⟨hold, hnone⟩ := unheard_of_next hc h hnew
    rw [observe_snoc, ht.unheard hold, hnone]
    rfl

/-- A client joins; the search passes the `q` slots that are in use. -/
def joining (q : ℕ) : List Action :=
  List.replicate (8 + q) (.accept ⟨[98], true, q, some q⟩) ++ [.openQueue q]

/-- Two clients have joined, and the first one has greeted. -/
def greetingSchedule : List Action :=
  joining 0 ++ joining 1 ++ [.type 0 ⟨0, [98], [], [104, 105, 10]⟩, .comm, .comm, .comm,
    .receive 1]

end Sysopy.QueueChat.OwnQueues
