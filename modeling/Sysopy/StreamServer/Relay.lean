import Sysopy.Foundation.Broadcast
import Sysopy.StreamServer.Descriptors

/-!
# Relaying in the stream server

A chunk goes once to every other client of the table, and to the Unix
listener, which the forward loop does not exclude. The bytes that one client's
stream becomes for another are the string at the start of each chunk, so a
stream arrives unchanged exactly when every chunk is one message with its NUL,
and no third client that has gone kills the server before the loop is there.

## Sections

* §1 recipients
* §2 the stream between two clients
-/

namespace Sysopy.StreamServer

open Sysopy.Foundation

/-- `fd` is the descriptor of an accepted connection that has not ended. -/
def Server.Connected (s : Server) (fd : ℤ) : Prop :=
  ∃ c ∈ s.conns, c.fd = fd ∧ c.ended = false

variable {L : Listeners}

theorem Table.connected_nonneg {s : Server} (ht : Table L s) {fd : ℤ} (hc : s.Connected fd) :
    0 ≤ fd ∧ isListener L fd = false := by
  obtain ⟨c, hmem, rfl, -⟩ := hc
  exact ht.clients c hmem

/-! ## §1  Recipients -/

/-- One send to every connected client in another slot, and no other. -/
structure RecipientsOk (L : Listeners) (s : Server) (i : Slot) (dests : List ℤ) : Prop where
  others : ∀ j, j ≠ i → s.Connected (s.sockets j) → dests.count (s.sockets j) = 1
  sender : s.sockets i ∉ dests
  empty : -1 ∉ dests
  inet : L.inet ∉ dests
  unix : L.unix ∉ dests

theorem mem_forward {s : Server} {i : Slot} {chunk : List Byte} {m : Send} :
    m ∈ forward L s i chunk ↔ ∃ j, (j ≠ i ∧ s.sockets j ≠ -1 ∧ s.sockets j ≠ L.inet) ∧
      m = { source := s.sockets i, dest := s.sockets j, payload := relay chunk } := by
  simp only [forward, List.mem_map, List.mem_filter, List.mem_finRange, true_and,
    decide_eq_true_eq]
  exact exists_congr fun j => and_congr_right fun _ => eq_comm

/-- The forward loop sends once to every descriptor it does not exclude. -/
theorem Table.forward_to {s : Server} (ht : Table L s) {i j : Slot} (hji : j ≠ i)
    (hne : s.sockets j ≠ -1) (hinet : s.sockets j ≠ L.inet) (chunk : List Byte) :
    ((forward L s i chunk).filter fun m => m.dest = s.sockets j) =
      [{ source := s.sockets i, dest := s.sockets j, payload := relay chunk }] := by
  refine broadcast_to (fun j => Send.mk (s.sockets i) (s.sockets j) (relay chunk)) Send.dest
    ((List.nodup_finRange _).filter _) ?_ ?_
  · simp [hji, hne, hinet]
  · intro k _ heq
    exact (ht.injective j k hne heq.symm).symm

theorem Table.count_dest {s : Server} (ht : Table L s) {i j : Slot} (hji : j ≠ i)
    (hne : s.sockets j ≠ -1) (hinet : s.sockets j ≠ L.inet) (chunk : List Byte) :
    ((forward L s i chunk).map Send.dest).count (s.sockets j) = 1 := by
  have h := congrArg List.length (ht.forward_to hji hne hinet chunk)
  rw [← List.countP_eq_length_filter] at h
  rw [List.count_eq_countP, List.countP_map]
  exact h

/-- Apart from the Unix listener the recipients are the right ones. -/
theorem Table.recipientsOk_others {s : Server} (ht : Table L s) (i : Slot)
    (chunk : List Byte) :
    RecipientsOk L s i
      (((forward L s i chunk).map Send.dest).filter fun fd => fd ≠ L.unix) := by
  have hdest : ∀ fd, fd ∈ (((forward L s i chunk).map Send.dest).filter fun fd =>
      fd ≠ L.unix) → ∃ j, (j ≠ i ∧ s.sockets j ≠ -1 ∧ s.sockets j ≠ L.inet) ∧
        s.sockets j = fd ∧ fd ≠ L.unix := by
    intro fd hfd
    obtain ⟨hmem, hunix⟩ := List.mem_filter.mp hfd
    obtain ⟨m, hm, rfl⟩ := List.mem_map.mp hmem
    obtain ⟨j, hj, rfl⟩ := mem_forward.mp hm
    exact ⟨j, hj, rfl, of_decide_eq_true hunix⟩
  refine ⟨?_, ?_, ?_, ?_, ?_⟩
  · intro j hji hc
    obtain ⟨hnn, hl⟩ := ht.connected_nonneg hc
    simp only [isListener, Bool.or_eq_false_iff, decide_eq_false_iff_not] at hl
    rw [List.count_filter (by simpa using hl.2)]
    exact ht.count_dest hji (by omega) hl.1 chunk
  · intro h
    obtain ⟨j, ⟨hji, hne, -⟩, heq, -⟩ := hdest _ h
    exact hji (ht.injective j i hne heq)
  · intro h
    obtain ⟨j, ⟨-, hne, -⟩, heq, -⟩ := hdest _ h
    exact hne heq
  · intro h
    obtain ⟨j, ⟨-, -, hinet⟩, heq, -⟩ := hdest _ h
    exact hinet heq
  · intro h
    obtain ⟨j, -, -, hunix⟩ := hdest _ h
    exact hunix rfl

/-- **Every chunk is also sent to the Unix listener**: it is always in the
table and the forward loop excludes only the inet one, so the recipients of a
chunk from a client are never the right ones. -/
theorem recipients_include_listener {tr : List (Server × Action)} {s : Server}
    (h : (server L).Run tr s) {i : Slot} (hv : s.visited = some i)
    (hl : isListener L (s.sockets i) = false) (chunk : List Byte) :
    ¬ RecipientsOk L s i ((forward L s i chunk).map Send.dest) := by
  intro hok
  have ht := run_table h
  obtain ⟨j, hj⟩ := ht.unix
  have hnn := L.unix_nonneg
  have hji : j ≠ i := by
    rintro rfl
    rw [hj, isListener_unix] at hl
    exact Bool.noConfusion hl
  have hone := ht.count_dest hji (by omega) (by rw [hj]; exact L.distinct.symm) chunk
  rw [hj] at hone
  exact hok.unix (List.count_pos_iff.mp (by omega))

/-- Listeners on descriptors 3 and 4; client 5 is in slot 2. -/
theorem recipients_include_listener_lone : ∃ L tr s, (server L).Run tr s ∧
    s.visited = some 2 ∧ ((forward L s 2 [97, 0]).map Send.dest = [4]) ∧
    ¬ RecipientsOk L s 2 ((forward L s 2 [97, 0]).map Send.dest) := by
  have h := (server exampleListeners).run_of_replay
    ([.select {3}, .accept 5] ++ List.replicate 14 .skip ++ [.select {5}, .skip, .skip]) rfl
  exact ⟨_, _, _, h, rfl, rfl, recipients_include_listener h rfl rfl _⟩

/-- Client 5 sends a message and the Unix listener is sent it. -/
theorem listener_is_sent_chunk : ∃ L tr s, (server L).Run tr s ∧
    s.visited = some 2 ∧ isListener L (s.sockets 2) = false ∧
    ¬ RecipientsOk L s 2 ((forward L s 2 [97, 0]).map Send.dest) := by
  have h := (server exampleListeners).run_of_replay
    ([.select {3}, .accept 5] ++ List.replicate 14 .skip ++ [.select {5}, .skip, .skip]) rfl
  exact ⟨_, _, _, h, rfl, rfl, fun hok => hok.unix (by decide)⟩

/-! ## §2  The stream between two clients -/

/-- The chunk `recv` returns from `a`. -/
def Server.received (a : ℤ) (s : Server) : Action → List (List Byte)
  | .recv chunk _ =>
      match s.visited with
      | some i => if s.sockets i = a then [chunk] else []
      | none => []
  | _ => []

/-- A client that the loop comes to before `b` is gone, and the server is killed. -/
def Server.cutsOff (L : Listeners) (b : ℤ) (s : Server) : Action → Bool
  | .recv chunk broken =>
      match s.visited with
      | some i =>
          ((forward L s i chunk).takeWhile fun m => !decide (m.dest = b)).any
            fun m => m.dest ∈ broken
      | none => false
  | _ => false

def Action.broken : Action → Finset ℤ
  | .recv _ broken => broken
  | _ => ∅

/-- The chunk of `a` with which the loop gets to `b`. -/
def Server.passed (L : Listeners) (a b : ℤ) (s : Server) (act : Action) : List (List Byte) :=
  if s.cutsOff L b act then [] else s.received a act

/-- The sends to `b` of what came from `a`. -/
def Server.relayed (L : Listeners) (a b : ℤ) (s : Server) (act : Action) : List Send :=
  (s.sends L act).filter fun m => m.source = a ∧ m.dest = b

/-- The bytes of some calls of `send` together, if every call has its bytes. -/
def sentBytes (ms : List Send) : Option (List Byte) :=
  (ms.mapM Send.payload).map List.flatten

/-- The sends that the chunks of `a` become for `b`. -/
def relays (a b : ℤ) (chunks : List (List Byte)) : List Send :=
  chunks.map fun chunk => { source := a, dest := b, payload := relay chunk }

/-- A client in the table gets one send for each chunk of another client that the loop gets
to it with. -/
theorem Table.relayed_stored {s : Server} (ht : Table L s) {a b : ℤ} (hab : a ≠ b)
    (hc : s.Connected b) (hb : b ∈ s.stored) {act : Action} (hbroken : b ∉ act.broken) :
    s.relayed L a b act = relays a b (s.passed L a b act) := by
  unfold Server.relayed relays Server.passed Server.received Server.sends Server.cutsOff
  cases act with
  | recv chunk broken =>
      cases hv : s.visited with
      | none => simp
      | some i =>
          obtain ⟨hne, j, rfl⟩ := hb
          dsimp only
          by_cases hi : s.sockets i = a
          · have hji : j ≠ i := by
              rintro rfl
              exact hab hi.symm
            obtain ⟨-, hl⟩ := ht.connected_nonneg hc
            simp only [isListener, Bool.or_eq_false_iff, decide_eq_false_iff_not] at hl
            have hone := ht.forward_to hji hne hl.1 chunk
            rw [hi] at hone
            have hcalled := mem_takeWhile_iff (q := fun m => decide (m.dest ∉ broken)) hone
            have hsource : ∀ m ∈ (forward L s i chunk).takeWhile fun m => m.dest ∉ broken,
                decide (m.source = a ∧ m.dest = s.sockets j) =
                  decide (m.dest = s.sockets j) := by
              intro m hm
              obtain ⟨k, -, rfl⟩ := mem_forward.mp ((List.takeWhile_sublist _).subset hm)
              simp [hi]
            rw [if_pos hi, List.filter_congr hsource]
            split_ifs with hcut
            · -- the call is behind one that kills the server
              refine List.filter_eq_nil_iff.mpr fun m hm hdest => ?_
              have hall : m ∈ (forward L s i chunk).filter fun m => m.dest = s.sockets j :=
                List.mem_filter.mpr ⟨(List.takeWhile_sublist _).subset hm, hdest⟩
              rw [hone, List.mem_singleton] at hall
              obtain ⟨m', hm', hgone⟩ := List.any_eq_true.mp hcut
              have hpassed := (hcalled.mp (hall ▸ hm)).2 m' hm'
              exact of_decide_eq_true hpassed (of_decide_eq_true hgone)
            · refine filter_takeWhile_eq hone (hcalled.mpr ⟨decide_eq_true hbroken, ?_⟩)
              intro m hm
              refine decide_eq_true fun hgone => hcut ?_
              exact List.any_eq_true.mpr ⟨m, hm, decide_eq_true hgone⟩
          · rw [if_neg hi, ite_self]
            refine List.filter_eq_nil_iff.mpr fun m hm => ?_
            obtain ⟨k, -, rfl⟩ := mem_forward.mp ((List.takeWhile_sublist _).subset hm)
            simp [hi]
  | select ready => rfl
  | skip => rfl
  | accept newfd => rfl
  | hangup garbled => rfl

theorem received_ne_nil {s s' : Server} {act : Action} (hn : s.next L act = some s')
    (a : ℤ) : [] ∉ s.received a act := by
  rcases Server.next_cases L hn with
    ⟨ready, rfl, -⟩ | ⟨rfl | ⟨chunk, broken, i, rfl, hv, -, hlen, -⟩, -⟩ | ⟨newfd, rfl, -, -⟩ |
      ⟨garbled, i, rfl, -, -, -⟩
  · exact List.not_mem_nil
  · exact List.not_mem_nil
  · simp only [Server.received, hv]
    split_ifs with hi
    · intro h
      rw [← List.mem_singleton.mp h] at hlen
      exact absurd hlen (by decide)
    · exact List.not_mem_nil
  · exact List.not_mem_nil
  · exact List.not_mem_nil

theorem relayed_notStored {s : Server} {b : ℤ} (hb : b ∉ s.stored) (a : ℤ) (act : Action) :
    s.relayed L a b act = [] := by
  refine List.filter_eq_nil_iff.mpr fun m hm => ?_
  unfold Server.sends at hm
  split at hm
  · split at hm
    · obtain ⟨k, ⟨-, hne, -⟩, rfl⟩ := mem_forward.mp ((List.takeWhile_sublist _).subset hm)
      have : s.sockets k ≠ b := fun h => hb ⟨h ▸ hne, k, h⟩
      simp [this]
    · simp at hm
  · simp at hm

theorem Table.stored_iff {s s' : Server} {act : Action} (ht : Table L s)
    (hn : s.next L act = some s') {b : ℤ} (hc : s.Connected b) (hc' : s'.Connected b) :
    b ∈ s'.stored ↔ b ∈ s.stored := by
  rcases Server.next_cases L hn with
    ⟨ready, -, rfl⟩ | ⟨-, rfl | rfl⟩ | ⟨newfd, -, hf, rfl⟩ | ⟨garbled, i, -, hv, -, rfl⟩
  · exact Iff.rfl
  · exact Iff.rfl
  · exact Iff.rfl
  · have hne : b ≠ newfd := by
      obtain ⟨c, hmem, rfl, -⟩ := hc
      exact hf.2.2.2.2 c hmem (ht.unclosed c hmem)
    rcases acceptClient_cases s newfd with ⟨j, hj, heq⟩ | ⟨-, heq⟩
    · have hnew : newfd ≠ -1 := by have := hf.1; omega
      rw [Server.stored_fill hj hnew (by rw [heq])]
      exact ⟨fun h => h.resolve_left hne, Or.inr⟩
    · rw [heq]
      exact Iff.rfl
  · have hi : s.sockets i ≠ b := by
      rintro rfl
      obtain ⟨c, hmem, hfd, hended⟩ := hc'
      rw [show _ = _ from ht.dropClient_conns i garbled] at hmem
      obtain ⟨d, hd, rfl⟩ := mem_endConn.mp hmem
      split_ifs at hfd hended with hcond
      exact hcond ⟨hfd, ht.unclosed d hd⟩
    have hnn := (ht.connected_nonneg hc).1
    refine and_congr_right fun hb => exists_congr fun k => ?_
    by_cases hk : k = i
    · rw [hk, dropClient_self]
      exact ⟨fun h => absurd h.symm hb, fun h => absurd h hi⟩
    · rw [dropClient_of_ne s hk]

/-- Where a chunk of `a` meets a client that is gone before the loop is at `b`. -/
def CutOff (L : Listeners) (a b : ℤ) (x : Server × Action) : Prop :=
  x.1.received a x.2 ≠ [] ∧ x.1.cutsOff L b x.2 = true

theorem CutOff.killed {a b : ℤ} {s s' : Server} {act : Action} (h : CutOff L a b (s, act))
    (hn : s.next L act = some s') :
    s'.killed = true ∧ s.passed L a b act = [] ∧ ∃ c, c ≠ [] ∧ s.received a act = [c] := by
  obtain ⟨hreceived, hcut⟩ := h
  refine ⟨?_, if_pos hcut, ?_⟩
  · obtain ⟨-, hn⟩ := Option.ite_none_right_eq_some.mp hn
    cases act with
    | recv chunk broken =>
        cases hv : s.visited with
        | none => simp [Server.iterate, hv] at hn
        | some i =>
            simp only [Server.cutsOff, hv] at hcut
            obtain ⟨m, hm, hgone⟩ := List.any_eq_true.mp hcut
            have hany : ((forward L s i chunk).any fun m => m.dest ∈ broken) = true :=
              List.any_eq_true.mpr ⟨m, (List.takeWhile_sublist _).subset hm, hgone⟩
            simp only [Server.iterate, hv, hany, if_true, Option.ite_none_right_eq_some,
              Option.some.injEq] at hn
            rw [← hn.2]
    | _ => exact absurd hcut Bool.false_ne_true
  · cases hchunks : s.received a act with
    | nil => exact absurd hchunks hreceived
    | cons c cs =>
        have hne := received_ne_nil hn a
        have hone : (s.received a act).length ≤ 1 := by
          unfold Server.received
          split
          · split
            · split_ifs
              · exact le_rfl
              · exact Nat.zero_le 1
            · exact Nat.zero_le 1
          · exact Nat.zero_le 1
        rw [hchunks] at hne hone
        obtain rfl := List.length_eq_zero_iff.mp (Nat.le_zero.mp (Nat.le_of_succ_le_succ hone))
        exact ⟨c, fun h => hne (h ▸ List.mem_cons_self), rfl⟩

theorem passed_of_not_cutOff {a b : ℤ} {s : Server} {act : Action}
    (h : ¬CutOff L a b (s, act)) : s.passed L a b act = s.received a act := by
  unfold Server.passed
  split_ifs with hcut
  · by_contra hne
    exact h ⟨Ne.symm hne, hcut⟩
  · rfl

/-- What the sends to `b` of a path from `s₀` depend on: whether `b` had a slot at
its start. -/
structure Relayed (L : Listeners) (a b : ℤ) (s₀ : Server) (tr : List (Server × Action))
    (s : Server) : Prop where
  table : Table L s
  slot : s.Connected b → (b ∈ s.stored ↔ b ∈ s₀.stored)
  stored : b ∈ s₀.stored → observe (Server.relayed L a b) tr =
    relays a b (observe (Server.passed L a b) tr)
  notStored : b ∉ s₀.stored → observe (Server.relayed L a b) tr = []
  received : [] ∉ observe (Server.received a) tr
  /-- a chunk that does not get to `b` is the last one -/
  passed : (observe (Server.passed L a b) tr = observe (Server.received a) tr ∧
      ∀ x ∈ tr, ¬CutOff L a b x) ∨
    s.killed = true ∧ (∃ x ∈ tr, CutOff L a b x) ∧
      ∃ c, c ≠ [] ∧ observe (Server.received a) tr = observe (Server.passed L a b) tr ++ [c]

theorem Relayed.step {a b : ℤ} {s₀ s s' : Server} {tr : List (Server × Action)}
    {act : Action} (hr : Relayed L a b s₀ tr s) (hab : a ≠ b)
    (hc : s.Connected b ∧ b ∉ act.broken) (hn : s.next L act = some s') :
    Relayed L a b s₀ (tr ++ [(s, act)]) s' where
  table := hr.table.step hn
  slot := fun hc' => (hr.table.stored_iff hn hc.1 hc').trans (hr.slot hc.1)
  stored := fun hb => by
    rw [observe_snoc, observe_snoc, hr.stored hb,
      hr.table.relayed_stored hab hc.1 ((hr.slot hc.1).mpr hb) hc.2]
    exact List.map_append.symm
  notStored := fun hb => by
    rw [observe_snoc, hr.notStored hb, relayed_notStored (fun h => hb ((hr.slot hc.1).mp h))]
    rfl
  received := by
    rw [observe_snoc, List.mem_append]
    exact fun hmem => hmem.elim hr.received (received_ne_nil hn a)
  passed := by
    rcases hr.passed with ⟨hpassed, hnone⟩ | ⟨hkilled, -⟩
    · rw [observe_snoc, observe_snoc, hpassed]
      by_cases hcut : CutOff L a b (s, act)
      · obtain ⟨hkilled, hnil, c, hne, hone⟩ := hcut.killed hn
        refine Or.inr ⟨hkilled, ⟨_, List.mem_append_right _ List.mem_cons_self, hcut⟩, c, hne, ?_⟩
        rw [hone, hnil, List.append_nil]
      · refine Or.inl ⟨by rw [passed_of_not_cutOff hcut], ?_⟩
        rw [List.forall_mem_append, List.forall_mem_singleton]
        exact ⟨hnone, hcut⟩
    · -- a server that has been killed takes no step
      obtain ⟨hrunning, -⟩ := Option.ite_none_right_eq_some.mp hn
      exact absurd (hrunning.symm.trans hkilled) Bool.false_ne_true

theorem relayed_path {a b : ℤ} {s₀ s : Server} {tr : List (Server × Action)}
    (ht₀ : Table L s₀) (h : (server L).Path s₀ tr s) (hab : a ≠ b)
    (hb : ∀ x ∈ tr, x.1.Connected b ∧ b ∉ x.2.broken) : Relayed L a b s₀ tr s :=
  h.invariant_of_steps (I := fun tr s => Relayed L a b s₀ tr s)
    (C := fun s act => s.Connected b ∧ b ∉ act.broken) hb
    ⟨ht₀, fun _ => Iff.rfl, fun _ => rfl, fun _ => rfl, List.not_mem_nil,
      Or.inl ⟨rfl, fun _ hx => absurd hx List.not_mem_nil⟩⟩
    fun _ _ _ _ hr hconn hn => hr.step hab hconn hn

theorem sentBytes_cons (m : Send) (ms : List Send) :
    sentBytes (m :: ms) = m.payload.bind fun x => (sentBytes ms).map (x ++ ·) := by
  rw [sentBytes, List.mapM_cons, sentBytes]
  cases m.payload <;> cases ms.mapM Send.payload <;> rfl

/-- Chunks whose `strlen` stays in the buffer become the strings they start
with. -/
theorem sentBytes_relays (a b : ℤ) (chunks : List (List Byte))
    (hz : ∀ c ∈ chunks, 0 ∈ zeroPadded bufSize c) :
    sentBytes (relays a b chunks) = some (wire 0 (chunks.map (beforeTerminator 0))) := by
  induction chunks with
  | nil => rfl
  | cons c cs ih =>
      have hc : relay c = some (terminated 0 (beforeTerminator 0 c)) := by
        rw [relay, stringBytes_of_mem (hz c (by simp)), beforeTerminator_zeroPadded]
      rw [relays, List.map_cons, sentBytes_cons]
      rw [relays] at ih
      rw [ih fun c' hc' => hz c' (by simp [hc']), hc]
      simp [terminated]

/-- A chunk whose `strlen` leaves the buffer leaves the bytes undefined. -/
theorem sentBytes_relays_eq_none (a b : ℤ) {chunks : List (List Byte)} {c : List Byte}
    (hmem : c ∈ chunks) (hz : 0 ∉ zeroPadded bufSize c) :
    sentBytes (relays a b chunks) = none := by
  induction chunks with
  | nil => simp at hmem
  | cons d ds ih =>
      rw [relays, List.map_cons, sentBytes_cons]
      rcases List.mem_cons.mp hmem with rfl | h
      · rw [relay, stringBytes_of_notMem hz]
        rfl
      · rw [← relays, ih h]
        cases relay d <;> rfl

/-- The bytes of the chunks that get to `b`, against the stream of the messages. -/
theorem sentBytes_relays_iff (a b : ℤ) {ms chunks : List (List Byte)} {rest : List Byte}
    (hms : ∀ m ∈ ms, m ≠ [] ∧ 0 ∉ m) (hcut : chunks.flatten ++ rest = wire 0 ms) :
    sentBytes (relays a b chunks) = some (wire 0 ms) ↔
      (rest = [] ∧ chunks = ms.map (terminated 0)) ∨
      (rest = [0] ∧ ∃ ms' m, ms = ms' ++ [m] ∧ m.length < bufSize ∧
        chunks = ms'.map (terminated 0) ++ [m]) := by
  have hterminated : ∀ m : List Byte, 0 ∈ zeroPadded bufSize (terminated 0 m) := fun m => by
    simp [zeroPadded, terminated]
  by_cases hz : ∀ c ∈ chunks, 0 ∈ zeroPadded bufSize c
  · rw [sentBytes_relays a b _ hz, Option.some.injEq, relayed_iff_framed hms hcut]
    refine or_congr_right (and_congr_right fun _ => exists_congr fun ms' => exists_congr fun m =>
      and_congr_right fun heq => ?_)
    refine ⟨fun hchunks => ⟨?_, hchunks⟩, And.right⟩
    have hm := hz m (hchunks ▸ List.mem_append_right _ List.mem_cons_self)
    have hnul := (hms m (heq ▸ List.mem_append_right _ List.mem_cons_self)).2
    exact (zero_mem_zeroPadded.mp hm).resolve_right hnul
  · have hex : ∃ c ∈ chunks, 0 ∉ zeroPadded bufSize c := by
      simpa using hz
    obtain ⟨c, hmem, hc⟩ := hex
    rw [sentBytes_relays_eq_none a b hmem hc]
    refine ⟨fun h => absurd h.symm (Option.some_ne_none _), ?_⟩
    rintro (⟨-, rfl⟩ | ⟨-, ms', m, -, hlength, rfl⟩)
    · obtain ⟨m, -, rfl⟩ := List.mem_map.mp hmem
      exact absurd (hterminated m) hc
    · rcases List.mem_append.mp hmem with hmem | hmem
      · obtain ⟨m, -, rfl⟩ := List.mem_map.mp hmem
        exact absurd (hterminated m) hc
      · obtain rfl := List.mem_singleton.mp hmem
        exact absurd (zero_mem_zeroPadded.mpr (Or.inl hlength)) hc

/-- **A client's stream arrives exactly when each chunk is one message**: while `b` is
connected, what the server makes of the stream of `a` for `b` is that stream if and only if
`b` got a slot when it was accepted, every `recv` returned one whole message with its NUL, and
no client that is gone killed the server before the loop was at `b`; or it was killed so, but
nothing was lost except the NUL of the last message, which had come in a chunk of its own. -/
theorem relayed_iff_one_message_per_chunk {tr₀ tr : List (Server × Action)}
    {s₀ s : Server} (h₀ : (server L).Run tr₀ s₀) (h : (server L).Path s₀ tr s) {a b : ℤ}
    (hab : a ≠ b) (hb : ∀ x ∈ tr, x.1.Connected b ∧ b ∉ x.2.broken) {ms : List (List Byte)}
    (hms : ∀ m ∈ ms, m ≠ [] ∧ 0 ∉ m)
    (hcut : (observe (Server.received a) tr).flatten = wire 0 ms) :
    sentBytes (observe (Server.relayed L a b) tr) = some (wire 0 ms) ↔
      (ms = [] ∨ b ∈ s₀.stored) ∧
      ((observe (Server.received a) tr = ms.map (terminated 0) ∧ ∀ x ∈ tr, ¬CutOff L a b x) ∨
        (∃ x ∈ tr, CutOff L a b x) ∧ ∃ ms' m, ms = ms' ++ [m] ∧ m.length < bufSize ∧
          observe (Server.received a) tr = ms'.map (terminated 0) ++ [m, [0]]) := by
  obtain ⟨-, -, hsome, hnone, hne, hpassed⟩ := relayed_path (run_table h₀) h hab hb
  by_cases hstored : b ∈ s₀.stored
  · rw [hsome hstored, and_iff_right (Or.inr hstored)]
    rcases hpassed with ⟨hall, hwhole⟩ | ⟨-, hkilled, c, hc, hlast⟩
    · rw [hall, sentBytes_relays_iff a b hms ((List.append_nil _).trans hcut)]
      constructor
      · rintro (⟨-, hchunks⟩ | ⟨hrest, -⟩)
        · exact Or.inl ⟨hchunks, hwhole⟩
        · exact absurd hrest (List.cons_ne_nil 0 []).symm
      · rintro (⟨hchunks, -⟩ | ⟨⟨x, hx, hcutOff⟩, -⟩)
        · exact Or.inl ⟨rfl, hchunks⟩
        · exact absurd hcutOff (hwhole x hx)
    · rw [hlast, List.flatten_append, List.flatten_singleton] at hcut
      rw [sentBytes_relays_iff a b hms hcut, hlast]
      constructor
      · rintro (⟨hrest, -⟩ | ⟨rfl, ms', m, hms', hlength, hchunks⟩)
        · exact absurd hrest hc
        · refine Or.inr ⟨hkilled, ms', m, hms', hlength, ?_⟩
          rw [hchunks, List.append_assoc]
          rfl
      · rintro (⟨-, hwhole⟩ | ⟨-, ms', m, hms', hlength, hchunks⟩)
        · obtain ⟨x, hx, hcutOff⟩ := hkilled
          exact absurd hcutOff (hwhole x hx)
        · have hsplit : observe (Server.passed L a b) tr ++ [c] =
              (ms'.map (terminated 0) ++ [m]) ++ [[0]] := by
            rw [hchunks, List.append_assoc]
            rfl
          obtain ⟨hfront, hrest⟩ := List.append_inj' hsplit rfl
          exact Or.inr ⟨List.singleton_injective hrest, ms', m, hms', hlength, hfront⟩
  · rw [hnone hstored]
    constructor
    · intro hsent
      have hnil : ms = [] := by
        cases ms with
        | nil => rfl
        | cons m ms => simp [sentBytes] at hsent
      subst hnil
      have hreceived : observe (Server.received a) tr = [] := by
        refine List.eq_nil_iff_forall_not_mem.mpr fun c hc => hne ?_
        rwa [List.flatten_eq_nil_iff.mp hcut c hc] at hc
      refine ⟨Or.inl rfl, Or.inl ⟨hreceived, fun x hx hcutOff => hcutOff.1 ?_⟩⟩
      rw [observe, List.flatMap_eq_nil_iff] at hreceived
      exact hreceived x hx
    · rintro ⟨rfl | hslot, -⟩
      · rfl
      · exact absurd hslot hstored

def twoClients : Server :=
  { (server exampleListeners).init with
    sockets := Function.update (Function.update (server exampleListeners).init.sockets 2 5) 3 6
    orig := {6, 5, 3, 4}
    readFd := {3, 4}
    maxfd := 6
    conns := [⟨5, false, false⟩, ⟨6, false, false⟩] }

theorem run_twoClients : ∃ tr, (server exampleListeners).Run tr twoClients :=
  ⟨_, (server exampleListeners).run_of_replay
    ([.select {3, 4}, .accept 5, .accept 6] ++ List.replicate 13 .skip) rfl⟩

/-- Two messages in one chunk: only the first reaches the other client. -/
theorem joined_chunk_loses_message : ∃ L tr₀ tr s₀ s, (server L).Run tr₀ s₀ ∧
    (server L).Path s₀ tr s ∧ (∀ x ∈ tr, x.1.Connected 6 ∧ 6 ∉ x.2.broken) ∧ 6 ∈ s₀.stored ∧
    (observe (Server.received 5) tr).flatten = wire 0 [[97], [98]] ∧
    sentBytes (observe (Server.relayed L 5 6) tr) = some (wire 0 [[97]]) ∧
    sentBytes (observe (Server.relayed L 5 6) tr) ≠ some (wire 0 [[97], [98]]) := by
  obtain ⟨tr₀, h₀⟩ := run_twoClients
  have h := System.path_of_replayFrom (M := server exampleListeners) (s := twoClients)
    [.select {5}, .skip, .skip, .recv [97, 0, 98, 0] ∅] rfl
  refine ⟨_, _, _, _, _, h₀, h, ?_, ⟨by decide, 3, rfl⟩, rfl, rfl, by decide⟩
  unfold Server.Connected
  decide

/-- One message in one chunk. -/
theorem relayed_iff_one_message_per_chunk_whole : ∃ L tr₀ tr s₀ s,
    (server L).Run tr₀ s₀ ∧ (server L).Path s₀ tr s ∧
    observe (Server.received 5) tr = [[97, 0]] ∧
    sentBytes (observe (Server.relayed L 5 6) tr) = some (wire 0 [[97]]) := by
  obtain ⟨tr₀, h₀⟩ := run_twoClients
  have h := System.path_of_replayFrom (M := server exampleListeners) (s := twoClients)
    [.select {5}, .skip, .skip, .recv [97, 0] ∅] rfl
  refine ⟨_, _, _, _, _, h₀, h, rfl, ?_⟩
  refine (relayed_iff_one_message_per_chunk h₀ h (by decide) ?_ (by decide) rfl).mpr
    ⟨Or.inr ⟨by decide, 3, rfl⟩, Or.inl ⟨rfl, ?_⟩⟩
  · unfold Server.Connected
    decide
  · unfold CutOff
    decide

end Sysopy.StreamServer
