import Sysopy.QueueChat.Conversation

/-!
# Who the POSIX server waits for

`mq_send` to a full queue waits until its client reads. A client that has ended reads
no more, and the server does not look at its main queue before the call returns: so it
never gets to the message that would empty the slot.

## Sections

* §1 a call that never returns
* §2 a call that can return
* §3 a client that is gone
-/

namespace Sysopy.QueueChat.Conversation

open Sysopy.Foundation
open Sysopy.QueueChat.Exclusive (ClientPc World)
open Sysopy.QueueChat.Fields (Identifier)
open Sysopy.QueueChat.Posix (Server)

variable {P : Type*} [DecidableEq P] {found : Found} {ids : P → Identifier} {c d : Chat P}

/-! ## §1  A call that never returns -/

/-- Client `p` reads the queue, or can still come to read it while the server waits: it
has been told nothing yet and opens the queue by its name. -/
def CanRead (ids : P → Identifier) (c : Chat P) (q : ℤ) (p : P) : Prop :=
  match c.world.client p with
  | .loop q' => (q' : ℤ) = q
  | .opening _ => ∃ q' : ℕ, c.world.server.queues.named (ids p).clientId = some q' ∧ (q' : ℤ) = q
  | .send => ¬ c.Full ∧
      ∃ q' : ℕ, c.world.server.queues.named (ids p).clientId = some q' ∧ (q' : ℤ) = q
  | _ => False

/-- The queue of the next call is full and nobody will read it. -/
def Wedged (ids : P → Identifier) (c : Chat P) : Prop :=
  ∃ x rest, c.sending = x :: rest ∧ mqMaxmsg ≤ (c.queue x.1).length ∧ ∀ p, ¬ CanRead ids c x.1 p

/-- One client has moved, and can read no queue that it could not read before. -/
theorem nobody_of_moved {q : ℤ} {p : P} {pc : ClientPc}
    (hclient : d.world.client = Function.update c.world.client p pc)
    (hserver : d.world.server = c.world.server)
    (hmail : c.world.mailbox.length ≤ d.world.mailbox.length)
    (hnobody : ∀ p', ¬ CanRead ids c q p') (hmoved : CanRead ids d q p → CanRead ids c q p)
    (p' : P) : ¬ CanRead ids d q p' := by
  intro hread
  by_cases hp : p' = p
  · subst hp
    exact hnobody p' (hmoved hread)
  · apply hnobody p'
    rw [CanRead, hclient, Function.update_of_ne hp, hserver] at hread
    rw [CanRead]
    cases hpc : c.world.client p' with
    | send =>
        simp only [hpc] at hread
        -- the main queue has not been emptied
        exact ⟨fun hfull => hread.1 (hfull.trans hmail), hread.2⟩
    | check => simp only [hpc] at hread
    | opening n => simpa only [hpc] using hread
    | loop q' => simpa only [hpc] using hread
    | exited => simp only [hpc] at hread

omit [DecidableEq P] in
/-- A client that starts up can read what its name has been given. -/
theorem canRead_of_starts {p : P} {pc : ClientPc} {q : ℤ} (h : Starts ids c.world p pc)
    (hclient : d.world.client p = pc) (hserver : d.world.server = c.world.server)
    (hread : CanRead ids d q p) : CanRead ids c q p := by
  rw [CanRead, hclient, hserver] at hread
  cases h with
  | pass _ hnone =>
      obtain ⟨-, q', hnamed, -⟩ := hread
      exact absurd (hnone.symm.trans hnamed) (Option.some_ne_none q').symm
  | retry n m hpc =>
      rw [CanRead, hpc]
      exact hread
  | opens n q' hpc hnamed =>
      rw [CanRead, hpc]
      exact ⟨q', hnamed, hread⟩
  | ends => exact absurd hread id

omit [DecidableEq P] in
theorem canRead_of_posts {p : P} {pc : ClientPc} {q : ℤ} (h : Posts c.world p pc)
    (hroom : ¬ c.Full) (hclient : d.world.client p = pc)
    (hserver : d.world.server = c.world.server) (hread : CanRead ids d q p) :
    CanRead ids c q p := by
  rw [CanRead, hclient, hserver] at hread
  cases h with
  | init hpc =>
      rw [CanRead, hpc]
      exact ⟨hroom, hread⟩
  | text q' hpc =>
      rw [CanRead, hpc]
      exact hread
  | exit => exact absurd hread id

/-- A wedged server stays so, with the same call and the same table. -/
theorem Wedged.next (hc : Wedged ids c) {a : Action P} (h : next ids c a = some d) :
    Wedged ids d ∧ d.sending = c.sending ∧ d.world.server = c.world.server := by
  obtain ⟨x, rest, hsending, hfull, hnobody⟩ := hc
  cases does_of_next h with
  | move _ p pc hstarts =>
      refine ⟨⟨x, rest, hsending, hfull, nobody_of_moved rfl rfl le_rfl hnobody ?_⟩, rfl, rfl⟩
      exact canRead_of_starts hstarts (Function.update_self ..) rfl
  | post _ p pc msg hroom hposts =>
      have hmail : c.world.mailbox.length ≤ (c.world.mailbox ++ [msg]).length := by
        rw [List.length_append]
        exact Nat.le_add_right _ _
      refine ⟨⟨x, rest, hsending, hfull, nobody_of_moved rfl rfl hmail hnobody ?_⟩, rfl, rfl⟩
      exact canRead_of_posts hposts hroom (Function.update_self ..) rfl
  | take _ _ _ _ _ hnone =>
      rw [hnone] at hsending
      exact absurd hsending (List.cons_ne_nil _ _).symm
  | send q msg rest' hsending' hroom =>
      rw [hsending', List.cons.injEq] at hsending
      obtain ⟨rfl, -⟩ := hsending
      exact absurd hfull (Nat.not_le_of_lt hroom)
  | receive p q msg rest' pc hp hqueue hpc =>
      -- the client that reads has another queue
      have hne : x.1 ≠ (q : ℤ) := by
        intro heq
        apply hnobody p
        rw [CanRead, hp]
        exact heq.symm
      have hfull' : mqMaxmsg ≤ (Function.update c.queue q rest' x.1).length := by
        rw [Function.update_of_ne hne]
        exact hfull
      refine ⟨⟨x, rest, hsending, hfull', nobody_of_moved rfl rfl le_rfl hnobody ?_⟩, rfl, rfl⟩
      intro hread
      simp only [CanRead, Function.update_self] at hread
      rcases hpc with rfl | rfl
      · exact absurd hread id
      · exact absurd hread.symm hne

theorem Wedged.path (hc : Wedged ids c) {tr : List (Chat P × Action P)}
    (h : (chat found ids).Path c tr d) :
    d.sending = c.sending ∧ d.world.server = c.world.server := by
  suffices hall : Wedged ids d ∧ d.sending = c.sending ∧ d.world.server = c.world.server from
    hall.2
  refine h.invariant (I := fun _ d => Wedged ids d ∧ d.sending = c.sending ∧
    d.world.server = c.world.server) ⟨hc, rfl, rfl⟩ ?_
  rintro _ e a f ⟨he, hsending, hserver⟩ hn
  obtain ⟨hf, hsending', hserver'⟩ := he.next hn
  exact ⟨hf, hsending'.trans hsending, hserver'.trans hserver⟩

/-! ## §2  A call that can return -/

omit [DecidableEq P] in
theorem sendMessage_of_room {x : ℤ × Message} {rest : List (ℤ × Message)}
    (hsending : c.sending = x :: rest) (hroom : (c.queue x.1).length < mqMaxmsg) :
    ∃ d, sendMessage c = some d ∧ d.sending = rest := by
  refine ⟨{ c with
    sending := rest, queue := Function.update c.queue x.1 (c.queue x.1 ++ [x.2]) }, ?_, rfl⟩
  unfold sendMessage
  simp only [hsending]
  exact if_pos hroom

theorem receiverTurn_of_queue {p : P} {q : ℕ} {msg : Message} {msgs : List Message}
    (hp : c.world.client p = .loop q) (hqueue : c.queue q = msg :: msgs) :
    ∃ d, receiverTurn c p = some d ∧ d.sending = c.sending ∧ d.queue q = msgs := by
  have hturn : ∃ pc : ClientPc, receiverTurn c p = some { c with
      world := { c.world with client := Function.update c.world.client p pc }
      queue := Function.update c.queue q msgs } :=
    ⟨if msg.msgBody = exitWord then .exited else .loop q, by
      simp only [receiverTurn, hp, hqueue]⟩
  obtain ⟨pc, hturn⟩ := hturn
  exact ⟨_, hturn, rfl, Function.update_self ..⟩

theorem exists_path_of_room {x : ℤ × Message} {rest : List (ℤ × Message)}
    (hsending : c.sending = x :: rest) (hroom : (c.queue x.1).length < mqMaxmsg) :
    ∃ tr d, (chat found ids).Path c tr d ∧ d.sending = rest := by
  obtain ⟨d, hd, hrest⟩ := sendMessage_of_room hsending hroom
  have hn : (chat found ids).next c .send = some d := hd
  exact ⟨_, d, System.Path.cons hn System.Path.nil, hrest⟩

theorem exists_path_of_reader (hc : Kept c) {x : ℤ × Message} {rest : List (ℤ × Message)}
    (hsending : c.sending = x :: rest) (hfull : mqMaxmsg ≤ (c.queue x.1).length) {p : P} {q : ℕ}
    (hp : c.world.client p = .loop q) (hq : (q : ℤ) = x.1) :
    ∃ tr d, (chat found ids).Path c tr d ∧ d.sending = rest := by
  have hle := hc.room x.1
  cases hqueue : c.queue x.1 with
  | nil =>
      rw [hqueue] at hfull
      exact absurd hfull (by decide)
  | cons msg msgs =>
      obtain ⟨d, hd, hsending', hqueue'⟩ := receiverTurn_of_queue hp (hq ▸ hqueue)
      have hroom : (d.queue x.1).length < mqMaxmsg := by
        rw [hqueue, List.length_cons] at hle
        rw [← hq, hqueue']
        exact hle
      obtain ⟨tr, e, hpath, hrest⟩ := exists_path_of_room (hsending'.trans hsending) hroom
      have hn : (chat found ids).next c (.receive p) = some d := hd
      exact ⟨_, e, System.Path.cons hn hpath, hrest⟩

theorem exists_path_of_opening (hc : Kept c) {x : ℤ × Message} {rest : List (ℤ × Message)}
    (hsending : c.sending = x :: rest) (hfull : mqMaxmsg ≤ (c.queue x.1).length) {p : P} {n q : ℕ}
    (hp : c.world.client p = .opening n)
    (hnamed : c.world.server.queues.named (ids p).clientId = some q) (hq : (q : ℤ) = x.1) :
    ∃ tr d, (chat found ids).Path c tr d ∧ d.sending = rest := by
  have hn : Conversation.next ids c (.client p true) = some { c with world := { c.world with
      client := Function.update c.world.client p (.loop q) } } := by
    simp [Conversation.next, Exclusive.clientStep, hp, hnamed]
  have hd := hc.next hn
  obtain ⟨tr, e, hpath, hrest⟩ := exists_path_of_reader hd hsending hfull
    (Function.update_self ..) hq
  have hn' : (chat found ids).next c (.client p true) = some _ := hn
  exact ⟨_, e, System.Path.cons hn' hpath, hrest⟩

theorem exists_path_of_send (hc : Kept c) {x : ℤ × Message} {rest : List (ℤ × Message)}
    (hsending : c.sending = x :: rest) (hfull : mqMaxmsg ≤ (c.queue x.1).length) {p : P} {q : ℕ}
    (hp : c.world.client p = .send) (hroom : ¬ c.Full)
    (hnamed : c.world.server.queues.named (ids p).clientId = some q) (hq : (q : ℤ) = x.1) :
    ∃ tr d, (chat found ids).Path c tr d ∧ d.sending = rest := by
  have hn : Conversation.next ids c (.client p true) = some { c with world := { c.world with
      mailbox := c.world.mailbox ++ [⟨Posix.msgTypeInit, (ids p).clientId, [], []⟩]
      client := Function.update c.world.client p (.opening 0) } } := by
    simp [Conversation.next, Exclusive.clientStep, hp, hroom]
  have hd := hc.next hn
  obtain ⟨tr, e, hpath, hrest⟩ := exists_path_of_opening hd hsending hfull
    (Function.update_self ..) hnamed hq
  have hn' : (chat found ids).next c (.client p true) = some _ := hn
  exact ⟨_, e, System.Path.cons hn' hpath, hrest⟩

/-- **The server waits for good** exactly when the queue of its next call is full and no
client reads it or can still open it: in every continuation it is then at this call with
this table, and otherwise some continuation lets the call return. -/
theorem waits_for_good_iff {tr : List (Chat P × Action P)} (h : (chat found ids).Run tr c)
    {x : ℤ × Message} {rest : List (ℤ × Message)} (hsending : c.sending = x :: rest) :
    (∀ tr' d, (chat found ids).Path c tr' d →
      d.sending = x :: rest ∧ d.world.server = c.world.server) ↔
    mqMaxmsg ≤ (c.queue x.1).length ∧ ∀ p, ¬ CanRead ids c x.1 p := by
  constructor
  · intro hstays
    -- a continuation in which the call returns is none of these
    have hnone : ¬ ∃ tr d, (chat found ids).Path c tr d ∧ d.sending = rest := by
      rintro ⟨tr', d, hpath, hrest⟩
      have hlen := congrArg List.length ((hstays tr' d hpath).1.symm.trans hrest)
      rw [List.length_cons] at hlen
      omega
    have hc := run_kept h
    have hfull : mqMaxmsg ≤ (c.queue x.1).length := by
      by_contra hroom
      exact hnone (exists_path_of_room hsending (Nat.lt_of_not_le hroom))
    refine ⟨hfull, fun p hread => hnone ?_⟩
    rw [CanRead] at hread
    cases hpc : c.world.client p with
    | check => simp only [hpc] at hread
    | exited => simp only [hpc] at hread
    | loop q =>
        simp only [hpc] at hread
        exact exists_path_of_reader hc hsending hfull hpc hread
    | opening n =>
        simp only [hpc] at hread
        obtain ⟨q, hnamed, hq⟩ := hread
        exact exists_path_of_opening hc hsending hfull hpc hnamed hq
    | send =>
        simp only [hpc] at hread
        obtain ⟨hroom, q, hnamed, hq⟩ := hread
        exact exists_path_of_send hc hsending hfull hpc hroom hnamed hq
  · rintro ⟨hfull, hnobody⟩ tr' d hpath
    obtain ⟨hsame, hserver⟩ := Wedged.path ⟨x, rest, hsending, hfull, hnobody⟩ hpath
    exact ⟨hsame.trans hsending, hserver⟩

/-- Both clients join, the second one is killed, and the first one greets nine times. -/
def deserted : List (Action Bool) :=
  greetingSchedule.take 8 ++ [.die true] ++
    (List.replicate 8 [.text false 0 Fields.hiLine, .server true, .send]).flatten ++
    [.text false 0 Fields.hiLine, .server true]

/-- The call at which the server then waits. -/
def lastGreeting : ℤ × Message :=
  (1, ⟨2, [47, 98], [49, 50, 58, 51, 52, 58, 53, 54], [104, 105]⟩)

theorem waits_for_good_deserted : ∃ tr c, (chat nothingFound twoIds).Run tr c ∧
    ∀ tr' d, (chat nothingFound twoIds).Path c tr' d →
      d.sending = [lastGreeting] ∧ d.world.server = c.world.server := by
  have hreplay : ((chat nothingFound twoIds).replay deserted).map (fun r =>
      (r.2.sending, (r.2.queue lastGreeting.1).length, r.2.world.client false,
      r.2.world.client true)) =
      some ([lastGreeting], mqMaxmsg, .loop 0, .exited) := by decide +kernel
  obtain ⟨⟨tr, c⟩, hrun, heq⟩ := Option.map_eq_some_iff.mp hreplay
  simp only [Prod.mk.injEq] at heq
  obtain ⟨hsending, hfull, hzero, hone⟩ := heq
  have h := System.run_of_replay _ hrun
  refine ⟨tr, c, h, (waits_for_good_iff h hsending).mpr ⟨hfull.ge, fun p hread => ?_⟩⟩
  rw [CanRead] at hread
  match p with
  | false =>
      rw [hzero] at hread
      exact absurd hread (show ¬ ((0 : ℕ) : ℤ) = 1 by decide)
  | true =>
      rw [hone] at hread
      exact hread

/-! ## §3  A client that is gone -/

/-- No client reads the queue, and none that starts up has its name. -/
def Forsaken (ids : P → Identifier) (c : Chat P) (q : ℕ) : Prop :=
  ∀ p, c.world.client p ≠ .loop q ∧
    ((c.world.client p).Starts → c.world.server.queues.named (ids p).clientId ≠ some q)

/-- The kernel does not give out a number twice. -/
theorem fresh_mono {a : Action P} (h : next ids c a = some d) :
    c.world.server.queues.fresh ≤ d.world.server.queues.fresh := by
  cases does_of_next h with
  | take _ _ _ _ _ _ _ hhandle => exact (queues_handle hhandle).1
  | _ => exact le_rfl

/-- One client has moved, and neither reads the queue nor will open it. -/
theorem Forsaken.moved {q : ℕ} (hq : Forsaken ids c q) {p : P} {pc : ClientPc}
    (hclient : d.world.client = Function.update c.world.client p pc)
    (hserver : d.world.server = c.world.server) (hpc : pc ≠ .loop q ∧
      (pc.Starts → c.world.server.queues.named (ids p).clientId ≠ some q)) :
    Forsaken ids d q := by
  intro p'
  rw [hclient, hserver, Function.update_apply]
  split_ifs with hp
  · subst hp
    exact hpc
  · exact hq p'

omit [DecidableEq P] in
/-- A client of the name does not pass the check while the queue is there. -/
theorem Forsaken.starts {q : ℕ} (hq : Forsaken ids c q) {p : P} {pc : ClientPc}
    (hstarts : Starts ids c.world p pc) : pc ≠ .loop q ∧
      (pc.Starts → c.world.server.queues.named (ids p).clientId ≠ some q) := by
  cases hstarts with
  | pass _ hnone =>
      refine ⟨ClientPc.noConfusion, fun _ hnamed => ?_⟩
      exact absurd (hnone.symm.trans hnamed) (Option.some_ne_none q).symm
  | retry n m hpc =>
      refine ⟨ClientPc.noConfusion, fun _ => (hq p).2 ?_⟩
      rw [hpc]
      trivial
  | opens n q' hpc hnamed =>
      refine ⟨fun heq => ?_, False.elim⟩
      rw [ClientPc.loop.inj heq] at hnamed
      refine (hq p).2 ?_ hnamed
      rw [hpc]
      trivial
  | ends => exact ⟨ClientPc.noConfusion, False.elim⟩

omit [DecidableEq P] in
theorem Forsaken.posts {q : ℕ} (hq : Forsaken ids c q) {p : P} {pc : ClientPc}
    (hposts : Posts c.world p pc) : pc ≠ .loop q ∧
      (pc.Starts → c.world.server.queues.named (ids p).clientId ≠ some q) := by
  cases hposts with
  | init hpc =>
      refine ⟨ClientPc.noConfusion, fun _ => (hq p).2 ?_⟩
      rw [hpc]
      trivial
  | text q' hpc => exact ⟨hpc ▸ (hq p).1, False.elim⟩
  | exit => exact ⟨ClientPc.noConfusion, False.elim⟩

/-- Nobody comes back to a queue: while it is there its name is taken, and afterwards the
name gets a new one. -/
theorem Forsaken.next {q : ℕ} (hq : Forsaken ids c q) (hold : q < c.world.server.queues.fresh)
    {a : Action P} (h : next ids c a = some d) : Forsaken ids d q ∧ reads q c a = [] := by
  cases does_of_next h with
  | move _ p pc hstarts _ _ hreads => exact ⟨hq.moved rfl rfl (hq.starts hstarts), hreads q⟩
  | post _ p pc msg _ hposts _ _ hreads => exact ⟨hq.moved rfl rfl (hq.posts hposts), hreads q⟩
  | take opened msg rest s sends _ _ hhandle =>
      refine ⟨fun p => ⟨(hq p).1, fun hstarts hnamed => ?_⟩, rfl⟩
      rcases (queues_handle hhandle).2 _ q hnamed with hnamed' | ⟨rfl, -⟩
      · exact (hq p).2 hstarts hnamed'
      · exact absurd hold (Nat.lt_irrefl _)
  | send => exact ⟨hq, rfl⟩
  | receive p q' msg rest pc hp hqueue hpc =>
      have hne : q' ≠ q := fun heq => (hq p).1 (heq ▸ hp)
      have hne' : (q' : ℤ) ≠ (q : ℤ) := fun heq => hne (Int.ofNat_inj.mp heq)
      refine ⟨hq.moved rfl rfl ?_, by simp [reads, hp, hne']⟩
      rcases hpc with rfl | rfl
      · exact ⟨ClientPc.noConfusion, False.elim⟩
      · exact ⟨fun heq => hne (ClientPc.loop.inj heq), False.elim⟩

omit [DecidableEq P] in
/-- What is underway to a client is a full queue and one message at most. -/
theorem length_underway_le (hc : Kept c) (q : ℕ) : (underway q c).length ≤ mqMaxmsg + 1 := by
  have hone : (callsTo q c.sending).length ≤ 1 := by
    rw [callsTo, List.length_map, ← List.countP_eq_length_filter]
    calc c.sending.countP (fun x => decide (x.1 = (q : ℤ)))
        = (c.sending.map Prod.fst).count (q : ℤ) := by
          rw [List.count, List.countP_map]
          rfl
      _ ≤ 1 := List.nodup_iff_count_le_one.mp hc.once _
  rw [underway, List.length_append]
  exact Nat.add_le_add (hc.room q) hone

/-- **A client that is gone halts the server**: after a queue has lost its reader, in
every continuation nothing is read from it, and the texts the server handles while a slot
of another name than the author's has this queue are, with what was underway to it
before, at most nine. -/
theorem texts_after_reader_gone {tr : List (Chat P × Action P)} (h : (chat found ids).Run tr c)
    {q : ℕ} (hq : Forsaken ids c q) (hold : q < c.world.server.queues.fresh)
    {tr' : List (Chat P × Action P)} (h' : (chat found ids).Path c tr' d) :
    observe (reads q) tr' = [] ∧
    (underway q c).length +
      ((observe handles tr').filter fun x => Hears q x.1 x.2).length ≤ mqMaxmsg + 1 := by
  have hc := run_kept h
  have hreads : (Forsaken ids d q ∧ q < d.world.server.queues.fresh) ∧
      observe (reads q) tr' = [] := by
    refine h'.invariant (I := fun tr' d => (Forsaken ids d q ∧
      q < d.world.server.queues.fresh) ∧ observe (reads q) tr' = []) ⟨⟨hq, hold⟩, rfl⟩ ?_
    rintro tr'' e a f ⟨⟨he, hlt⟩, hnone⟩ hn
    obtain ⟨hf, hread⟩ := he.next hlt hn
    refine ⟨⟨hf, hlt.trans_le (fresh_mono hn)⟩, ?_⟩
    rw [observe_snoc, hnone, hread]
    rfl
  obtain ⟨hd, hmoves⟩ := h'.moves (underway q) (heard q) (reads q) hc
    fun _ _ _ hc hn => ⟨hc.next hn, underway_moves hc q hn⟩
  refine ⟨hreads.2, ?_⟩
  have hlen := hmoves.length_eq
  rw [observe_heard, hreads.2, List.length_map, List.length_nil, Nat.zero_add] at hlen
  rw [hlen]
  exact length_underway_le hd q

theorem texts_after_reader_gone_deserted : ∃ tr c, (chat nothingFound twoIds).Run tr c ∧
    ∀ tr' d, (chat nothingFound twoIds).Path c tr' d →
      ((observe handles tr').filter fun x => Hears 1 x.1 x.2).length ≤ 9 := by
  have hreplay : ((chat nothingFound twoIds).replay (greetingSchedule.take 8 ++ [.die true])).map
      (fun r => (r.2.world.server.queues.fresh, r.2.world.client false, r.2.world.client true)) =
      some (2, .loop 0, .exited) := by decide +kernel
  obtain ⟨⟨tr, c⟩, hrun, heq⟩ := Option.map_eq_some_iff.mp hreplay
  simp only [Prod.mk.injEq] at heq
  obtain ⟨hfresh, hzero, hone⟩ := heq
  have h := System.run_of_replay _ hrun
  have hgone : Forsaken twoIds c 1 := by
    intro p
    match p with
    | false =>
        rw [hzero]
        exact ⟨fun heq => absurd (ClientPc.loop.inj heq) (by decide), False.elim⟩
    | true =>
        rw [hone]
        exact ⟨ClientPc.noConfusion, False.elim⟩
  refine ⟨tr, c, h, fun tr' d h' => ?_⟩
  have hbound := (texts_after_reader_gone h hgone (Nat.one_lt_two.trans_eq hfresh.symm) h').2
  exact (Nat.le_add_left _ _).trans hbound

end Sysopy.QueueChat.Conversation
