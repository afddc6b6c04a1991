import Sysopy.ChatClient.Client

/-!
# Delivery between the two threads of the chat client

A waiting message is never stranded: either the signal is pending, or the
handler will still empty the buffer, or the stdin thread has yet to signal. But
the handler sends as many messages as waited before it took the lock; what was
appended in between is copied, erased from the buffer and not sent.

## Sections

* §1 the invariant of the two threads
* §2 no message is stranded
* §3 no message is lost
-/

namespace Sysopy.ChatClient

open Sysopy.Foundation

/-! ## §1  The invariant of the two threads -/

/-- The stdin thread is between `lock_data_mutex` and `unlock_data_mutex`. -/
def StdinPc.holds : StdinPc → Bool
  | .resize _ | .append _ | .count _ | .unlock => true
  | _ => false

/-- The handler is between `lock_data_mutex` and `unlock_data_mutex`. -/
def HandlerPc.holds : HandlerPc → Bool
  | .copy _ | .reset _ _ | .unlock _ _ => true
  | _ => false

/-- The handler is running and has not yet reset `messages_waiting`. -/
def HandlerPc.resets : HandlerPc → Bool
  | .test | .read | .lock _ | .copy _ | .reset _ _ => true
  | _ => false

/-- The stdin thread has counted a message and not yet signalled it. -/
def StdinPc.signals : StdinPc → Bool
  | .unlock | .kill => true
  | _ => false

/-- What the local variables of the handler say about `messages_waiting`. -/
def HandlerPc.Counts (waiting : ℕ) : HandlerPc → Prop
  | .lock num | .copy num => num ≤ waiting
  | .reset num cpy => num ≤ waiting ∧ cpy.length = waiting
  | .unlock num cpy => num ≤ cpy.length
  | .send num cpy i => num ≤ cpy.length ∧ i ≤ num
  | _ => True

/-- What every reachable state satisfies. -/
structure Sound (s : Client) : Prop where
  io : s.mutex = some .io ↔ s.stdin.holds = true
  main : s.mutex = some .main ↔ s.handler.holds = true
  counts : s.handler.Counts s.messagesWaiting
  signalled : 0 < s.messagesWaiting →
    s.pending = true ∨ s.handler.resets = true ∨ s.stdin.signals = true

variable {myId : Message} {messages : ℕ → Message}

theorem sound_start : Sound (client myId messages).init where
  io := by simp [client, StdinPc.holds]
  main := by simp [client, HandlerPc.holds]
  counts := trivial
  signalled := fun h => absurd h (lt_irrefl 0)

/-- A message counted outside the handler's critical section only adds to what
waits. -/
theorem HandlerPc.Counts.succ {waiting : ℕ} {pc : HandlerPc} (h : pc.Counts waiting)
    (hpc : pc.holds = false) : pc.Counts (waiting + 1) := by
  cases pc with
  | lock num => exact Nat.le_succ_of_le h
  | copy num => exact Bool.noConfusion hpc
  | reset num cpy => exact Bool.noConfusion hpc
  | _ => exact h

theorem Sound.stdinRead {s s' : Client} (hs : Sound s) (hn : s.stdinRead = some s') :
    Sound s' := by
  obtain ⟨hio, hmain, hcounts, hsignalled⟩ := hs
  cases stdinStep hn with
  | lock msg hpc hfree =>
      refine ⟨by simp [StdinPc.holds], ?_, hcounts, fun hw => ?_⟩
      · simpa [hfree] using hmain
      · simpa [hpc, StdinPc.signals] using hsignalled hw
  | enlarge msg hpc | resize msg hpc =>
      have hsig : 0 < s.messagesWaiting → s.pending = true ∨ s.handler.resets = true := by
        simpa [hpc, StdinPc.signals] using hsignalled
      have hio' : s.mutex = some .io := hio.mpr (by rw [hpc]; rfl)
      exact ⟨by simpa [StdinPc.holds] using hio', hmain, hcounts,
        fun hw => (hsig hw).imp_right Or.inl⟩
  | append msg hpc =>
      have hio' : s.mutex = some .io := hio.mpr (by rw [hpc]; rfl)
      refine ⟨by simpa [StdinPc.holds] using hio', hmain, hcounts, fun hw => ?_⟩
      simpa [hpc, StdinPc.signals] using hsignalled hw
  | count msg hpc =>
      have hio' : s.mutex = some .io := hio.mpr (by rw [hpc]; rfl)
      -- the stdin thread has the mutex, so the handler is outside its critical section
      have hfree : s.handler.holds = false := by
        rw [← Bool.not_eq_true, ← hmain, hio']
        simp
      exact ⟨by simpa [StdinPc.holds] using hio', hmain, hcounts.succ hfree,
        fun _ => Or.inr (Or.inr rfl)⟩
  | unlock hpc =>
      have hio' : s.mutex = some .io := hio.mpr (by rw [hpc]; rfl)
      refine ⟨by simp [StdinPc.holds], ?_, hcounts, fun _ => Or.inr (Or.inr rfl)⟩
      simpa [hio'] using hmain
  | kill hpc =>
      exact ⟨by simpa [hpc, StdinPc.holds] using hio, hmain, hcounts, fun _ => Or.inl rfl⟩

theorem Sound.sigHandle {s s' : Client} (hs : Sound s) (hn : s.sigHandle = some s') :
    Sound s' := by
  obtain ⟨hio, hmain, hcounts, hsignalled⟩ := hs
  cases handlerStep hn with
  | nothing hpc hzero =>
      rw [hpc] at hmain
      exact ⟨hio, hmain, trivial, fun hw => absurd hzero (Nat.pos_iff_ne_zero.mp hw)⟩
  | test hpc =>
      rw [hpc] at hmain
      exact ⟨hio, hmain, trivial, fun _ => Or.inr (Or.inl rfl)⟩
  | read hpc =>
      rw [hpc] at hmain
      exact ⟨hio, hmain, le_refl s.messagesWaiting, fun _ => Or.inr (Or.inl rfl)⟩
  | lock num hpc hfree =>
      rw [hpc] at hcounts
      refine ⟨?_, by simp [HandlerPc.holds], hcounts, fun _ => Or.inr (Or.inl rfl)⟩
      simpa [hfree] using hio
  | copy num hpc =>
      rw [hpc] at hmain hcounts
      exact ⟨hio, hmain, ⟨hcounts, length_copyWaiting _ _⟩, fun _ => Or.inr (Or.inl rfl)⟩
  | reset num cpy hpc =>
      rw [hpc] at hmain hcounts
      exact ⟨hio, hmain, hcounts.1.trans_eq hcounts.2.symm,
        fun hw => absurd hw (lt_irrefl 0)⟩
  | unlock num cpy hpc =>
      rw [hpc] at hmain hcounts
      have hmain' : s.mutex = some .main := hmain.mpr rfl
      -- the mutex goes back, and the copy is complete
      refine ⟨?_, by simp [HandlerPc.holds], ⟨hcounts, Nat.zero_le num⟩, fun hw => ?_⟩
      · simpa [hmain'] using hio
      · simpa [hpc, HandlerPc.resets] using hsignalled hw
  | send num cpy i hpc hlt =>
      have hsig : 0 < s.messagesWaiting → s.pending = true ∨ s.stdin.signals = true := by
        simpa [hpc, HandlerPc.resets] using hsignalled
      rw [hpc] at hmain hcounts
      exact ⟨hio, hmain, ⟨hcounts.1, hlt⟩, fun hw => (hsig hw).imp_right Or.inr⟩
  | sent num cpy i hpc =>
      have hsig : 0 < s.messagesWaiting → s.pending = true ∨ s.stdin.signals = true := by
        simpa [hpc, HandlerPc.resets] using hsignalled
      rw [hpc] at hmain
      exact ⟨hio, hmain, trivial, fun hw => (hsig hw).imp_right Or.inr⟩

theorem Sound.step {s s' : Client} {a : Action} (hs : Sound s)
    (hn : s.next myId a = some s') : Sound s' := by
  cases a with
  | getline line =>
      simp only [Client.next, Option.ite_none_right_eq_some, Option.some.injEq] at hn
      obtain ⟨hpc, rfl⟩ := hn
      obtain ⟨hio, hmain, hcounts, hsignalled⟩ := hs
      rw [hpc] at hio hsignalled
      exact ⟨hio, hmain, hcounts, hsignalled⟩
  | stdin => exact hs.stdinRead hn
  | signal =>
      simp only [Client.next, Option.ite_none_right_eq_some, Option.some.injEq] at hn
      obtain ⟨⟨-, hpc⟩, rfl⟩ := hn
      obtain ⟨hio, hmain, -, -⟩ := hs
      rw [hpc] at hmain
      exact ⟨hio, hmain, trivial, fun _ => Or.inr (Or.inl rfl)⟩
  | handler => exact hs.sigHandle hn

theorem run_sound {tr : List (Client × Action)} {s : Client}
    (h : (client myId messages).Run tr s) : Sound s :=
  h.invariant (I := fun _ s => Sound s) sound_start fun _ _ _ _ hs hn => hs.step hn

/-! ## §2  No message is stranded -/

/-- **No message is stranded**: whenever messages wait and the stdin thread is
back at `getline`, the signal is pending or the handler has still to reset the
counter; and where the handler can start, the main thread has no mutex. -/
theorem waiting_is_signalled {tr : List (Client × Action)} {s : Client}
    (h : (client myId messages).Run tr s) :
    (0 < s.messagesWaiting → s.stdin = .getline →
      s.pending = true ∨ s.handler.resets = true) ∧
    ((s.next myId .signal).isSome = true → s.mutex ≠ some .main) := by
  have hs := run_sound h
  constructor
  · intro hw hpc
    simpa [hpc, StdinPc.signals] using hs.signalled hw
  · intro hsome hmutex
    obtain ⟨t, ht⟩ := Option.isSome_iff_exists.mp hsome
    simp only [Client.next, Option.ite_none_right_eq_some] at ht
    have hholds := hs.main.mp hmutex
    rw [ht.1.2] at hholds
    exact Bool.noConfusion hholds

/-- One message has been appended and signalled. -/
theorem waiting_is_signalled_one : ∃ tr s, (client [] fun _ => []).Run tr s ∧
    0 < s.messagesWaiting ∧ s.stdin = .getline ∧
    (0 < s.messagesWaiting → s.stdin = .getline →
      s.pending = true ∨ s.handler.resets = true) ∧
    ((s.next [] .signal).isSome = true → s.mutex ≠ some .main) := by
  have h := (client [] fun _ => []).run_of_replay
    ([.getline [97]] ++ List.replicate 6 .stdin) rfl
  exact ⟨_, _, h, by decide, rfl, waiting_is_signalled h⟩

/-! ## §3  No message is lost -/

/-- The messages that a running handler has taken out of the buffer and will
still send. -/
def Client.toSend (s : Client) : ℕ :=
  match s.handler with
  | .unlock num _ => num
  | .send num _ i => num - i
  | _ => 0

/-- The messages taken out of the buffer by one step that will not be sent. -/
def Client.dropped (s : Client) : Action → List Message
  | .handler => match s.handler with
    | .reset num cpy => cpy.drop num
    | _ => []
  | _ => []

/-- When the handler resets the counter, no more messages wait than when it read
the counter. -/
def KeepsCount (s : Client) : Action → Prop
  | .handler => match s.handler with
    | .reset num _ => s.messagesWaiting ≤ num
    | _ => True
  | _ => True

/-- Sent, waiting and still to be sent: every message appended, once. -/
def Accounted (tr : List (Client × Action)) (s : Client) : Prop :=
  (observe Client.sent tr).length + s.messagesWaiting + s.toSend =
    (observe Client.appended tr).length

/-- Of the steps of the stdin thread only `++messages_waiting` counts. -/
theorem stdinRead_moves {s s' : Client} (hn : s.stdinRead = some s') :
    s'.handler = s.handler ∧
    s'.messagesWaiting = s.messagesWaiting + (s.appended .stdin).length := by
  cases stdinStep hn with
  | lock msg hpc | enlarge msg hpc | resize msg hpc | append msg hpc | count msg hpc
  | unlock hpc | kill hpc => simp [Client.appended, hpc]

/-- How a step of the handler moves messages: the reset takes out all that
wait, each `send` sends one. -/
theorem Sound.sigHandle_moves {s s' : Client} (hs : Sound s)
    (hn : s.sigHandle = some s') :
    (s.sent .handler).length + s'.messagesWaiting + s'.toSend +
      (s.dropped .handler).length = s.messagesWaiting + s.toSend := by
  have hcounts := hs.counts
  cases handlerStep hn with
  | nothing hpc | test hpc | read hpc | lock num hpc | copy num hpc | unlock num cpy hpc =>
      simp [Client.sent, Client.dropped, Client.toSend, hpc]
  | reset num cpy hpc =>
      rw [hpc] at hcounts
      obtain ⟨hnum, hlen⟩ := hcounts
      simp only [Client.sent, Client.dropped, Client.toSend, hpc, List.length_nil,
        List.length_drop, hlen]
      omega
  | send num cpy i hpc hlt hlen =>
      rw [hpc] at hcounts
      obtain ⟨hnum, hi⟩ := hcounts
      simp only [Client.sent, Client.dropped, Client.toSend, hpc, if_pos hlt,
        List.getElem?_eq_getElem hlen, Option.toList_some, List.length_singleton,
        List.length_nil]
      omega
  | sent num cpy i hpc hle =>
      rw [hpc] at hcounts
      obtain ⟨hnum, hi⟩ := hcounts
      simp only [Client.sent, Client.dropped, Client.toSend, hpc, if_neg (Nat.not_lt.mpr hle),
        List.length_nil]
      omega

theorem Sound.moves {s s' : Client} {a : Action} (hs : Sound s)
    (hn : s.next myId a = some s') :
    (s.sent a).length + s'.messagesWaiting + s'.toSend + (s.dropped a).length =
      s.messagesWaiting + s.toSend + (s.appended a).length := by
  cases a with
  | getline line =>
      simp only [Client.next, Option.ite_none_right_eq_some, Option.some.injEq] at hn
      obtain ⟨-, rfl⟩ := hn
      simp [Client.sent, Client.appended, Client.dropped, Client.toSend]
  | stdin =>
      obtain ⟨hhandler, hwaiting⟩ := stdinRead_moves hn
      have htoSend : s'.toSend = s.toSend := by rw [Client.toSend, Client.toSend, hhandler]
      rw [hwaiting, htoSend]
      simp only [Client.sent, Client.dropped, List.length_nil]
      omega
  | signal =>
      simp only [Client.next, Option.ite_none_right_eq_some, Option.some.injEq] at hn
      obtain ⟨⟨-, hpc⟩, rfl⟩ := hn
      simp [Client.sent, Client.appended, Client.dropped, Client.toSend, hpc]
  | handler =>
      have h := hs.sigHandle_moves hn
      simpa [Client.appended] using h

theorem Sound.dropped_eq_nil_iff {s : Client} (hs : Sound s) (a : Action) :
    s.dropped a = [] ↔ KeepsCount s a := by
  have hcounts := hs.counts
  unfold Client.dropped KeepsCount
  cases a with
  | handler =>
      cases hpc : s.handler with
      | reset num cpy =>
          rw [hpc] at hcounts
          show cpy.drop num = [] ↔ s.messagesWaiting ≤ num
          rw [List.drop_eq_nil_iff, hcounts.2]
      | _ => exact ⟨fun _ => trivial, fun _ => rfl⟩
  | _ => exact ⟨fun _ => trivial, fun _ => rfl⟩

/-- The ledger of a run: what is missing from the account is what was dropped. -/
structure Ledger (tr : List (Client × Action)) (s : Client) : Prop where
  sound : Sound s
  balance : (observe Client.sent tr).length + s.messagesWaiting + s.toSend +
    (observe Client.dropped tr).length = (observe Client.appended tr).length
  drops : observe Client.dropped tr = [] ↔ ∀ x ∈ tr, KeepsCount x.1 x.2

theorem Ledger.step {tr : List (Client × Action)} {s s' : Client} {a : Action}
    (hl : Ledger tr s) (hn : s.next myId a = some s') : Ledger (tr ++ [(s, a)]) s' where
  sound := hl.sound.step hn
  balance := by
    have hmoves := hl.sound.moves hn
    have hbalance := hl.balance
    simp only [observe_snoc, List.length_append]
    omega
  drops := by
    rw [observe_snoc, List.append_eq_nil_iff, hl.drops, hl.sound.dropped_eq_nil_iff,
      List.forall_mem_append, List.forall_mem_singleton]

theorem run_ledger {tr : List (Client × Action)} {s : Client}
    (h : (client myId messages).Run tr s) : Ledger tr s := by
  refine h.invariant (I := Ledger) ?_ fun _ _ _ _ hl hn => hl.step hn
  exact ⟨sound_start, rfl, by simp⟩

/-- **Messages are lost exactly when one is appended behind the handler's back**:
in every state of every run all appended messages are sent, waiting or still to
be sent if and only if at each reset so far no more messages waited than when
the handler read the counter. -/
theorem accounted_iff_keepsCount {tr : List (Client × Action)} {s : Client}
    (h : (client myId messages).Run tr s) :
    Accounted tr s ↔ ∀ x ∈ tr, KeepsCount x.1 x.2 := by
  obtain ⟨-, hbalance, hdrops⟩ := run_ledger h
  rw [← hdrops, ← List.length_eq_zero_iff, Accounted]
  omega

/-- A second message is appended after the handler has read the counter and
before it takes the lock. -/
theorem late_append_is_dropped : ∃ tr s, (client [] fun _ => []).Run tr s ∧
    ¬ Accounted tr s ∧ (observe Client.appended tr).length = 2 := by
  have h := (client [] fun _ => []).run_of_replay
    ([.getline [97]] ++ List.replicate 6 .stdin ++ [.signal, .handler, .handler] ++
      [.getline [98]] ++ List.replicate 6 .stdin ++ List.replicate 4 .handler) rfl
  refine ⟨_, _, h, ?_, rfl⟩
  unfold Accounted
  decide

/-- One message is appended and sent. -/
theorem accounted_iff_keepsCount_one : ∃ tr s, (client [] fun _ => []).Run tr s ∧
    observe Client.sent tr = [withHeader [] [97]] ∧
    (Accounted tr s ↔ ∀ x ∈ tr, KeepsCount x.1 x.2) := by
  have h := (client [] fun _ => []).run_of_replay
    ([.getline [97]] ++ List.replicate 6 .stdin ++ [.signal] ++ List.replicate 7 .handler) rfl
  exact ⟨_, _, h, rfl, accounted_iff_keepsCount h⟩

end Sysopy.ChatClient
