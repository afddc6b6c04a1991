import Sysopy.Foundation.Broadcast
import Sysopy.QueueChat.Posix

/-!
# The clients of the POSIX message-queue server

The server keeps the queue and the name of a client in two arrays and excludes
the author of a text by its name. Both arrays are filled and emptied together,
and a name is in use only while the kernel has a queue of that name, so no two
slots share a name: a text goes once to every client but its author.

## Sections

* §1 the invariant
* §2 who gets a text
-/

namespace Sysopy.QueueChat.Posix

open Sysopy.Foundation

/-! ## §1  The invariant -/

/-- The arrays agree with each other and with the queues of the kernel. -/
structure Members (s : Server) : Prop where
  /-- a slot has a queue or neither queue nor name -/
  slot : ∀ i, s.clientsQueueIds i = emptyClientSlot ↔ s.clientNames i = none
  /-- the queue of a slot is the queue of its name -/
  named : ∀ i name, s.clientNames i = some name →
    ∃ q : ℕ, s.queues.named name = some q ∧ s.clientsQueueIds i = (q : ℤ)
  /-- no two slots have a name in common -/
  distinct : ∀ i j name, s.clientNames i = some name → s.clientNames j = some name → i = j
  /-- the next queue is new -/
  fresh : ∀ i, s.clientsQueueIds i < (s.queues.fresh : ℤ)
  /-- no two slots have a queue in common -/
  apart : ∀ i j, s.clientsQueueIds i ≠ emptyClientSlot →
    s.clientsQueueIds i = s.clientsQueueIds j → i = j

theorem members_start (queues : Queues) : Members (server queues).init where
  slot _ := ⟨fun _ => rfl, fun _ => rfl⟩
  named _ _ h := absurd h (Option.some_ne_none _).symm
  distinct _ _ _ h := absurd h (Option.some_ne_none _).symm
  fresh _ := by
    show emptyClientSlot < _
    unfold emptyClientSlot
    omega
  apart _ _ h := absurd rfl h

/-- A name without a queue is in no slot. -/
theorem Members.clientNames_ne {s : Server} (hs : Members s) {name : Name}
    (hname : s.queues.named name = none) (i : Slot) : s.clientNames i ≠ some name := by
  intro hi
  obtain ⟨q, hq, -⟩ := hs.named i name hi
  rw [hname] at hq
  exact absurd hq.symm (Option.some_ne_none _)

theorem Members.register {s : Server} (hs : Members s) {name : Name} {i : Slot}
    (hname : s.queues.named name = none) (hi : s.clientsQueueIds i = emptyClientSlot) :
    Members (s.register name i) where
  slot k := by
    by_cases hk : k = i
    · subst hk
      simp [Server.register, QueueIds.natCast_ne_empty]
    · simpa [Server.register, Function.update_of_ne hk] using hs.slot k
  named k name' h := by
    simp only [Server.register] at h ⊢
    by_cases hk : k = i
    · subst hk
      rw [Function.update_self, Option.some.injEq] at h
      subst h
      exact ⟨s.queues.fresh, Function.update_self .., Function.update_self ..⟩
    · rw [Function.update_of_ne hk] at h
      obtain ⟨q, hq, hid⟩ := hs.named k name' h
      exact ⟨q, update_of_named hname hq, (Function.update_of_ne hk ..).trans hid⟩
  distinct k l name' hk hl := by
    simp only [Server.register, Function.update_apply] at hk hl
    split_ifs at hk hl with h1 h2 h2
    · rw [h1, h2]
    · exact absurd (hl.trans hk.symm) (hs.clientNames_ne hname l)
    · exact absurd (hk.trans hl.symm) (hs.clientNames_ne hname k)
    · exact hs.distinct k l name' hk hl
  fresh k := by
    have hlt := hs.fresh k
    simp only [Server.register, Function.update_apply]
    split_ifs <;> omega
  apart k l hk hkl := by
    have hfresh : ∀ j, s.clientsQueueIds j ≠ (s.queues.fresh : ℤ) := fun j => (hs.fresh j).ne
    simp only [Server.register, Function.update_apply] at hk hkl
    split_ifs at hk hkl with h1 h2 h2
    · rw [h1, h2]
    · exact absurd hkl.symm (hfresh l)
    · exact absurd hkl (hfresh k)
    · exact hs.apart k l hk hkl

theorem Members.leave {s : Server} (hs : Members s) {name : Name} {i : Slot}
    (hi : s.clientNames i = some name) : Members (s.leave name i) where
  slot k := by
    by_cases hk : k = i
    · subst hk
      simp [Server.leave]
    · simpa [Server.leave, Function.update_of_ne hk] using hs.slot k
  named k name' h := by
    simp only [Server.leave, Queues.unlink, Function.update_apply] at h ⊢
    split_ifs at h with hk
    have hne : name' ≠ name := fun heq => hk (hs.distinct k i name (heq ▸ h) hi)
    rw [if_neg hne, if_neg hk]
    exact hs.named k name' h
  distinct k l name' hk hl := by
    simp only [Server.leave, Function.update_apply] at hk hl
    split_ifs at hk hl
    exact hs.distinct k l name' hk hl
  fresh k := by
    have hlt := hs.fresh k
    have hempty : emptyClientSlot < (s.queues.fresh : ℤ) := by
      unfold emptyClientSlot
      omega
    simp only [Server.leave, Queues.unlink, Function.update_apply]
    split_ifs
    · exact hempty
    · exact hlt
  apart k l hk hkl := by
    simp only [Server.leave, Function.update_apply] at hk hkl
    split_ifs at hk hkl with h1 h2
    · exact absurd rfl hk
    · exact absurd rfl hk
    · exact absurd hkl hk
    · exact hs.apart k l hk hkl

/-- The exit of a client without a slot unlinks a name that no slot has. -/
theorem Members.unlink {s : Server} (hs : Members s) {name : Name}
    (hname : ∀ i, s.clientNames i ≠ some name) :
    Members { s with queues := s.queues.unlink name } where
  slot := hs.slot
  named k name' h := by
    have hne : name' ≠ name := fun heq => hname k (heq ▸ h)
    obtain ⟨q, hq, hid⟩ := hs.named k name' h
    exact ⟨q, (Function.update_of_ne hne ..).trans hq, hid⟩
  distinct := hs.distinct
  fresh := hs.fresh
  apart := hs.apart

theorem Members.handle {s t : Server} (hs : Members s) {msg : Message} {opened : Bool}
    {sends : List (ℤ × Message)} (h : handle s msg opened = some (t, sends)) : Members t := by
  rcases handle_cases h with ⟨-, rfl, -⟩ | ⟨-, -, hnamed, i, hi, rfl, -⟩ |
    ⟨-, -, i, hi, rfl, -⟩ | ⟨-, -, hnone, rfl, -⟩ | ⟨-, -, rfl, -⟩
  · exact hs
  · exact hs.register hnamed (findSlot_some hi)
  · exact hs.leave (findName_some hi)
  · exact hs.unlink (findName_none hnone)
  · exact hs

theorem run_members {queues : Queues} {tr : List (Server × Action)} {s : Server}
    (h : (server queues).Run tr s) : Members s := by
  refine h.invariant (I := fun _ s => Members s) (members_start queues) ?_
  intro tr s a t ih hn
  obtain ⟨⟨u, sends⟩, hu, rfl⟩ := Option.map_eq_some_iff.mp hn
  exact ih.handle hu

/-! ## §2  Who gets a text -/

theorem Members.relay_to {s : Server} (hs : Members s) {msg : Message} {i j : Slot}
    (hi : s.clientNames i = some msg.clientId) (hji : j ≠ i)
    (hj : s.clientsQueueIds j ≠ emptyClientSlot) :
    (relay s msg).filter (fun x => x.1 = s.clientsQueueIds j) =
      [(s.clientsQueueIds j, { msg with msgType := msgTypeText })] := by
  refine broadcast_to (fun j => (s.clientsQueueIds j, { msg with msgType := msgTypeText }))
    Prod.fst ((List.nodup_finRange _).filter _) ?_ ?_
  · have hname : s.clientNames j ≠ some msg.clientId := fun h => hji (hs.distinct j i _ h hi)
    simp [hj, hname]
  · intro k _ heq
    exact (hs.apart j k hj heq.symm).symm

theorem Members.relay_not_author {s : Server} (hs : Members s) {msg : Message} {i : Slot}
    (hi : s.clientNames i = some msg.clientId) {x : ℤ × Message} (hx : x ∈ relay s msg) :
    x.1 ≠ s.clientsQueueIds i := by
  simp only [relay, List.mem_map, List.mem_filter, decide_eq_true_eq] at hx
  obtain ⟨k, ⟨-, hk, hname⟩, rfl⟩ := hx
  intro heq
  exact hname (hs.apart k i hk heq ▸ hi)

/-- **The server relays a text to everyone but its author**: in every reachable
state a slot has a queue if and only if it has a name, no name is in two slots,
and a text from the client of slot `i` is sent once to the queue of every other
slot in use and not to that of slot `i`. -/
theorem text_reaches_others {queues : Queues} {tr : List (Server × Action)} {s : Server}
    (h : (server queues).Run tr s) :
    (∀ i, s.clientsQueueIds i ≠ emptyClientSlot ↔ s.clientNames i ≠ none) ∧
    (∀ i j name, s.clientNames i = some name → s.clientNames j = some name → i = j) ∧
    ∀ msg opened i, msg.msgType ≠ msgTypeInit → msg.msgBody ≠ exitText →
      s.clientNames i = some msg.clientId →
      ∃ sends, handle s msg opened = some (s, sends) ∧
        (∀ j, j ≠ i → s.clientsQueueIds j ≠ emptyClientSlot →
          sends.filter (fun x => x.1 = s.clientsQueueIds j) =
            [(s.clientsQueueIds j, { msg with msgType := msgTypeText })]) ∧
        ∀ x ∈ sends, x.1 ≠ s.clientsQueueIds i := by
  have hs := run_members h
  refine ⟨fun i => not_congr (hs.slot i), hs.distinct, ?_⟩
  intro msg opened i htype hbody hi
  refine ⟨relay s msg, ?_, fun j hji hj => hs.relay_to hi hji hj,
    fun x hx => hs.relay_not_author hi hx⟩
  rw [handle, if_neg htype, if_neg hbody]

/-- Two clients register; the text of the first one goes to the second. -/
theorem text_reaches_others_two : ∃ tr s,
    (server { named := fun _ => none, fresh := 0 }).Run tr s ∧
    (handle s ⟨2, [47, 97], [], [104, 105, 10]⟩ true).map Prod.snd =
      some [(1, ⟨2, [47, 97], [], [104, 105, 10]⟩)] ∧
    ∀ i, s.clientsQueueIds i ≠ emptyClientSlot ↔ s.clientNames i ≠ none := by
  have h := (server { named := fun _ => none, fresh := 0 }).run_of_replay
    [⟨⟨1, [47, 97], [], []⟩, true⟩, ⟨⟨1, [47, 98], [], []⟩, true⟩] rfl
  exact ⟨_, _, h, by decide, (text_reaches_others h).1⟩

end Sysopy.QueueChat.Posix
