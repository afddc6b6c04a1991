import Sysopy.DatagramServer.Server
import Sysopy.Foundation.Broadcast

/-!
# Relaying in the datagram server

What handling one datagram does to each slot of the two tables and which
clients it sends to, for both branches at once: a slot of either family is an
element of `Slot ⊕ Slot`. A text is sent once to every other client that was
active in the last 10 seconds and frees the slots of the silent ones, unless it
contains the registration text; then it goes to nobody. A client that `sendto` fails
for ends the server, and nobody behind that client is sent anything.

## Sections

* §1 the forward loop
* §2 registering the sender, then the loop
* §3 one datagram
* §4 who gets a text
-/

namespace Sysopy.DatagramServer

open Sysopy.Foundation

/-! ## §1  The forward loop -/

namespace Table

variable {α : Type*}

/-- The client of slot `i` is active and has been silent for at most 10 seconds. -/
def Recent (t : Table α) (i : Slot) (now : ℤ) : Prop := t.Active i ∧ now - t.pingTime i ≤ 10

instance (t : Table α) (i : Slot) (now : ℤ) : Decidable (t.Recent i now) := by
  unfold Recent
  infer_instance

/-- What passing a slot comes to: a recent client is sent the text, the slot of
any other one is free afterwards. -/
theorem visit_cases (t : Table α) (i : Slot) (now : ℤ) :
    (t.Recent i now ∧ t.visit i now = (t, [t.clients i])) ∨
    (¬ t.Recent i now ∧
      t.visit i now = ({ t with pingTime := Function.update t.pingTime i (-1) }, [])) := by
  unfold visit Recent
  by_cases hact : t.Active i
  · by_cases hexp : now - t.pingTime i > 10
    · refine Or.inr ⟨fun h => absurd h.2 (not_le.mpr hexp), ?_⟩
      rw [if_pos ⟨hact, hexp⟩]
    · refine Or.inl ⟨⟨hact, not_lt.mp hexp⟩, ?_⟩
      rw [if_neg fun h => hexp h.2, if_pos hact]
  · refine Or.inr ⟨fun h => hact h.1, ?_⟩
    have hfree : t.pingTime i = -1 := not_not.mp hact
    rw [if_neg fun h => hact h.1, if_neg hact, ← hfree, Function.update_eq_self]

@[simp] theorem visit_clients (t : Table α) (i : Slot) (now : ℤ) :
    (t.visit i now).1.clients = t.clients := by
  rcases t.visit_cases i now with ⟨-, heq⟩ | ⟨-, heq⟩ <;> rw [heq]

theorem visit_pingTime_self (t : Table α) (i : Slot) (now : ℤ) :
    (t.visit i now).1.pingTime i = if t.Recent i now then t.pingTime i else -1 := by
  rcases t.visit_cases i now with ⟨hrec, heq⟩ | ⟨hrec, heq⟩
  · rw [heq, if_pos hrec]
  · rw [heq, if_neg hrec]
    exact Function.update_self ..

theorem visit_pingTime_of_ne (t : Table α) {i k : Slot} (hk : k ≠ i) (now : ℤ) :
    (t.visit i now).1.pingTime k = t.pingTime k := by
  rcases t.visit_cases i now with ⟨-, heq⟩ | ⟨-, heq⟩
  · rw [heq]
  · rw [heq]
    exact Function.update_of_ne hk _ _

theorem visit_snd (t : Table α) (i : Slot) (now : ℤ) :
    (t.visit i now).2 = if t.Recent i now then [t.clients i] else [] := by
  rcases t.visit_cases i now with ⟨hrec, heq⟩ | ⟨hrec, heq⟩
  · rw [heq, if_pos hrec]
  · rw [heq, if_neg hrec]

theorem recent_visit_of_ne (t : Table α) {i k : Slot} (hk : k ≠ i) (now now' : ℤ) :
    (t.visit i now).1.Recent k now' ↔ t.Recent k now' := by
  rw [Recent, Recent, Active, Active, visit_pingTime_of_ne t hk]

end Table

section Loop

variable {α β : Type*} (guard : Slot → Bool) (ownNow otherNow : Slot → ℤ)

theorem visitOf_pingTime_of_ne {i k : Slot} (hk : k ≠ i) (own : Table α) :
    (if guard i then own.visit i (ownNow i) else (own, [])).1.pingTime k =
      own.pingTime k := by
  split_ifs
  · exact own.visit_pingTime_of_ne hk _
  · rfl

theorem visitOf_clients (i : Slot) (own : Table α) :
    (if guard i then own.visit i (ownNow i) else (own, [])).1.clients = own.clients := by
  split_ifs
  · exact own.visit_clients i _
  · rfl

theorem recent_visitOf_of_ne {i k : Slot} (hk : k ≠ i) (own : Table α) (now : ℤ) :
    (if guard i then own.visit i (ownNow i) else (own, [])).1.Recent k now ↔
      own.Recent k now := by
  rw [Table.Recent, Table.Recent, Table.Active, Table.Active, visitOf_pingTime_of_ne _ _ hk]

@[simp] theorem forwardLoop_clients (slots : List Slot) (own : Table α) (other : Table β) :
    (forwardLoop guard ownNow otherNow slots own other).1.1.clients = own.clients ∧
    (forwardLoop guard ownNow otherNow slots own other).1.2.clients = other.clients := by
  induction slots generalizing own other with
  | nil => exact ⟨rfl, rfl⟩
  | cons i is ih =>
      obtain ⟨hown, hother⟩ := ih (if guard i then own.visit i (ownNow i) else (own, [])).1
        (other.visit i (otherNow i)).1
      exact ⟨hown.trans (visitOf_clients ..), hother.trans (Table.visit_clients ..)⟩

/-- The loop keeps the ping time of a slot unless it passes it, and then only
if the client is recent. -/
theorem forwardLoop_pingTime {slots : List Slot} (hnodup : slots.Nodup) (own : Table α)
    (other : Table β) (k : Slot) :
    (forwardLoop guard ownNow otherNow slots own other).1.1.pingTime k =
      (if k ∈ slots ∧ guard k = true ∧ ¬ own.Recent k (ownNow k) then -1
        else own.pingTime k) ∧
    (forwardLoop guard ownNow otherNow slots own other).1.2.pingTime k =
      (if k ∈ slots ∧ ¬ other.Recent k (otherNow k) then -1 else other.pingTime k) := by
  induction slots generalizing own other with
  | nil => simp [forwardLoop]
  | cons i is ih =>
      obtain ⟨hi, his⟩ := List.nodup_cons.mp hnodup
      obtain ⟨hown, hother⟩ := ih his (if guard i then own.visit i (ownNow i) else (own, [])).1
        (other.visit i (otherNow i)).1
      refine ⟨hown.trans ?_, hother.trans ?_⟩
      · by_cases hk : k = i
        · subst hk
          by_cases hg : guard k = true
          · simp [hi, hg, Table.visit_pingTime_self]
          · simp [hg]
        · simp only [List.mem_cons, hk, false_or, recent_visitOf_of_ne _ _ hk,
            visitOf_pingTime_of_ne _ _ hk]
      · by_cases hk : k = i
        · subst hk
          simp [hi, Table.visit_pingTime_self]
        · simp [hk, Table.recent_visit_of_ne _ hk, Table.visit_pingTime_of_ne _ hk]

/-- The slots the loop passes, in its order: the sender's family comes first. -/
def slotPairs (slots : List Slot) : List (Slot ⊕ Slot) :=
  slots.flatMap fun i => [Sum.inl i, Sum.inr i]

theorem mem_slotPairs {slots : List Slot} {τ : Slot ⊕ Slot} :
    τ ∈ slotPairs slots ↔ Sum.elim id id τ ∈ slots := by
  rcases τ with i | i <;> simp [slotPairs]

theorem slotPairs_nodup {slots : List Slot} (h : slots.Nodup) : (slotPairs slots).Nodup := by
  refine List.nodup_flatMap.mpr ⟨fun i _ => by simp, h.imp fun hij => ?_⟩
  simp [List.disjoint_left, hij]

/-- The clients of the passed slots that are recent are sent the text. -/
theorem forwardLoop_snd {slots : List Slot} (hnodup : slots.Nodup) (own : Table α)
    (other : Table β) :
    (forwardLoop guard ownNow otherNow slots own other).2 =
      ((slotPairs slots).filter (Sum.elim
        (fun i => guard i && decide (own.Recent i (ownNow i)))
        (fun i => decide (other.Recent i (otherNow i))))).map
          (Sum.map own.clients other.clients) := by
  induction slots generalizing own other with
  | nil => rfl
  | cons i is ih =>
      obtain ⟨hi, his⟩ := List.nodup_cons.mp hnodup
      have hrest := ih his (if guard i then own.visit i (ownNow i) else (own, [])).1
        (other.visit i (otherNow i)).1
      rw [visitOf_clients, Table.visit_clients] at hrest
      -- the slots still to come are as they were before slot `i` was passed
      rw [List.filter_congr (q := Sum.elim
        (fun i => guard i && decide (own.Recent i (ownNow i)))
        (fun i => decide (other.Recent i (otherNow i)))) fun τ hτ => ?_] at hrest
      · have hhead : (slotPairs (i :: is)) = Sum.inl i :: Sum.inr i :: slotPairs is := rfl
        simp only [forwardLoop, hrest, hhead, List.filter_cons, Table.visit_snd]
        by_cases hg : guard i = true <;> by_cases ho : own.Recent i (ownNow i) <;>
          by_cases hp : other.Recent i (otherNow i) <;>
          simp [hg, ho, hp, Table.visit_snd]
      · have hne : Sum.elim id id τ ≠ i := fun h => hi (h ▸ mem_slotPairs.mp hτ)
        rcases τ with k | k
        · have hk : k ≠ i := hne
          simp only [Sum.elim_inl, recent_visitOf_of_ne guard ownNow hk]
        · have hk : k ≠ i := hne
          simp only [Sum.elim_inr, other.recent_visit_of_ne hk]

end Loop

/-! ## §2  Registering the sender, then the loop -/

section Branch

variable {α β : Type*} [DecidableEq α] {t : Table α} {a : α} {ping : ℤ} {guard : Slot → Bool}

/-- A slot that the guard lets through is none that the sender took. -/
theorem recent_enroll (hguard : ∀ k, guard k = true → (t.enroll a ping).2 ≠ some k) {k : Slot}
    (hk : guard k = true) (now : ℤ) : (t.enroll a ping).1.Recent k now ↔ t.Recent k now := by
  rw [Table.Recent, Table.Recent, Table.Active, Table.Active, Table.enroll_pingTime,
    if_neg (hguard k hk)]

variable (guard) (ownNow otherNow : Slot → ℤ) (buf : List Byte) (other : Table β)

omit [DecidableEq α] in
theorem forward_clients (own : Table α) :
    (forward guard ownNow otherNow buf own other).1.1.clients = own.clients ∧
    (forward guard ownNow otherNow buf own other).1.2.clients = other.clients := by
  unfold forward
  split_ifs
  · exact ⟨rfl, rfl⟩
  · exact forwardLoop_clients guard ownNow otherNow _ own other

/-- The ping times after a datagram: the sender's slot has a new one, and a
passed slot whose client is not recent has none. -/
theorem forward_pingTime (hguard : ∀ k, guard k = true → (t.enroll a ping).2 ≠ some k)
    (k : Slot) :
    (forward guard ownNow otherNow buf (t.enroll a ping).1 other).1.1.pingTime k =
      (if (t.enroll a ping).2 = some k then ping
        else if (isRegister buf = false ∧ guard k = true) ∧ ¬ t.Recent k (ownNow k) then -1
        else t.pingTime k) ∧
    (forward guard ownNow otherNow buf (t.enroll a ping).1 other).1.2.pingTime k =
      (if isRegister buf = false ∧ ¬ other.Recent k (otherNow k) then -1
        else other.pingTime k) := by
  unfold forward
  by_cases hreg : isRegister buf = true
  · simp [hreg, Table.enroll_pingTime]
  · rw [if_neg hreg]
    obtain ⟨hown, hother⟩ := forwardLoop_pingTime guard ownNow otherNow
      (List.nodup_finRange maxClients) (t.enroll a ping).1 other k
    refine ⟨hown.trans ?_, hother.trans ?_⟩
    · by_cases hk : guard k = true
      · simp [hk, hreg, recent_enroll hguard hk, Table.enroll_pingTime, hguard k hk]
      · simp [hk, Table.enroll_pingTime]
    · simp [hreg]

theorem forward_snd (hguard : ∀ k, guard k = true → (t.enroll a ping).2 ≠ some k) :
    (forward guard ownNow otherNow buf (t.enroll a ping).1 other).2 =
      ((slotPairs (List.finRange maxClients)).filter (fun τ => !isRegister buf && Sum.elim
        (fun i => guard i && decide (t.Recent i (ownNow i)))
        (fun i => decide (other.Recent i (otherNow i))) τ)).map
          (Sum.map t.clients other.clients) := by
  unfold forward
  by_cases hreg : isRegister buf = true
  · simp [hreg]
  · rw [if_neg hreg, forwardLoop_snd guard ownNow otherNow (List.nodup_finRange maxClients)]
    rw [List.filter_congr (q := fun τ => !isRegister buf && Sum.elim
        (fun i => guard i && decide (t.Recent i (ownNow i)))
        (fun i => decide (other.Recent i (otherNow i))) τ) fun τ _ => ?_]
    · refine List.map_congr_left fun τ hτ => ?_
      rcases τ with i | i
      · have hg : guard i = true := by
          simpa using (Bool.and_eq_true_iff.mp ((Bool.and_eq_true_iff.mp
            (List.mem_filter.mp hτ).2).2)).1
        simp [Table.enroll_clients, hguard i hg]
      · rfl
    · rcases τ with i | i
      · by_cases hg : guard i = true
        · simp [hg, hreg, recent_enroll hguard hg]
        · simp [hg]
      · simp [hreg]

end Branch

/-! ## §3  One datagram -/

def Action.clock : Action → Clock
  | .inet _ _ now => now
  | .unix _ _ now => now

/-- What `time(NULL)` returns when the loop passes a slot. -/
def Clock.read (now : Clock) : Slot ⊕ Slot → ℤ := Sum.elim now.inet now.unix

namespace Server

def pingTime (s : Server) : Slot ⊕ Slot → ℤ := Sum.elim s.inet.pingTime s.unix.pingTime

def client (s : Server) : Slot ⊕ Slot → SockaddrIn ⊕ Path :=
  Sum.map s.inet.clients s.unix.clients

def Active (s : Server) (τ : Slot ⊕ Slot) : Prop := s.pingTime τ ≠ -1

instance (s : Server) (τ : Slot ⊕ Slot) : Decidable (s.Active τ) := by
  unfold Active
  infer_instance

/-- The client's last activity is at most 10 seconds old when the loop passes
its slot. -/
def Recent (s : Server) (now : Clock) (τ : Slot ⊕ Slot) : Prop :=
  s.Active τ ∧ now.read τ - s.pingTime τ ≤ 10

instance (s : Server) (now : Clock) (τ : Slot ⊕ Slot) : Decidable (s.Recent now τ) := by
  unfold Recent
  infer_instance

@[simp] theorem recent_inl (s : Server) (now : Clock) (i : Slot) :
    s.Recent now (.inl i) ↔ s.inet.Recent i (now.inet i) := Iff.rfl

@[simp] theorem recent_inr (s : Server) (now : Clock) (i : Slot) :
    s.Recent now (.inr i) ↔ s.unix.Recent i (now.unix i) := Iff.rfl

def sender (s : Server) : Action → SockaddrIn ⊕ Path
  | .inet sender _ _ => .inl sender
  | .unix sender _ _ => .inr (sender.getD s.theirAddrUn)

/-- `sender_id`: the slot the sender has or gets, `none` for -1. -/
def senderId (s : Server) : Action → Option (Slot ⊕ Slot)
  | .inet sender _ now => (s.inet.enroll sender now.ping).2.map Sum.inl
  | .unix sender _ now => (s.unix.enroll (sender.getD s.theirAddrUn) now.ping).2.map Sum.inr

/-- The forward loop passes the slot: the text is no registration and, if the
slot is of the sender's family, the guard of the branch lets it through. -/
def visits (s : Server) : Action → Slot ⊕ Slot → Bool
  | .inet sender data now, τ =>
      !isRegister data && s.senderId (.inet sender data now) ≠ some τ
  | .unix _ data _, .inl _ => !isRegister data
  | .unix sender data now, .inr i =>
      !isRegister data && s.senderId (.unix sender data now) ≠ none &&
        s.senderId (.unix sender data now) ≠ some (.inr i)

/-- The slots of both families in the order of the loop, that of the sender's
family first. -/
def loopOrder : Action → List (Slot ⊕ Slot)
  | .inet .. => slotPairs (List.finRange maxClients)
  | .unix .. => (slotPairs (List.finRange maxClients)).map Sum.swap

def recipients (s : Server) (a : Action) : List (Slot ⊕ Slot) :=
  (loopOrder a).filter fun τ => s.visits a τ && decide (s.Recent a.clock τ)

theorem mem_recipients {s : Server} {a : Action} {τ : Slot ⊕ Slot} :
    τ ∈ s.recipients a ↔ s.visits a τ = true ∧ s.Recent a.clock τ := by
  have hall : τ ∈ loopOrder a := by
    cases a with
    | inet => exact mem_slotPairs.mpr (List.mem_finRange _)
    | unix =>
        exact List.mem_map.mpr
          ⟨τ.swap, mem_slotPairs.mpr (List.mem_finRange _), Sum.swap_swap τ⟩
  simp [recipients, hall]

theorem recipients_nodup (s : Server) (a : Action) : (s.recipients a).Nodup := by
  have hslots := slotPairs_nodup (List.nodup_finRange maxClients)
  refine List.Nodup.filter _ ?_
  cases a with
  | inet => exact hslots
  | unix => exact hslots.map Sum.swap_leftInverse.injective

theorem isRegister_zeroPadded (n : ℕ) (data : List Byte) :
    isRegister (zeroPadded n data) = isRegister data := by
  rw [isRegister, isRegister, beforeTerminator_zeroPadded]

section Branches

variable (s : Server) (data : List Byte) (now : Clock) (i : Slot)

@[simp] theorem senderId_inet_inl (sender : SockaddrIn) :
    s.senderId (.inet sender data now) = some (.inl i) ↔
      (s.inet.enroll sender now.ping).2 = some i := by simp [senderId]

@[simp] theorem senderId_inet_inr (sender : SockaddrIn) :
    s.senderId (.inet sender data now) ≠ some (.inr i) := by simp [senderId]

@[simp] theorem senderId_unix_inl (sender : Option Path) :
    s.senderId (.unix sender data now) ≠ some (.inl i) := by simp [senderId]

@[simp] theorem senderId_unix_inr (sender : Option Path) :
    s.senderId (.unix sender data now) = some (.inr i) ↔
      (s.unix.enroll (sender.getD s.theirAddrUn) now.ping).2 = some i := by simp [senderId]

@[simp] theorem senderId_unix_eq_none (sender : Option Path) :
    s.senderId (.unix sender data now) = none ↔
      (s.unix.enroll (sender.getD s.theirAddrUn) now.ping).2 = none := by simp [senderId]

end Branches

/-- The addresses after a datagram: only the sender's slot may have a new one. -/
theorem handle_client (s : Server) (a : Action) (τ : Slot ⊕ Slot) :
    (s.handle a).1.client τ = if s.senderId a = some τ then s.sender a else s.client τ := by
  cases a with
  | inet a data now =>
      have h := forward_clients (fun i => decide ((s.inet.enroll a now.ping).2 ≠ some i))
        now.inet now.unix (zeroPadded bufSize data) s.unix (s.inet.enroll a now.ping).1
      rcases τ with i | i
      · have hi := (congrFun h.1 i).trans (Table.enroll_clients ..)
        exact (congrArg Sum.inl hi).trans (by simp [sender, client, apply_ite Sum.inl])
      · exact (congrArg Sum.inr (congrFun h.2 i)).trans (by simp [client])
  | unix p data now =>
      have h := forward_clients (fun i => decide
          ((s.unix.enroll (p.getD s.theirAddrUn) now.ping).2 ≠ none ∧
            (s.unix.enroll (p.getD s.theirAddrUn) now.ping).2 ≠ some i))
        now.unix now.inet (zeroPadded bufSize data) s.inet
        (s.unix.enroll (p.getD s.theirAddrUn) now.ping).1
      rcases τ with i | i
      · exact (congrArg Sum.inl (congrFun h.2 i)).trans (by simp [client])
      · have hi := (congrFun h.1 i).trans (Table.enroll_clients ..)
        exact (congrArg Sum.inr hi).trans (by simp [sender, client, apply_ite Sum.inr])

/-- The ping times after a datagram: the sender's slot has a new one, and a
passed slot whose client is not recent has none. -/
theorem handle_pingTime (s : Server) (a : Action) (τ : Slot ⊕ Slot) :
    (s.handle a).1.pingTime τ =
      if s.senderId a = some τ then a.clock.ping
      else if s.visits a τ = true ∧ ¬ s.Recent a.clock τ then -1
      else s.pingTime τ := by
  cases a with
  | inet a data now =>
      have h := forward_pingTime (fun i => decide ((s.inet.enroll a now.ping).2 ≠ some i))
        now.inet now.unix (zeroPadded bufSize data) s.unix
        (fun k hk => of_decide_eq_true hk)
      rcases τ with i | i
      · refine (h i).1.trans ?_
        simp [isRegister_zeroPadded, visits, pingTime, Action.clock]
      · refine (h i).2.trans ?_
        simp [isRegister_zeroPadded, visits, pingTime, Action.clock]
  | unix p data now =>
      have h := forward_pingTime (fun i => decide
          ((s.unix.enroll (p.getD s.theirAddrUn) now.ping).2 ≠ none ∧
            (s.unix.enroll (p.getD s.theirAddrUn) now.ping).2 ≠ some i))
        now.unix now.inet (zeroPadded bufSize data) s.inet
        (fun k hk => (of_decide_eq_true hk).2)
      rcases τ with i | i
      · refine (h i).2.trans ?_
        simp [isRegister_zeroPadded, visits, pingTime, Action.clock]
      · refine (h i).1.trans ?_
        simp [isRegister_zeroPadded, visits, pingTime, Action.clock, and_assoc]

/-- The calls of `sendto`. -/
theorem handle_snd (s : Server) (a : Action) :
    (s.handle a).2 = (s.recipients a).map fun τ =>
      { dest := s.client τ, payload := stringBytes (zeroPadded bufSize a.data) } := by
  cases a with
  | inet a data now =>
      have h := forward_snd (fun i => decide ((s.inet.enroll a now.ping).2 ≠ some i))
        now.inet now.unix (zeroPadded bufSize data) s.unix
        (fun k hk => of_decide_eq_true hk)
      simp only [handle, inetBranch]
      rw [h, List.map_map]
      refine congrArg (List.map _) (List.filter_congr fun τ _ => ?_)
      rcases τ with i | i
      · simp [isRegister_zeroPadded, visits, Action.clock, Bool.and_assoc]
      · simp [isRegister_zeroPadded, visits, Action.clock]
  | unix p data now =>
      have h := forward_snd (fun i => decide
          ((s.unix.enroll (p.getD s.theirAddrUn) now.ping).2 ≠ none ∧
            (s.unix.enroll (p.getD s.theirAddrUn) now.ping).2 ≠ some i))
        now.unix now.inet (zeroPadded bufSize data) s.inet
        (fun k hk => (of_decide_eq_true hk).2)
      simp only [handle, unixBranch]
      rw [h, List.map_map, recipients, loopOrder, List.filter_map, List.map_map]
      refine (List.map_congr_left fun τ _ => ?_).trans
        (congrArg (List.map _) (List.filter_congr fun τ _ => ?_))
      · rcases τ with i | i <;> rfl
      · rcases τ with i | i
        · simp [isRegister_zeroPadded, visits, Action.clock, Bool.and_assoc]
        · simp [isRegister_zeroPadded, visits, Action.clock]

/-! ## §4  Who gets a text -/

/-- The text of `a`, which comes from the client of slot `σ`, reaches everyone
else exactly once. `sendto` fails for the addresses with `refused`. -/
structure RelaysText (s : Server) (a : Action) (refused : SockaddrIn ⊕ Path → Bool)
    (σ : Slot ⊕ Slot) : Prop where
  /-- every other recent client is sent the text once -/
  others : ∀ τ, τ ≠ σ → s.Recent a.clock τ →
    (s.serve a refused).2.filter (fun x => x.dest = s.client τ) =
      [{ dest := s.client τ, payload := some (terminated 0 a.data) }]
  /-- the sender is sent nothing -/
  sender : ∀ x ∈ (s.serve a refused).2, x.dest ≠ s.sender a
  /-- the server goes on; of the other slots exactly those of the silent clients are freed,
  and the sender's slot gets the time of the datagram -/
  frees : ∃ t, (s.serve a refused).1 = some t ∧ t.pingTime σ = a.clock.ping ∧
    ∀ τ, τ ≠ σ → s.Active τ → (¬ t.Active τ ↔ a.clock.read τ - s.pingTime τ > 10)

theorem serve_of_accepted {s : Server} {a : Action} {refused : SockaddrIn ⊕ Path → Bool}
    (h : ∀ x ∈ (s.handle a).2, refused x.dest = false) :
    s.serve a refused = (some (s.handle a).1, (s.handle a).2) := by
  have hany : ((s.handle a).2.any fun x => refused x.dest) = false := by
    rw [List.any_eq_false]
    exact fun x hx => Bool.eq_false_iff.mp (h x hx)
  have hall : (s.handle a).2.takeWhile (fun x => !refused x.dest) = (s.handle a).2 := by
    rw [List.takeWhile_eq_self_iff]
    exact fun x hx => by rw [h x hx]; rfl
  simp only [serve, hany, hall, Bool.false_eq_true, if_false]

theorem client_injective {s : Server} (h : s.inet.Unique ∧ s.unix.Unique) {σ τ : Slot ⊕ Slot}
    (hσ : s.Active σ) (hτ : s.Active τ) (heq : s.client σ = s.client τ) : σ = τ := by
  rcases σ with i | i <;> rcases τ with j | j
  · exact congrArg Sum.inl (h.1 i j hσ hτ (Sum.inl_injective heq))
  · exact absurd heq Sum.inl_ne_inr
  · exact absurd heq Sum.inr_ne_inl
  · exact congrArg Sum.inr (h.2 i j hσ hτ (Sum.inr_injective heq))

/-- The sender's address in an active slot marks the sender's slot. -/
theorem senderId_of_client {s : Server} (h : s.inet.Unique ∧ s.unix.Unique) {a : Action}
    {τ : Slot ⊕ Slot} (hτ : s.Active τ) (heq : s.client τ = s.sender a) :
    s.senderId a = some τ := by
  cases a with
  | inet a data now =>
      rcases τ with i | i
      · exact (senderId_inet_inl ..).mpr (h.1.enroll_snd hτ (Sum.inl_injective heq) _)
      · exact absurd heq Sum.inr_ne_inl
  | unix p data now =>
      rcases τ with i | i
      · exact absurd heq Sum.inl_ne_inr
      · exact (senderId_unix_inr ..).mpr (h.2.enroll_snd hτ (Sum.inr_injective heq) _)

/-- A sender with a slot: the loop of a text passes all other slots. -/
theorem visits_iff {s : Server} {a : Action} {σ : Slot ⊕ Slot} (hσ : s.senderId a = some σ)
    (τ : Slot ⊕ Slot) : s.visits a τ = true ↔ isRegister a.data = false ∧ τ ≠ σ := by
  cases a with
  | inet a data now => simp [visits, hσ, Action.data, eq_comm (a := τ)]
  | unix p data now =>
      rcases τ with i | i
      · have hne : Sum.inl i ≠ σ := fun h => senderId_unix_inl s data now i p (h ▸ hσ)
        simp [visits, Action.data, hne]
      · simp [visits, hσ, Action.data, eq_comm (b := σ)]

section Text

variable {s : Server} {a : Action} {refused : SockaddrIn ⊕ Path → Bool} {σ τ : Slot ⊕ Slot}

/-- A text without the registration text reaches everyone that can be sent it. -/
theorem relaysText_of_not_register (h : s.inet.Unique ∧ s.unix.Unique)
    (hnul : 0 ∉ a.data) (hlen : a.data.length < bufSize) (hσ : s.senderId a = some σ)
    (hreg : isRegister a.data = false)
    (hacc : ∀ τ, τ ≠ σ → s.Recent a.clock τ → refused (s.client τ) = false) :
    s.RelaysText a refused σ := by
  have hpayload : stringBytes (zeroPadded bufSize a.data) = some (terminated 0 a.data) := by
    rw [stringBytes_of_mem, beforeTerminator_zeroPadded, beforeTerminator_eq_self hnul]
    exact zero_mem_zeroPadded.mpr (Or.inl hlen)
  have hvisits : ∀ τ, s.visits a τ = true ↔ τ ≠ σ := fun τ => by
    rw [visits_iff hσ]
    exact and_iff_right hreg
  have hserve : s.serve a refused = _ := serve_of_accepted fun x hx => by
    rw [handle_snd] at hx
    obtain ⟨τ, hτ, rfl⟩ := List.mem_map.mp hx
    obtain ⟨hvis, hrec⟩ := mem_recipients.mp hτ
    exact hacc τ ((hvisits τ).mp hvis) hrec
  refine ⟨fun τ hτ hrec => ?_, fun x hx heq => ?_,
    ⟨(s.handle a).1, congrArg Prod.fst hserve, ?_, fun τ hτ hact => ?_⟩⟩
  · have hmem : τ ∈ s.recipients a := mem_recipients.mpr ⟨(hvisits τ).mpr hτ, hrec⟩
    rw [hserve, handle_snd, hpayload]
    refine broadcast_to (fun τ => Send.mk (s.client τ) (some (terminated 0 a.data))) Send.dest
      (recipients_nodup s a) hmem fun k hk heq => ?_
    exact client_injective h (mem_recipients.mp hk).2.1 hrec.1 heq
  · rw [hserve, handle_snd] at hx
    obtain ⟨τ, hτ, rfl⟩ := List.mem_map.mp hx
    obtain ⟨hvis, hrec⟩ := mem_recipients.mp hτ
    have hid := senderId_of_client h hrec.1 heq
    rw [hσ, Option.some.injEq] at hid
    exact (hvisits τ).mp hvis hid.symm
  · rw [handle_pingTime, if_pos hσ]
  · have hne : s.senderId a ≠ some τ := fun h => hτ (Option.some.inj (hσ ▸ h)).symm
    rw [Active, handle_pingTime, if_neg hne]
    by_cases hrec : s.Recent a.clock τ
    · rw [if_neg fun h => h.2 hrec]
      exact ⟨fun h => absurd hact h, fun h => absurd hrec.2 (not_le.mpr h)⟩
    · rw [if_pos ⟨(hvisits τ).mpr hτ, hrec⟩]
      exact ⟨fun _ => not_le.mp fun h => hrec ⟨hact, h⟩, fun _ h => h rfl⟩

/-- A recent client that cannot be sent the text does not get it. -/
theorem not_relaysText_of_refused (hτ : τ ≠ σ) (hrec : s.Recent a.clock τ)
    (hrefused : refused (s.client τ) = true) : ¬ s.RelaysText a refused σ := by
  intro h
  have hmem : Send.mk (s.client τ) (some (terminated 0 a.data)) ∈ (s.serve a refused).2 := by
    have hone := h.others τ hτ hrec
    exact List.mem_of_mem_filter (hone.symm ▸ List.mem_singleton.mpr rfl)
  have haccepted := List.mem_takeWhile_imp hmem
  rw [hrefused] at haccepted
  exact Bool.false_ne_true haccepted

theorem visits_of_register (hreg : isRegister a.data = true) (τ : Slot ⊕ Slot) :
    s.visits a τ = false := by
  rcases a with ⟨a, data, now⟩ | ⟨p, data, now⟩ <;> rcases τ with i | i <;>
    simp_all [visits, Action.data]

theorem handle_snd_of_register (hreg : isRegister a.data = true) : (s.handle a).2 = [] := by
  rw [handle_snd, recipients, List.filter_eq_nil_iff.mpr fun τ _ => ?_, List.map_nil]
  simp [visits_of_register hreg]

theorem serve_of_register (hreg : isRegister a.data = true) :
    s.serve a refused = (some (s.handle a).1, []) := by
  have hnone : (s.handle a).2 = [] := handle_snd_of_register hreg
  rw [serve_of_accepted, hnone]
  intro x hx
  exact absurd (hnone ▸ hx) List.not_mem_nil

/-- A text with the registration text reaches nobody and frees nothing. -/
theorem not_relaysText_of_register (hσ : s.senderId a = some σ)
    (hreg : isRegister a.data = true) (hτ : τ ≠ σ) (hact : s.Active τ) :
    ¬ s.RelaysText a refused σ := by
  intro h
  by_cases hrec : s.Recent a.clock τ
  · have hone := h.others τ hτ hrec
    rw [serve_of_register hreg] at hone
    exact absurd hone (List.cons_ne_nil _ _).symm
  · obtain ⟨t, ht, -, hfrees⟩ := h.frees
    rw [serve_of_register hreg, Option.some.injEq] at ht
    have hne : s.senderId a ≠ some τ := fun h => hτ (Option.some.inj (hσ ▸ h)).symm
    refine (hfrees τ hτ hact).mpr (not_le.mp fun h => hrec ⟨hact, h⟩) ?_
    rw [← ht, Active, handle_pingTime, if_neg hne, visits_of_register hreg,
      if_neg fun h => Bool.false_ne_true h.1]
    exact hact

end Text

end Server

/-- **A text reaches everyone else if and only if** it does not contain the registration text
and `sendto` fails for no recent client, or there is nobody else: in every reachable state, for
every text from a sender with a slot. -/
theorem relaysText_iff {theirAddrUn : Path} {tr : List (Server × Action)} {s : Server}
    (h : (server theirAddrUn).Run tr s) {a : Action}
    (ha : a.data ≠ [] ∧ 0 ∉ a.data ∧ a.data.length < bufSize) {σ : Slot ⊕ Slot}
    (hσ : s.senderId a = some σ) (refused : SockaddrIn ⊕ Path → Bool) :
    s.RelaysText a refused σ ↔
      (¬ registerText <:+: a.data ∧
        ∀ τ, τ ≠ σ → s.Recent a.clock τ → refused (s.client τ) = false) ∨
      ∀ τ, τ ≠ σ → ¬ s.Active τ := by
  have hreg : isRegister a.data = true ↔ registerText <:+: a.data := by
    rw [isRegister, beforeTerminator_eq_self ha.2.1, decide_eq_true_iff]
  constructor
  · intro hrelays
    by_contra hnot
    obtain ⟨hin, hother⟩ := not_or.mp hnot
    push Not at hin hother
    obtain ⟨τ, hτ, hact⟩ := hother
    by_cases hinfix : registerText <:+: a.data
    · exact Server.not_relaysText_of_register hσ (hreg.mpr hinfix) hτ hact hrelays
    · obtain ⟨υ, hυ, hrec, hrefused⟩ := hin hinfix
      exact Server.not_relaysText_of_refused hυ hrec (Bool.eq_true_of_not_eq_false hrefused) hrelays
  · intro hcond
    by_cases hin : registerText <:+: a.data
    · have hnone := hcond.resolve_left fun hleft => hleft.1 hin
      have hserve : s.serve a refused = _ := Server.serve_of_register (hreg.mpr hin)
      refine ⟨fun τ hτ hrec => absurd hrec.1 (hnone τ hτ), fun x hx => ?_,
        ⟨(s.handle a).1, congrArg Prod.fst hserve, ?_, fun τ hτ hact => absurd hact (hnone τ hτ)⟩⟩
      · rw [hserve] at hx
        exact absurd hx List.not_mem_nil
      · rw [Server.handle_pingTime, if_pos hσ]
    · refine Server.relaysText_of_not_register (run_unique h) ha.2.1 ha.2.2 hσ
        (Bool.eq_false_iff.mpr (mt hreg.mp hin)) fun τ hτ hrec => ?_
      rcases hcond with ⟨-, hacc⟩ | hnone
      · exact hacc τ hτ hrec
      · exact absurd hrec.1 (hnone τ hτ)

/-- Two clients register; the text of the first one reaches the second. -/
theorem relaysText_iff_ok : ∃ tr s, (server []).Run tr s ∧ s.Recent ⟨9, fun _ => 9, fun _ => 9⟩
      (.inr 0) ∧
    s.RelaysText (.inet ⟨5000, 1⟩ [97] ⟨9, fun _ => 9, fun _ => 9⟩) (fun _ => false) (.inl 0) := by
  have h := (server []).run_of_replay
    [.inet ⟨5000, 1⟩ registerText ⟨7, fun _ => 7, fun _ => 7⟩,
      .unix (some [47]) registerText ⟨8, fun _ => 8, fun _ => 8⟩] rfl
  exact ⟨_, _, h, by decide, (relaysText_iff h ⟨by decide, by decide, by decide⟩ rfl _).mpr
    (Or.inl ⟨by decide, fun _ _ _ => rfl⟩)⟩

/-- The text "--register--?" of a client with a slot is taken for a registration:
the other client, which was active a second ago, is not sent it. -/
theorem not_relaysText : ∃ tr s, (server []).Run tr s ∧
    s.senderId (.inet ⟨5000, 1⟩ (registerText ++ [63]) ⟨9, fun _ => 9, fun _ => 9⟩) =
      some (.inl 0) ∧
    ¬ s.RelaysText (.inet ⟨5000, 1⟩ (registerText ++ [63]) ⟨9, fun _ => 9, fun _ => 9⟩)
      (fun _ => false) (.inl 0) := by
  have h := (server []).run_of_replay
    [.inet ⟨5000, 1⟩ registerText ⟨7, fun _ => 7, fun _ => 7⟩,
      .unix (some [47]) registerText ⟨8, fun _ => 8, fun _ => 8⟩] rfl
  refine ⟨_, _, h, rfl, fun hrelays => ?_⟩
  exact absurd (hrelays.others (.inr 0) (by decide) (by decide)) (by decide)

end Sysopy.DatagramServer
