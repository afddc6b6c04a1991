import Mathlib.Data.List.Forall2
import Mathlib.Data.Sum.Basic
import Mathlib.Logic.Relator
import Sysopy.DatagramServer.Relay

/-!
# The two branches of the datagram server

The branch of the Unix socket is the branch of the inet socket written a second
time with the families exchanged. Addresses of the two families correspond by a
relation that pairs each address with at most one of the other family; tables
and calls of `sendto` are mirrored when corresponding addresses stand in the
same places. The branches treat mirrored servers alike as long as the sender
has a slot, and differ on a text of a sender without one.

## Sections

* §1 corresponding tables
* §2 mirrored servers
-/

namespace Sysopy.DatagramServer

open Sysopy.Foundation

/-! ## §1  Corresponding tables -/

namespace Table

variable {α α' : Type*} {R : α → α' → Prop} {t : Table α} {t' : Table α'}

/-- The same slots are active, with the same times and corresponding clients. -/
structure Rel (R : α → α' → Prop) (t : Table α) (t' : Table α') : Prop where
  pingTime : t.pingTime = t'.pingTime
  clients : ∀ i, t.Active i → R (t.clients i) (t'.clients i)

theorem Rel.active (h : t.Rel R t') (i : Slot) : t.Active i ↔ t'.Active i := by
  rw [Active, Active, h.pingTime]

theorem Rel.update (h : t.Rel R t') {a : α} {a' : α'} (ha : R a a') (j : Slot) (now : ℤ) :
    Rel R { pingTime := Function.update t.pingTime j now
            clients := Function.update t.clients j a }
          { pingTime := Function.update t'.pingTime j now
            clients := Function.update t'.clients j a' } := by
  refine ⟨by rw [h.pingTime], fun i hi => ?_⟩
  by_cases hij : i = j
  · subst hij
    simpa using ha
  · simp only [Active, Function.update_of_ne hij] at hi ⊢
    exact h.clients i hi

theorem Rel.setPing (h : t.Rel R t') (j : Slot) (now : ℤ)
    (hj : t.Active j ∨ now = -1) :
    Rel R { t with pingTime := Function.update t.pingTime j now }
      { t' with pingTime := Function.update t'.pingTime j now } := by
  refine ⟨by rw [h.pingTime], fun i hi => h.clients i ?_⟩
  by_cases hij : i = j
  · subst hij
    refine hj.resolve_right fun hnow => hi ?_
    exact (Function.update_self ..).trans hnow
  · simpa [Active, Function.update_of_ne hij] using hi

theorem Rel.visit (h : t.Rel R t') (i : Slot) (now : ℤ) :
    (t.visit i now).1.Rel R (t'.visit i now).1 ∧
    List.Forall₂ R (t.visit i now).2 (t'.visit i now).2 := by
  have hrec : t'.Recent i now ↔ t.Recent i now := by
    rw [Recent, Recent, h.active i, h.pingTime]
  rcases t.visit_cases i now with ⟨hr, heq⟩ | ⟨hr, heq⟩ <;>
    rcases t'.visit_cases i now with ⟨hr', heq'⟩ | ⟨hr', heq'⟩
  · rw [heq, heq']
    exact ⟨h, List.Forall₂.cons (h.clients i hr.1) List.Forall₂.nil⟩
  · exact absurd (hrec.mpr hr) hr'
  · exact absurd (hrec.mp hr') hr
  · rw [heq, heq']
    exact ⟨h.setPing i (-1) (Or.inr rfl), List.Forall₂.nil⟩

theorem Rel.emptySlot (h : t.Rel R t') : t.emptySlot = t'.emptySlot := by
  unfold Table.emptySlot
  congr 1
  funext i
  rw [decide_eq_decide, h.active i]

variable [DecidableEq α] [DecidableEq α']

theorem Rel.lookup (h : t.Rel R t') (hR : Relator.BiUnique R) {a : α} {a' : α'}
    (ha : R a a') : t.lookup a = t'.lookup a' := by
  unfold Table.lookup
  congr 1
  funext i
  rw [decide_eq_decide, h.active i]
  refine and_congr_right fun hi => ?_
  have hri := h.clients i ((h.active i).mpr hi)
  exact ⟨fun heq => hR.2 (heq ▸ hri) ha, fun heq => hR.1 (heq ▸ hri) ha⟩

theorem Rel.enroll (h : t.Rel R t') (hR : Relator.BiUnique R) {a : α} {a' : α'}
    (ha : R a a') (now : ℤ) :
    (t.enroll a now).1.Rel R (t'.enroll a' now).1 ∧
    (t.enroll a now).2 = (t'.enroll a' now).2 := by
  unfold Table.enroll
  rw [← h.lookup hR ha, ← h.emptySlot]
  cases hl : t.lookup a with
  | some i => exact ⟨h.setPing i now (Or.inl (lookup_some hl).1), rfl⟩
  | none =>
      cases t.emptySlot with
      | some j => exact ⟨h.update ha j now, rfl⟩
      | none => exact ⟨h, rfl⟩

end Table

section Loop

variable {α α' β β' : Type*} {R : α → α' → Prop} {Q : β → β' → Prop}

theorem forwardLoop_rel (guard : Slot → Bool) (ownNow otherNow : Slot → ℤ)
    (slots : List Slot) {own : Table α} {own' : Table α'} {other : Table β}
    {other' : Table β'} (hown : own.Rel R own') (hother : other.Rel Q other') :
    (forwardLoop guard ownNow otherNow slots own other).1.1.Rel R
      (forwardLoop guard ownNow otherNow slots own' other').1.1 ∧
    (forwardLoop guard ownNow otherNow slots own other).1.2.Rel Q
      (forwardLoop guard ownNow otherNow slots own' other').1.2 ∧
    List.Forall₂ (Sum.LiftRel R Q) (forwardLoop guard ownNow otherNow slots own other).2
      (forwardLoop guard ownNow otherNow slots own' other').2 := by
  induction slots generalizing own own' other other' with
  | nil => exact ⟨hown, hother, List.Forall₂.nil⟩
  | cons i is ih =>
      obtain ⟨hother₁, hsent⟩ := hother.visit i (otherNow i)
      have hvisit : (if guard i then own.visit i (ownNow i) else (own, [])).1.Rel R
            (if guard i then own'.visit i (ownNow i) else (own', [])).1 ∧
          List.Forall₂ R (if guard i then own.visit i (ownNow i) else (own, [])).2
            (if guard i then own'.visit i (ownNow i) else (own', [])).2 := by
        split_ifs
        · exact hown.visit i (ownNow i)
        · exact ⟨hown, List.Forall₂.nil⟩
      obtain ⟨hr, hq, hrest⟩ := ih hvisit.1 hother₁
      refine ⟨hr, hq, List.rel_append (List.rel_append ?_ ?_) hrest⟩
      · exact List.rel_map (fun _ _ h => Sum.LiftRel.inl h) hvisit.2
      · exact List.rel_map (fun _ _ h => Sum.LiftRel.inr h) hsent

/-- The guards need to agree only for a text that enters the loop. -/
theorem forward_rel (guard guard' : Slot → Bool) (ownNow otherNow : Slot → ℤ) (buf : List Byte)
    (hguard : isRegister buf = false → guard = guard') {own : Table α} {own' : Table α'}
    {other : Table β} {other' : Table β'} (hown : own.Rel R own') (hother : other.Rel Q other') :
    (forward guard ownNow otherNow buf own other).1.1.Rel R
      (forward guard' ownNow otherNow buf own' other').1.1 ∧
    (forward guard ownNow otherNow buf own other).1.2.Rel Q
      (forward guard' ownNow otherNow buf own' other').1.2 ∧
    List.Forall₂ (Sum.LiftRel R Q) (forward guard ownNow otherNow buf own other).2
      (forward guard' ownNow otherNow buf own' other').2 := by
  unfold forward
  split_ifs with hreg
  · exact ⟨hown, hother, List.Forall₂.nil⟩
  · rw [hguard (Bool.eq_false_iff.mpr hreg)]
    exact forwardLoop_rel guard' ownNow otherNow _ hown hother

end Loop

/-! ## §2  Mirrored servers -/

def Clock.mirror (now : Clock) : Clock := { now with inet := now.unix, unix := now.inet }

section Mirrored

variable {R : SockaddrIn → Path → Prop}

/-- The inet table of one server is the Unix table of the other one. -/
structure Mirrored (R : SockaddrIn → Path → Prop) (s s' : Server) : Prop where
  inet : s.inet.Rel R s'.unix
  unix : s.unix.Rel (flip R) s'.inet

/-- The same bytes are sent to corresponding clients of different families. -/
def MirroredCall (R : SockaddrIn → Path → Prop) (x y : Send) : Prop :=
  Sum.LiftRel R (flip R) x.dest y.dest.swap ∧ x.payload = y.payload

/-- The text goes to mirrored sets of clients. -/
def MirroredCalls (R : SockaddrIn → Path → Prop) (xs ys : List Send) : Prop :=
  (∀ x ∈ xs, ∃ y ∈ ys, MirroredCall R x y) ∧ ∀ y ∈ ys, ∃ x ∈ xs, MirroredCall R x y

theorem mirroredCalls_of_forall₂ {xs ys : List Send}
    (h : List.Forall₂ (MirroredCall R) xs ys) : MirroredCalls R xs ys := by
  induction h with
  | nil => exact ⟨by simp, by simp⟩
  | cons hxy _ ih =>
      constructor
      · rw [List.forall_mem_cons]
        refine ⟨⟨_, List.mem_cons_self, hxy⟩, fun x hx => ?_⟩
        obtain ⟨y, hy, hcall⟩ := ih.1 x hx
        exact ⟨y, List.mem_cons_of_mem _ hy, hcall⟩
      · rw [List.forall_mem_cons]
        refine ⟨⟨_, List.mem_cons_self, hxy⟩, fun y hy => ?_⟩
        obtain ⟨x, hx, hcall⟩ := ih.2 y hy
        exact ⟨x, List.mem_cons_of_mem _ hx, hcall⟩

variable {s s' : Server} {a : SockaddrIn} {p : Option Path}

/-- A sender with a slot, and any sender that only registers, is treated alike. -/
theorem Mirrored.handle (h : Mirrored R s s') (hR : Relator.BiUnique R)
    (ha : R a (p.getD s'.theirAddrUn)) {data : List Byte} {now : Clock}
    (hslot : isRegister data = false → (s.inet.enroll a now.ping).2 ≠ none) :
    Mirrored R (s.handle (.inet a data now)).1 (s'.handle (.unix p data now.mirror)).1 ∧
    MirroredCalls R (s.handle (.inet a data now)).2
      (s'.handle (.unix p data now.mirror)).2 := by
  obtain ⟨hown, hid⟩ := h.inet.enroll hR ha now.ping
  have hguard : isRegister (zeroPadded bufSize data) = false →
      (fun i => decide ((s.inet.enroll a now.ping).2 ≠ some i)) =
        fun i => decide ((s'.unix.enroll (p.getD s'.theirAddrUn) now.ping).2 ≠ none ∧
          (s'.unix.enroll (p.getD s'.theirAddrUn) now.ping).2 ≠ some i) := by
    intro hreg
    rw [Server.isRegister_zeroPadded] at hreg
    funext i
    rw [← hid, decide_eq_decide, and_iff_right (hslot hreg)]
  obtain ⟨hr, hq, hsends⟩ := forward_rel _ _ now.inet now.unix (zeroPadded bufSize data)
    hguard hown h.unix
  refine ⟨⟨hr, hq⟩, mirroredCalls_of_forall₂ ?_⟩
  refine List.rel_map (fun x y hxy => ?_) hsends
  exact ⟨by simpa using hxy, rfl⟩

/-- A text of a sender without a slot goes to the clients of its own family only
from the inet branch. -/
theorem Mirrored.not_handle (h : Mirrored R s s') (hR : Relator.BiUnique R)
    (ha : R a (p.getD s'.theirAddrUn)) {data : List Byte} {now : Clock}
    (hreg : isRegister data = false) (hnone : (s.inet.enroll a now.ping).2 = none) :
    ¬ (Mirrored R (s.handle (.inet a data now)).1 (s'.handle (.unix p data now.mirror)).1 ∧
      MirroredCalls R (s.handle (.inet a data now)).2
        (s'.handle (.unix p data now.mirror)).2) := by
  rintro ⟨hstate, hcalls, -⟩
  have hid : s.senderId (.inet a data now) = none := by simp [Server.senderId, hnone]
  have hid' : s'.senderId (.unix p data now.mirror) = none := by
    rw [Server.senderId_unix_eq_none]
    exact (h.inet.enroll hR ha now.ping).2 ▸ hnone
  have hvisits : s.visits (.inet a data now) (.inl 0) = true := by
    simp [Server.visits, hreg, hid]
  have hvisits' : ∀ i, s'.visits (.unix p data now.mirror) (.inr i) = false := by
    simp [Server.visits, hid']
  -- the table is full, so that slot 0 has a client
  have hact : s.Active (.inl 0) := ((s.inet.enroll_snd_eq_none a now.ping).mp hnone).2 0
  by_cases hrec : s.Recent now (.inl 0)
  · have hmem := Server.mem_recipients.mpr ⟨hvisits, hrec⟩
    obtain ⟨y, hy, hdest, -⟩ := hcalls _
      (Server.handle_snd s _ ▸ List.mem_map_of_mem hmem)
    rw [Server.handle_snd] at hy
    obtain ⟨τ, hτ, rfl⟩ := List.mem_map.mp hy
    rcases τ with i | i
    · cases hdest
    · have hvis := (Server.mem_recipients.mp hτ).1
      rw [hvisits' i] at hvis
      exact Bool.false_ne_true hvis
  · have hfreed := Server.handle_pingTime s (.inet a data now) (.inl 0)
    have hkept := Server.handle_pingTime s' (.unix p data now.mirror) (.inr 0)
    rw [hid, if_neg (Option.some_ne_none _).symm, if_pos ⟨hvisits, hrec⟩] at hfreed
    rw [hid', hvisits' 0, if_neg (Option.some_ne_none _).symm,
      if_neg fun h => Bool.false_ne_true h.1] at hkept
    apply hact
    calc s.pingTime (.inl 0) = s'.pingTime (.inr 0) := congrFun h.inet.pingTime 0
      _ = (s'.handle (.unix p data now.mirror)).1.pingTime (.inr 0) := hkept.symm
      _ = (s.handle (.inet a data now)).1.pingTime (.inl 0) :=
          (congrFun hstate.inet.pingTime 0).symm
      _ = -1 := hfreed

end Mirrored

/-- **The branches are mirror images unless they refuse the sender of a text**:
for all mirrored servers, corresponding senders, datagrams and clock readings. -/
theorem mirrored_iff_not_refused {R : SockaddrIn → Path → Prop} (hR : Relator.BiUnique R)
    {s s' : Server} (h : Mirrored R s s') {a : SockaddrIn} {p : Option Path}
    (ha : R a (p.getD s'.theirAddrUn)) (data : List Byte) (now : Clock) :
    (Mirrored R (s.handle (.inet a data now)).1 (s'.handle (.unix p data now.mirror)).1 ∧
      MirroredCalls R (s.handle (.inet a data now)).2
        (s'.handle (.unix p data now.mirror)).2) ↔
    (∃ i, s.inet.Active i ∧ s.inet.clients i = a) ∨ (∃ i, ¬ s.inet.Active i) ∨
      registerText <:+: beforeTerminator 0 data := by
  have hfull := s.inet.enroll_snd_eq_none a now.ping
  constructor
  · intro hmirror
    by_contra hnot
    push Not at hnot
    obtain ⟨hnew, hall, htext⟩ := hnot
    refine h.not_handle hR ha ?_ (hfull.mpr ⟨hnew, hall⟩) hmirror
    exact decide_eq_false htext
  · intro hcond
    refine h.handle hR ha fun hreg hnone => ?_
    obtain ⟨hnew, hall⟩ := hfull.mp hnone
    rcases hcond with ⟨i, hi, heq⟩ | ⟨i, hi⟩ | htext
    · exact hnew i hi heq
    · exact hi (hall i)
    · exact of_decide_eq_false hreg htext

/-- Clients with the port `i` and with the path of the one character `i`. -/
def numbered (a : SockaddrIn) (p : Path) : Prop :=
  ∃ i : Fin 16, a = ⟨UInt16.ofNat i, 0⟩ ∧ p = [UInt8.ofNat i]

theorem numbered_biUnique : Relator.BiUnique numbered := by
  constructor
  · rintro _ _ _ ⟨i, rfl, rfl⟩ ⟨j, rfl, hp⟩
    have hall : ∀ i j : Fin 16, [UInt8.ofNat i] = [UInt8.ofNat j] → i = j := by decide
    rw [hall i j hp]
  · rintro _ _ _ ⟨i, rfl, rfl⟩ ⟨j, ha, rfl⟩
    have hall : ∀ i j : Fin 16, UInt16.ofNat i = UInt16.ofNat j → i = j := by decide
    rw [hall i j (congrArg SockaddrIn.sinPort ha)]

def fullInet : Server :=
  { inet := { pingTime := fun _ => 0, clients := fun i => ⟨UInt16.ofNat i, 0⟩ }
    unix := Table.empty []
    theirAddrUn := [] }

def fullUnix : Server :=
  { inet := Table.empty ⟨0, 0⟩
    unix := { pingTime := fun _ => 0, clients := fun i => [UInt8.ofNat i] }
    theirAddrUn := [] }

theorem fullInet_mirrored : Mirrored numbered fullInet fullUnix :=
  ⟨⟨rfl, fun i _ => ⟨i.castSucc, rfl, rfl⟩⟩, ⟨rfl, fun _ hi => absurd rfl hi⟩⟩

/-- The first client of a full table sends a text. -/
theorem mirrored_iff_not_refused_own :
    Mirrored numbered
      (fullInet.handle (.inet ⟨0, 0⟩ [97] ⟨5, fun _ => 5, fun _ => 5⟩)).1
      (fullUnix.handle (.unix (some [0]) [97] ⟨5, fun _ => 5, fun _ => 5⟩)).1 ∧
    MirroredCalls numbered
      (fullInet.handle (.inet ⟨0, 0⟩ [97] ⟨5, fun _ => 5, fun _ => 5⟩)).2
      (fullUnix.handle (.unix (some [0]) [97] ⟨5, fun _ => 5, fun _ => 5⟩)).2 :=
  (mirrored_iff_not_refused numbered_biUnique fullInet_mirrored ⟨0, rfl, rfl⟩ [97]
    ⟨5, fun _ => 5, fun _ => 5⟩).mpr (Or.inl ⟨0, by decide, rfl⟩)

/-- A sixteenth client sends a text 5 seconds after the last activity of the
others: from the inet socket it reaches all fifteen, from the Unix socket none. -/
theorem refused_text_not_mirrored :
    Relator.BiUnique numbered ∧ Mirrored numbered fullInet fullUnix ∧
    numbered ⟨15, 0⟩ [15] ∧
    ¬ MirroredCalls numbered
      (fullInet.handle (.inet ⟨15, 0⟩ [97] ⟨5, fun _ => 5, fun _ => 5⟩)).2
      (fullUnix.handle (.unix (some [15]) [97] ⟨5, fun _ => 5, fun _ => 5⟩)).2 := by
  refine ⟨numbered_biUnique, fullInet_mirrored, ⟨15, rfl, rfl⟩, fun hcalls => ?_⟩
  have hsent : (fullInet.handle (.inet ⟨15, 0⟩ [97] ⟨5, fun _ => 5, fun _ => 5⟩)).2 ≠ [] := by
    decide
  have hnone :
      (fullUnix.handle (.unix (some [15]) [97] ⟨5, fun _ => 5, fun _ => 5⟩)).2 = [] := by
    decide
  obtain ⟨x, hx⟩ := List.exists_mem_of_ne_nil _ hsent
  obtain ⟨y, hy, -⟩ := hcalls.1 x hx
  rw [hnone] at hy
  exact List.not_mem_nil hy

end Sysopy.DatagramServer
