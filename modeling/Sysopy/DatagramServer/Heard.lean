import Sysopy.DatagramServer.Relay

/-!
# Whom the datagram server relays to

The tables of the server are a summary of what has arrived: a slot belongs to a client
exactly if the client's last datagram took the slot, and no text since then has found
the client silent for more than ten seconds. So the datagrams and the clock alone decide
whom a text reaches.

## Sections

* §1 what has been heard of a client
* §2 the tables and the history
* §3 whom a text reaches
-/

namespace Sysopy.DatagramServer

open Sysopy.Foundation

abbrev Address := SockaddrIn ⊕ Path

variable {tr : List (Server × Action)} {s : Server} {a : Action} {τ : Slot ⊕ Slot} {α : Address}
  {t : ℤ}

/-! ## §1  What has been heard of a client -/

/-- The last datagram from the address came at time `t` and found or took the slot, and
no text that has passed the slot since then found it silent for more than ten seconds. -/
def Heard (tr : List (Server × Action)) (τ : Slot ⊕ Slot) (α : Address) (t : ℤ) : Prop :=
  ∃ pre x post, tr = pre ++ x :: post ∧
    (x.1.sender x.2 = α ∧ x.1.senderId x.2 = some τ ∧ x.2.clock.ping = t) ∧
    ∀ y ∈ post, y.1.sender y.2 ≠ α ∧ (y.1.visits y.2 τ = true → y.2.clock.read τ - t ≤ 10)

theorem not_heard_nil : ¬ Heard [] τ α t := by
  rintro ⟨pre, x, post, heq, -⟩
  exact List.append_ne_nil_of_right_ne_nil pre (List.cons_ne_nil x post) heq.symm

theorem heard_snoc : Heard (tr ++ [(s, a)]) τ α t ↔
    (s.sender a = α ∧ s.senderId a = some τ ∧ a.clock.ping = t) ∨
    Heard tr τ α t ∧ s.sender a ≠ α ∧ (s.visits a τ = true → a.clock.read τ - t ≤ 10) := by
  constructor
  · rintro ⟨pre, x, post, heq, hx, hpost⟩
    rcases split_snoc heq with ⟨-, rfl, -⟩ | ⟨post', rfl, rfl⟩
    · exact Or.inl hx
    · obtain ⟨hpost', hlast⟩ := List.forall_mem_append.mp hpost
      exact Or.inr ⟨⟨pre, x, post', rfl, hx, hpost'⟩, hlast _ (List.mem_singleton.mpr rfl)⟩
  · rintro (hx | ⟨⟨pre, x, post, rfl, hx, hpost⟩, hlast⟩)
    · exact ⟨tr, (s, a), [], rfl, hx, fun _ hy => absurd hy List.not_mem_nil⟩
    · refine ⟨pre, x, post ++ [(s, a)], by rw [List.append_assoc, List.cons_append], hx, ?_⟩
      rw [List.forall_mem_append, List.forall_mem_singleton]
      exact ⟨hpost, hlast⟩

/-! ## §2  The tables and the history -/

/-- A slot in use that registering a sender gives back is the sender's own. -/
theorem Table.clients_of_enroll {β : Type*} [DecidableEq β] {u : Table β} {b : β} {now : ℤ}
    {i : Slot} (hid : (u.enroll b now).2 = some i) (hact : u.Active i) : u.clients i = b := by
  rcases u.enroll_cases b now with ⟨j, hlookup, heq⟩ | ⟨j, -, hempty, heq⟩ | ⟨-, -, heq⟩
  · rw [heq] at hid
    obtain rfl := Option.some.inj hid
    exact (lookup_some hlookup).2
  · rw [heq] at hid
    obtain rfl := Option.some.inj hid
    exact absurd hact (by simpa using List.find?_some hempty)
  · rw [heq] at hid
    exact absurd hid.symm (Option.some_ne_none i)

namespace Server

/-- The slot is that of the client of this address, last heard of at time `t`. -/
def Holds (s : Server) (τ : Slot ⊕ Slot) (α : Address) (t : ℤ) : Prop :=
  s.Active τ ∧ s.client τ = α ∧ s.pingTime τ = t

theorem client_of_senderId (hid : s.senderId a = some τ) (hact : s.Active τ) :
    s.client τ = s.sender a := by
  cases a with
  | inet p data now =>
      obtain ⟨i, hi, rfl⟩ := Option.map_eq_some_iff.mp hid
      exact congrArg Sum.inl (Table.clients_of_enroll hi hact)
  | unix p data now =>
      obtain ⟨i, hi, rfl⟩ := Option.map_eq_some_iff.mp hid
      exact congrArg Sum.inr (Table.clients_of_enroll hi hact)

theorem holds_handle_sender (hid : s.senderId a = some τ) :
    (s.handle a).1.Holds τ α t ↔ t ≠ -1 ∧ s.sender a = α ∧ a.clock.ping = t := by
  have hping : (s.handle a).1.pingTime τ = a.clock.ping := by
    rw [handle_pingTime, if_pos hid]
  rw [Holds, Active, handle_client, if_pos hid, hping]
  constructor
  · rintro ⟨hact, hsender, rfl⟩
    exact ⟨hact, hsender, rfl⟩
  · rintro ⟨hne, hsender, rfl⟩
    exact ⟨hne, hsender, rfl⟩

/-- Another slot after a datagram: it is kept unless a text has found its client silent. -/
theorem holds_handle_other (hid : s.senderId a ≠ some τ) :
    (s.handle a).1.Holds τ α t ↔
      s.Holds τ α t ∧ (s.visits a τ = true → a.clock.read τ - t ≤ 10) := by
  have hping := handle_pingTime s a τ
  rw [if_neg hid] at hping
  rw [Holds, Active, handle_client, if_neg hid, hping]
  by_cases hfreed : s.visits a τ = true ∧ ¬ s.Recent a.clock τ
  · rw [if_pos hfreed]
    refine iff_of_false (fun h => h.1 rfl) ?_
    rintro ⟨⟨hact, -, rfl⟩, hpassed⟩
    exact hfreed.2 ⟨hact, hpassed hfreed.1⟩
  · rw [if_neg hfreed]
    refine ⟨fun hholds => ⟨hholds, fun hvisits => ?_⟩, And.left⟩
    rw [← hholds.2.2]
    exact (not_not.mp fun h => hfreed ⟨hvisits, h⟩).2

/-- A datagram from another sender than the client of the slot does not take the slot. -/
theorem senderId_eq_iff (hunique : s.inet.Unique ∧ s.unix.Unique) (h : s.Holds τ α t) :
    s.senderId a = some τ ↔ s.sender a = α := by
  obtain ⟨hact, rfl, -⟩ := h
  exact ⟨fun hid => (client_of_senderId hid hact).symm, fun hsender =>
    senderId_of_client hunique hact hsender.symm⟩

end Server

open Server

/-- **The tables are a summary of the history**: in every reachable state a slot is that of
a client, last heard of at a time, exactly if the datagrams so far say so. -/
theorem run_heard {theirAddrUn : Path} (h : (server theirAddrUn).Run tr s) :
    s.Holds τ α t ↔ t ≠ -1 ∧ Heard tr τ α t := by
  suffices hboth : (s.inet.Unique ∧ s.unix.Unique) ∧
      (s.Holds τ α t ↔ t ≠ -1 ∧ Heard tr τ α t) from hboth.2
  refine h.invariant (I := fun tr s => (s.inet.Unique ∧ s.unix.Unique) ∧
    (s.Holds τ α t ↔ t ≠ -1 ∧ Heard tr τ α t)) ⟨?_, ?_⟩ ?_
  · exact ⟨Table.unique_empty _, Table.unique_empty _⟩
  · refine iff_of_false (fun hholds => ?_) fun hheard => not_heard_nil hheard.2
    cases τ with
    | inl i => exact hholds.1 rfl
    | inr i => exact hholds.1 rfl
  · rintro tr s a u ⟨hunique, ih⟩ hn
    simp only [server, Option.ite_none_right_eq_some, Option.some.injEq] at hn
    obtain ⟨-, rfl⟩ := hn
    refine ⟨handle_unique hunique.1 hunique.2 a, ?_⟩
    rw [heard_snoc, and_or_left]
    by_cases hid : s.senderId a = some τ
    · rw [holds_handle_sender hid]
      constructor
      · rintro ⟨hne, hsender, htime⟩
        exact Or.inl ⟨hne, hsender, hid, htime⟩
      · rintro (⟨hne, hsender, -, htime⟩ | ⟨hne, hheard, hother, -⟩)
        · exact ⟨hne, hsender, htime⟩
        · -- the slot was in use, so only its own client takes it
          exact absurd ((senderId_eq_iff hunique (ih.mpr ⟨hne, hheard⟩)).mp hid) hother
    · rw [holds_handle_other hid, ih]
      constructor
      · rintro ⟨⟨hne, hheard⟩, hpassed⟩
        refine Or.inr ⟨hne, hheard, fun hsender => hid ?_, hpassed⟩
        exact (senderId_eq_iff hunique (ih.mpr ⟨hne, hheard⟩)).mpr hsender
      · rintro (⟨-, -, hid', -⟩ | ⟨hne, hheard, -, hpassed⟩)
        · exact absurd hid' hid
        · exact ⟨⟨hne, hheard⟩, hpassed⟩

/-! ## §3  Whom a text reaches -/

/-- The history says that the datagram reaches the client of this address. -/
def Reaches (tr : List (Server × Action)) (s : Server) (a : Action) (α : Address) : Prop :=
  ∃ τ t, t ≠ -1 ∧ Heard tr τ α t ∧ s.visits a τ = true ∧ a.clock.read τ - t ≤ 10

theorem exists_recipient_iff {theirAddrUn : Path} (h : (server theirAddrUn).Run tr s) :
    (∃ τ ∈ s.recipients a, s.client τ = α) ↔ Reaches tr s a α := by
  constructor
  · rintro ⟨τ, hmem, hclient⟩
    obtain ⟨hvisits, hact, hrecent⟩ := mem_recipients.mp hmem
    obtain ⟨hne, hheard⟩ := (run_heard h).mp ⟨hact, hclient, rfl⟩
    exact ⟨τ, s.pingTime τ, hne, hheard, hvisits, hrecent⟩
  · rintro ⟨τ, t, hne, hheard, hvisits, hrecent⟩
    obtain ⟨hact, hclient, rfl⟩ := (run_heard h).mpr ⟨hne, hheard⟩
    exact ⟨τ, mem_recipients.mpr ⟨hvisits, hact, hrecent⟩, hclient⟩

/-- `error` ends the server before the address is sent anything: `sendto` fails for it, or
for one that the loop comes to before. -/
def Server.CutOff (s : Server) (a : Action) (refused : Address → Bool) (α : Address) : Prop :=
  refused α = true ∨ ∃ x ∈ (s.handle a).2.takeWhile (fun x => !decide (x.dest = α)),
    refused x.dest = true

/-- **Whom a text reaches is decided by what has arrived** and by the calls that fail: the
addresses heard of in time, each once, up to the first one that `sendto` fails for. -/
theorem sent_by_history {theirAddrUn : Path} (h : (server theirAddrUn).Run tr s) (a : Action)
    (refused : Address → Bool) (α : Address) :
    (Reaches tr s a α ∧ ¬ s.CutOff a refused α →
      (s.serve a refused).2.filter (fun x => x.dest = α) =
        [{ dest := α, payload := stringBytes (zeroPadded bufSize a.data) }]) ∧
    (¬ Reaches tr s a α ∨ s.CutOff a refused α →
      ∀ x ∈ (s.serve a refused).2, x.dest ≠ α) := by
  by_cases hreaches : Reaches tr s a α
  · obtain ⟨τ, hmem, rfl⟩ := (exists_recipient_iff h).mpr hreaches
    have hone : (s.handle a).2.filter (fun x => x.dest = s.client τ) =
        [{ dest := s.client τ, payload := stringBytes (zeroPadded bufSize a.data) }] := by
      rw [handle_snd]
      refine broadcast_to
        (fun τ => Send.mk (s.client τ) (stringBytes (zeroPadded bufSize a.data))) Send.dest
        (recipients_nodup s a) hmem fun k hk heq => ?_
      exact client_injective (run_unique h) (mem_recipients.mp hk).2.1
        (mem_recipients.mp hmem).2.1 heq
    have hcalled := mem_takeWhile_iff (q := fun x => !refused x.dest) hone
    constructor
    · rintro ⟨-, hcut⟩
      refine filter_takeWhile_eq hone (hcalled.mpr ?_)
      obtain ⟨hself, hbefore⟩ := not_or.mp hcut
      push Not at hbefore
      refine ⟨?_, fun x hx => ?_⟩
      · show (!refused (s.client τ)) = true
        rw [Bool.eq_false_iff.mpr hself]
        rfl
      · rw [Bool.eq_false_iff.mpr (hbefore x hx)]
        rfl
    · rintro (hnot | hcut) x hx hdest
      · exact hnot hreaches
      · have hall : x ∈ (s.handle a).2.filter (fun x => x.dest = s.client τ) :=
          List.mem_filter.mpr ⟨(List.takeWhile_sublist _).subset hx, decide_eq_true hdest⟩
        rw [hone, List.mem_singleton] at hall
        obtain ⟨hself, hbefore⟩ := hcalled.mp (hall ▸ hx)
        rcases hcut with hrefused | ⟨y, hy, hrefused⟩
        · simp [hrefused] at hself
        · have haccepted := hbefore y hy
          simp [hrefused] at haccepted
  · refine ⟨fun hboth => absurd hboth.1 hreaches, fun _ x hx heq => hreaches ?_⟩
    have hmem := (List.takeWhile_sublist _).subset hx
    rw [handle_snd] at hmem
    obtain ⟨τ, hτ, rfl⟩ := List.mem_map.mp hmem
    exact (exists_recipient_iff h).mp ⟨τ, hτ, heq⟩

/-- Two clients register, of whom one is gone by the time a text of a third arrives. The other
one stands before it and is sent the text. -/
theorem sent_by_history_text : ∃ tr s, (server []).Run tr s ∧
    (s.serve (.unix (some [47]) [97] ⟨9, fun _ => 9, fun _ => 9⟩)
        (fun α => α = .inl ⟨5001, 1⟩)).2.filter
      (fun x => x.dest = .inl ⟨5000, 1⟩) = [⟨.inl ⟨5000, 1⟩, some [97, 0]⟩] := by
  have h := (server []).run_of_replay
    [.inet ⟨5000, 1⟩ registerText ⟨7, fun _ => 7, fun _ => 7⟩,
      .inet ⟨5001, 1⟩ registerText ⟨8, fun _ => 8, fun _ => 8⟩] rfl
  refine ⟨_, _, h, (sent_by_history h (.unix (some [47]) [97] ⟨9, fun _ => 9, fun _ => 9⟩)
    (fun α => α = .inl ⟨5001, 1⟩) (.inl ⟨5000, 1⟩)).1
      ⟨⟨.inl 0, 7, by decide, ?_, by decide, by decide⟩, ?_⟩⟩
  · refine ⟨[], _, [_], rfl, ⟨rfl, rfl, rfl⟩, fun y hy => ?_⟩
    obtain rfl := List.mem_singleton.mp hy
    exact ⟨by decide, by decide⟩
  · rintro (hself | ⟨x, hx, -⟩)
    · exact absurd hself (by decide)
    · exact List.not_mem_nil (a := x) hx

end Sysopy.DatagramServer
