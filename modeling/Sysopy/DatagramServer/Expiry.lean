import Sysopy.DatagramServer.Relay

/-!
# Who blocks a new client

A client that has been silent for more than 10 seconds loses its slot only when
the forward loop of a text passes it. A new client is therefore refused because
of clients that were still recent when a text last passed them; how long they
have been silent when the new client arrives does not matter.
-/

namespace Sysopy.DatagramServer

open Sysopy.Foundation

def Action.slot : Action → Slot → Slot ⊕ Slot
  | .inet .. => Sum.inl
  | .unix .. => Sum.inr

/-- Each text that passed the slot after its client's last activity found the
client recent. -/
def PassedRecent (tr : List (Server × Action)) (s : Server) (τ : Slot ⊕ Slot) : Prop :=
  ∀ pre x post, tr = pre ++ x :: post → x.1.visits x.2 τ = true →
    (∀ y ∈ post, y.1.senderId y.2 ≠ some τ) → x.2.clock.read τ - s.pingTime τ ≤ 10

theorem Server.senderId_of_visits {s : Server} {a : Action} {τ : Slot ⊕ Slot}
    (h : s.visits a τ = true) : s.senderId a ≠ some τ := by
  rcases a with ⟨a, data, now⟩ | ⟨p, data, now⟩ <;> rcases τ with i | i <;>
    simp_all [visits]

theorem passedRecent_step {tr : List (Server × Action)} {s : Server} {τ : Slot ⊕ Slot}
    (h : s.Active τ → PassedRecent tr s τ) {a : Action} (hact : (s.handle a).1.Active τ) :
    PassedRecent (tr ++ [(s, a)]) (s.handle a).1 τ := by
  intro pre x post heq hvis hpost
  have hping := Server.handle_pingTime s a τ
  rcases split_snoc heq with ⟨-, rfl, -⟩ | ⟨post', rfl, htr⟩
  · -- the datagram itself passes the slot
    rw [if_neg (Server.senderId_of_visits hvis)] at hping
    by_cases hrec : s.Recent a.clock τ
    · rw [if_neg fun h => h.2 hrec] at hping
      rw [hping]
      exact hrec.2
    · rw [if_pos ⟨hvis, hrec⟩] at hping
      exact absurd hping hact
  · obtain ⟨hpost', hself⟩ := List.forall_mem_append.mp hpost
    rw [if_neg (hself _ (List.mem_singleton.mpr rfl))] at hping
    split_ifs at hping
    · exact absurd hping hact
    · rw [Server.Active, hping] at hact
      rw [hping]
      exact h hact pre x post' htr hvis hpost'

theorem run_passedRecent {theirAddrUn : Path} {tr : List (Server × Action)} {s : Server}
    (h : (server theirAddrUn).Run tr s) (τ : Slot ⊕ Slot) (hact : s.Active τ) :
    PassedRecent tr s τ := by
  refine h.invariant (I := fun tr s => s.Active τ → PassedRecent tr s τ) ?_ ?_ hact
  · intro _ pre x post heq
    exact absurd heq.symm (by simp)
  · intro tr s a t ih hn hact
    simp only [server, Option.ite_none_right_eq_some, Option.some.injEq] at hn
    obtain ⟨-, rfl⟩ := hn
    exact passedRecent_step ih hact

/-- **Only clients that no text has found silent block a new one**: a sender is
refused in a reachable state only if each slot of its family belongs to a client
that was recent whenever a text has passed its slot since its last activity. -/
theorem refused_only_if_passedRecent {theirAddrUn : Path} {tr : List (Server × Action)}
    {s : Server} (h : (server theirAddrUn).Run tr s) {a : Action}
    (hrefused : s.senderId a = none) (i : Slot) :
    s.Active (a.slot i) ∧ PassedRecent tr s (a.slot i) := by
  have hact : s.Active (a.slot i) := by
    cases a with
    | inet a data now =>
        have hnone : (s.inet.enroll a now.ping).2 = none := by
          simpa [Server.senderId] using hrefused
        exact ((s.inet.enroll_snd_eq_none a now.ping).mp hnone).2 i
    | unix p data now =>
        have hnone := (Server.senderId_unix_eq_none s data now p).mp hrefused
        exact ((s.unix.enroll_snd_eq_none _ now.ping).mp hnone).2 i
  exact ⟨hact, run_passedRecent h (a.slot i) hact⟩

/-- Fifteen clients with different ports register at the time 0. -/
def fifteenRegister : List Action :=
  (List.range 15).map fun n =>
    .inet ⟨UInt16.ofNat n, 1⟩ registerText ⟨0, fun _ => 0, fun _ => 0⟩

set_option maxRecDepth 4000 in
/-- A sixteenth client arrives after a text has found the others recent. -/
theorem refused_only_if_passedRecent_text : ∃ tr s, (server []).Run tr s ∧
    PassedRecent tr s (.inl 0) := by
  have h := (server []).run_of_replay (fifteenRegister ++
    [.inet ⟨14, 1⟩ [97] ⟨5, fun _ => 5, fun _ => 5⟩]) rfl
  exact ⟨_, _, h, (refused_only_if_passedRecent h
    (a := .inet ⟨15, 1⟩ registerText ⟨6, fun _ => 6, fun _ => 6⟩) rfl 0).2⟩

/-- Fifteen clients that have been silent for 100 seconds block the sixteenth. -/
theorem refused_for_silent_clients : ∃ tr s, (server []).Run tr s ∧
    s.senderId (.inet ⟨15, 1⟩ registerText ⟨100, fun _ => 100, fun _ => 100⟩) = none ∧
    ∀ i, 100 - s.inet.pingTime i > 10 := by
  have h := (server []).run_of_replay fifteenRegister rfl
  exact ⟨_, _, h, rfl, by decide⟩

end Sysopy.DatagramServer
