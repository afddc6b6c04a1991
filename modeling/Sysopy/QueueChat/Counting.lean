import Sysopy.QueueChat.Members
import Sysopy.QueueChat.SysV

/-!
# Counting clients and finding slots

Neither message-queue server takes a client that leaves out of `num_clients`, so
the counter is the number of slots in use plus the number of departures. It is
therefore wrong as soon as a client has left, but never too small: behind the
capacity check there is always an empty slot, and the unbounded search finds it.

## Sections

* §1 the System V server
* §2 the POSIX server
* §3 counting and searching
-/

namespace Sysopy.QueueChat

open Sysopy.Foundation

/-- The counter is right, and the capacity check refuses only when the table is
full. -/
def Counted (numClients : ℕ) (ids : QueueIds) : Prop :=
  numClients = ids.occupied ∧ (numClients = maxClients → ids.occupied = maxClients)

theorem counted_iff {numClients departures : ℕ} {ids : QueueIds}
    (h : numClients = ids.occupied + departures) : Counted numClients ids ↔ departures = 0 := by
  unfold Counted
  omega

/-! ## §1  The System V server -/

namespace SysV

/-- The accepting thread has counted a client that has no slot yet. -/
def AcceptPc.counted : AcceptPc → ℕ
  | .search _ _ => 1
  | .store _ _ => 1
  | _ => 0

/-- The capacity check was passed and the client is not counted yet. -/
def AcceptPc.Checked : AcceptPc → Prop
  | .openFile _ => True
  | .ftok => True
  | .createQueue _ => True
  | .count _ => True
  | _ => False

/-- The communicator is about to empty the slot of a client that has said "exit". -/
def CommPc.leaves : CommPc → Bool
  | .clear _ => true
  | _ => false

def departs (s : Server) : Action → Bool
  | .accept _ => false
  | .comm _ => s.comm.leaves

def departures (tr : List (Server × Action)) : ℕ := tr.countP fun x => departs x.1 x.2

/-- What holds between the steps of both threads after `d` departures. -/
structure Books (d : ℕ) (x : Shared) (accept : AcceptPc) (comm : CommPc) : Prop where
  /-- the counter counts the slots in use, the client that has no slot yet and
  those that have left -/
  count : x.numClients = x.clientsQueueIds.occupied + accept.counted + d
  bound : x.numClients ≤ maxClients
  checked : accept.Checked → x.numClients < maxClients
  /-- there is an empty slot where the search still has to look -/
  search : ∀ q i, accept = .search q i →
    ∃ k : Slot, i ≤ k ∧ x.clientsQueueIds k = emptyClientSlot
  store : ∀ q i, accept = .store q i → x.clientsQueueIds i = emptyClientSlot
  noOverrun : accept ≠ .overrun
  /-- the slot that the communicator is emptying is in use -/
  leaving : ∀ i, comm = .remove i ∨ comm = .clear i → x.clientsQueueIds i ≠ emptyClientSlot

section Books

variable {d : ℕ} {x y : Shared} {pc pc' : AcceptPc} {cpc cpc' : CommPc}

/-- A step between points where no client is counted without a slot. -/
theorem Books.quiet (h : Books d x pc cpc)
    (hcounted : pc.counted = 0) (hcounted' : pc'.counted = 0)
    (hover : pc' ≠ .overrun) (hchecked : pc'.Checked → x.numClients < maxClients) :
    Books d x pc' cpc where
  count := by
    rw [hcounted', h.count, hcounted]
  bound := h.bound
  checked := hchecked
  search q i heq := by
    subst heq
    exact absurd hcounted' Nat.one_ne_zero
  store q i heq := by
    subst heq
    exact absurd hcounted' Nat.one_ne_zero
  noOverrun := hover
  leaving := h.leaving

theorem Books.registered {q : ℕ} (h : Books d x (.count q) cpc) :
    Books d { x with numClients := x.numClients + 1 } (.search q 0) cpc where
  count := by
    have hcount := h.count
    simp only [AcceptPc.counted] at hcount ⊢
    omega
  bound := h.checked trivial
  checked hfalse := hfalse.elim
  search q' i heq := by
    obtain ⟨-, rfl⟩ := AcceptPc.search.inj heq
    have hlt := h.checked trivial
    have hcount := h.count
    have hroom : x.clientsQueueIds.occupied < maxClients := by omega
    obtain ⟨k, hk⟩ := QueueIds.exists_empty hroom
    exact ⟨k, Nat.zero_le _, hk⟩
  store q' i heq := AcceptPc.noConfusion heq
  noOverrun := AcceptPc.noConfusion
  leaving := h.leaving

/-- A test of the search: the empty slot ahead keeps it inside the table. -/
theorem Books.searched {q i : ℕ} (h : Books d x (.search q i) cpc) :
    Books d x (if h : i < maxClients then
        if x.clientsQueueIds ⟨i, h⟩ ≠ emptyClientSlot then .search q (i + 1) else .store q ⟨i, h⟩
      else .overrun) cpc := by
  obtain ⟨k, hik, hk⟩ := h.search q i rfl
  rw [dif_pos (lt_of_le_of_lt hik k.isLt)]
  split_ifs with hne
  · refine ⟨h.count, h.bound, False.elim, fun q' i' heq => ?_, fun _ _ heq => ?_,
      AcceptPc.noConfusion, h.leaving⟩
    · obtain ⟨-, rfl⟩ := AcceptPc.search.inj heq
      refine ⟨k, lt_of_le_of_ne hik fun heq => hne ?_, hk⟩
      simpa [heq] using hk
    · exact AcceptPc.noConfusion heq
  · refine ⟨h.count, h.bound, False.elim, fun _ _ heq => AcceptPc.noConfusion heq,
      fun q' i' heq => ?_, AcceptPc.noConfusion, h.leaving⟩
    obtain ⟨-, rfl⟩ := AcceptPc.store.inj heq
    exact not_not.mp hne

/-- The client gets its slot; the communicator is at another one. -/
theorem Books.stored {q : ℕ} {i : Slot} (h : Books d x (.store q i) cpc) :
    Books d { x with clientsQueueIds := Function.update x.clientsQueueIds i (q : ℤ) } .receive
      cpc where
  count := by
    have hcount := h.count
    rw [QueueIds.occupied_fill (h.store q i rfl)]
    exact hcount
  bound := h.bound
  checked := False.elim
  search _ _ heq := AcceptPc.noConfusion heq
  store _ _ heq := AcceptPc.noConfusion heq
  noOverrun := AcceptPc.noConfusion
  leaving k hk := by
    have hne : k ≠ i := fun heq => h.leaving k hk (heq ▸ h.store q i rfl)
    simpa [Function.update_of_ne hne] using h.leaving k hk

theorem Books.accept (h : Books d x pc cpc) {ans : Answers}
    (hstep : acceptStep ans x pc = some (y, pc')) : Books d y pc' cpc := by
  cases pc with
  | receive =>
      obtain ⟨rfl, rfl⟩ := Prod.mk.inj (Option.some.inj hstep)
      exact h.quiet rfl rfl AcceptPc.noConfusion False.elim
  | check id =>
      obtain ⟨rfl, rfl⟩ := Prod.mk.inj (Option.some.inj hstep)
      split_ifs with hfull
      · exact h.quiet rfl rfl AcceptPc.noConfusion False.elim
      · exact h.quiet rfl rfl AcceptPc.noConfusion fun _ => lt_of_le_of_ne h.bound hfull
  | openFile id =>
      obtain ⟨rfl, rfl⟩ := Prod.mk.inj (Option.some.inj hstep)
      split_ifs
      · exact h.quiet rfl rfl AcceptPc.noConfusion fun _ => h.checked trivial
      · exact h.quiet rfl rfl AcceptPc.noConfusion False.elim
  | ftok =>
      obtain ⟨rfl, rfl⟩ := Prod.mk.inj (Option.some.inj hstep)
      exact h.quiet rfl rfl AcceptPc.noConfusion fun _ => h.checked trivial
  | createQueue key =>
      obtain ⟨rfl, rfl⟩ := Prod.mk.inj (Option.some.inj hstep)
      cases ans.queue with
      | some q => exact h.quiet rfl rfl AcceptPc.noConfusion fun _ => h.checked trivial
      | none => exact h.quiet rfl rfl AcceptPc.noConfusion False.elim
  | count q =>
      obtain ⟨rfl, rfl⟩ := Prod.mk.inj (Option.some.inj hstep)
      exact h.registered
  | search q i =>
      obtain ⟨rfl, rfl⟩ := Prod.mk.inj (Option.some.inj hstep)
      exact h.searched
  | store q i =>
      obtain ⟨rfl, rfl⟩ := Prod.mk.inj (Option.some.inj hstep)
      exact h.stored
  | overrun => exact absurd rfl h.noOverrun

theorem Books.cleared {i : Slot} (h : Books d x pc (.clear i)) :
    Books (d + 1)
      { x with clientsQueueIds := Function.update x.clientsQueueIds i emptyClientSlot } pc
      (.poll (i + 1)) where
  count := by
    have hcount := h.count
    have hclear := QueueIds.occupied_clear (h.leaving i (Or.inr rfl))
    simp only at hcount ⊢
    omega
  bound := h.bound
  checked := h.checked
  search q j heq := by
    obtain ⟨k, hjk, hk⟩ := h.search q j heq
    refine ⟨k, hjk, ?_⟩
    simp only [Function.update_apply]
    split_ifs
    · rfl
    · exact hk
  store q j heq := by
    simp only [Function.update_apply]
    split_ifs
    · rfl
    · exact h.store q j heq
  noOverrun := h.noOverrun
  leaving k hk := by
    rcases hk with hk | hk <;> exact CommPc.noConfusion hk

theorem Books.comm (h : Books d x pc cpc) (received : Option Message) :
    Books (d + cpc.leaves.toNat) (commStep received x cpc).1 pc
      (commStep received x cpc).2.1 := by
  -- every step but the store only moves the communicator
  have hmove : ∀ cpc', (∀ i, cpc' = .remove i ∨ cpc' = .clear i →
      x.clientsQueueIds i ≠ emptyClientSlot) → Books d x pc cpc' :=
    fun cpc' hleave => ⟨h.count, h.bound, h.checked, h.search, h.store, h.noOverrun, hleave⟩
  have hstay : ∀ cpc', (∀ i, cpc' ≠ .remove i) → (∀ i, cpc' ≠ .clear i) → Books d x pc cpc' :=
    fun cpc' hr hc => hmove cpc' fun i hi => (hi.elim (hr i) (hc i)).elim
  cases cpc with
  | poll i =>
      simp only [commStep]
      split_ifs with hempty
      · exact hstay _ (fun _ => CommPc.noConfusion) fun _ => CommPc.noConfusion
      · cases received with
        | none => exact hstay _ (fun _ => CommPc.noConfusion) fun _ => CommPc.noConfusion
        | some msg =>
            dsimp only
            split_ifs
            · refine hmove _ fun k hk => ?_
              rcases hk with hk | hk
              · exact CommPc.remove.inj hk ▸ hempty
              · exact CommPc.noConfusion hk
            · exact hstay _ (fun _ => CommPc.noConfusion) fun _ => CommPc.noConfusion
  | remove i =>
      refine hmove _ fun k hk => ?_
      rcases hk with hk | hk
      · exact CommPc.noConfusion hk
      · exact CommPc.clear.inj hk ▸ h.leaving i (Or.inl rfl)
  | clear i => exact h.cleared
  | relay i msg j =>
      simp only [commStep]
      split_ifs
      all_goals exact hstay _ (fun _ => CommPc.noConfusion) fun _ => CommPc.noConfusion

end Books

theorem run_books {tr : List (Server × Action)} {s : Server} (h : server.Run tr s) :
    Books (departures tr) s.shared s.accept s.comm := by
  refine h.invariant (I := fun tr s => Books (departures tr) s.shared s.accept s.comm) ?_ ?_
  · exact ⟨by rw [show server.init.shared.clientsQueueIds = fun _ => emptyClientSlot from rfl,
      QueueIds.occupied_empty]; rfl, Nat.zero_le _, False.elim,
      fun _ _ heq => AcceptPc.noConfusion heq, fun _ _ heq => AcceptPc.noConfusion heq,
      AcceptPc.noConfusion, fun _ hi => hi.elim CommPc.noConfusion CommPc.noConfusion⟩
  · intro tr s a t ih hn
    have hdep : departures (tr ++ [(s, a)]) = departures tr + (departs s a).toNat := by
      rw [departures, List.countP_append, departures]
      cases hd : departs s a <;> simp [hd]
    rw [hdep]
    cases a with
    | accept ans =>
        obtain ⟨⟨shared, pc⟩, hstep, rfl⟩ := Option.map_eq_some_iff.mp hn
        exact ih.accept hstep
    | comm received =>
        obtain rfl := Option.some.inj hn
        exact ih.comm received

end SysV

/-! ## §2  The POSIX server -/

namespace Posix

def departs (s : Server) (a : Action) : Bool :=
  decide (a.msg.msgType ≠ msgTypeInit ∧ a.msg.msgBody = exitText ∧
    (findName s.clientNames a.msg.clientId).isSome)

def departures (tr : List (Server × Action)) : ℕ := tr.countP fun x => departs x.1 x.2

/-- The counter counts the slots in use and the clients that have left. -/
structure Books (d : ℕ) (s : Server) : Prop where
  count : s.numClients = s.clientsQueueIds.occupied + d
  bound : s.numClients ≤ maxClients

theorem Books.handle {d : ℕ} {s t : Server} (h : Books d s) (hs : Members s) {a : Action}
    {sends : List (ℤ × Message)} (hn : handle s a.msg a.opened = some (t, sends)) :
    Books (d + (departs s a).toNat) t := by
  rcases handle_cases hn with ⟨htype, rfl, -⟩ | ⟨htype, hroom, -, i, hi, rfl, -⟩ |
    ⟨htype, hbody, i, hi, rfl, -⟩ | ⟨-, -, hnone, rfl, -⟩ | ⟨-, hbody, rfl, -⟩
  · have hdep : departs t a = false := by simp [departs, htype]
    rw [hdep]
    exact h
  · have hdep : departs s a = false := by simp [departs, htype]
    rw [hdep]
    refine ⟨?_, lt_of_le_of_ne h.bound hroom⟩
    show s.numClients + 1 =
      QueueIds.occupied (Function.update s.clientsQueueIds i (s.queues.fresh : ℤ)) + d
    rw [QueueIds.occupied_fill (findSlot_some hi), h.count]
    omega
  · have hdep : departs s a = true := by simp [departs, htype, hbody, hi]
    rw [hdep]
    refine ⟨?_, h.bound⟩
    have hused : s.clientsQueueIds i ≠ emptyClientSlot := by
      rw [Ne, hs.slot i, findName_some hi]
      exact Option.some_ne_none _
    show s.numClients =
      QueueIds.occupied (Function.update s.clientsQueueIds i emptyClientSlot) + (d + 1)
    rw [h.count, ← QueueIds.occupied_clear hused]
    omega
  · have hdep : departs s a = false := by simp [departs, hnone]
    rw [hdep]
    exact ⟨h.count, h.bound⟩
  · have hdep : departs t a = false := by simp [departs, hbody]
    rw [hdep]
    exact h

theorem run_books {queues : Queues} {tr : List (Server × Action)} {s : Server}
    (h : (server queues).Run tr s) : Books (departures tr) s := by
  have hboth : Books (departures tr) s ∧ Members s := by
    refine h.invariant (I := fun tr s => Books (departures tr) s ∧ Members s) ?_ ?_
    · refine ⟨⟨?_, Nat.zero_le _⟩, members_start queues⟩
      show 0 = QueueIds.occupied (fun _ => emptyClientSlot) + 0
      rw [QueueIds.occupied_empty]
    · rintro tr s a t ⟨ih, hs⟩ hn
      obtain ⟨⟨u, sends⟩, hu, rfl⟩ := Option.map_eq_some_iff.mp hn
      have hdep : departures (tr ++ [(s, a)]) = departures tr + (departs s a).toNat := by
        rw [departures, List.countP_append, departures]
        cases hd : departs s a <;> simp [hd]
      rw [hdep]
      exact ⟨ih.handle hs hu, hs.handle hu⟩
  exact hboth.1

theorem Books.findSlot {d : ℕ} {s : Server} (h : Books d s) (hroom : s.numClients ≠ maxClients) :
    ∃ i, findSlot s.clientsQueueIds = some i := by
  have hlt : s.clientsQueueIds.occupied < maxClients := by
    have hcount := h.count
    have hbound := h.bound
    omega
  obtain ⟨i, hi⟩ := QueueIds.exists_empty hlt
  exact Option.isSome_iff_exists.mp (findSlot_isSome hi)

end Posix

/-! ## §3  Counting and searching -/

/-- **The counter is right as long as no client leaves**, in both servers: in
every reachable state `num_clients` is the number of slots in use, and an init
message is refused only for a full table, if and only if no exit message has
emptied a slot and, in the System V server, no counted client waits for its slot. -/
theorem counted_iff_nobody_left (queues : Posix.Queues) :
    (∀ tr s, SysV.server.Run tr s →
      (Counted s.shared.numClients s.shared.clientsQueueIds ↔
        (∀ x ∈ tr, SysV.departs x.1 x.2 = false) ∧ s.accept.counted = 0)) ∧
    (∀ tr s, (Posix.server queues).Run tr s →
      (Counted s.numClients s.clientsQueueIds ↔
        ∀ x ∈ tr, Posix.departs x.1 x.2 = false)) := by
  constructor
  · intro tr s h
    have hcount := (SysV.run_books h).count
    rw [add_assoc] at hcount
    rw [counted_iff hcount, Nat.add_eq_zero_iff, and_comm, SysV.departures,
      List.countP_eq_zero]
    simp
  · intro tr s h
    rw [counted_iff (Posix.run_books h).count, Posix.departures, List.countP_eq_zero]
    simp

/-- The accepting thread of the System V server registers one client. -/
def SysV.registerOne : List SysV.Action :=
  List.replicate 8 (.accept ⟨[97], true, 7, some 0⟩)

/-- The first client of either server is counted. -/
theorem counted_iff_nobody_left_first :
    (∃ tr s, SysV.server.Run tr s ∧ s.shared.clientsQueueIds 0 = 0 ∧
      Counted s.shared.numClients s.shared.clientsQueueIds) ∧
    (∃ tr s, (Posix.server ⟨fun _ => none, 0⟩).Run tr s ∧ s.clientsQueueIds 0 = 0 ∧
      Counted s.numClients s.clientsQueueIds) := by
  constructor
  · have h := SysV.server.run_of_replay SysV.registerOne rfl
    exact ⟨_, _, h, rfl, ((counted_iff_nobody_left ⟨fun _ => none, 0⟩).1 _ _ h).mpr
      ⟨by decide, rfl⟩⟩
  · have h := (Posix.server ⟨fun _ => none, 0⟩).run_of_replay [⟨⟨1, [47, 97], [], []⟩, true⟩] rfl
    exact ⟨_, _, h, rfl, ((counted_iff_nobody_left _).2 _ _ h).mpr (by decide)⟩

/-- A client of the System V server leaves and is still counted; fifteen clients
of the POSIX server have left, and the next one finds the server full. -/
theorem departed_clients_are_counted :
    (∃ tr s, SysV.server.Run tr s ∧ s.accept.counted = 0 ∧
      ¬ Counted s.shared.numClients s.shared.clientsQueueIds) ∧
    (∃ tr s, (Posix.server ⟨fun _ => none, 0⟩).Run tr s ∧
      s.numClients = maxClients ∧ ∀ i, s.clientsQueueIds i = emptyClientSlot) := by
  constructor
  · have h := SysV.server.run_of_replay (SysV.registerOne ++
      [.comm (some ⟨7, [97], [], exitText⟩), .comm none, .comm none]) rfl
    refine ⟨_, _, h, rfl, fun hcounted => ?_⟩
    exact absurd hcounted.1 (by decide)
  · have h := (Posix.server ⟨fun _ => none, 0⟩).run_of_replay (List.replicate 15
      [⟨⟨1, [47, 97], [], []⟩, true⟩, ⟨⟨2, [47, 97], [], exitText⟩, true⟩]).flatten rfl
    exact ⟨_, _, h, rfl, by decide⟩

/-- **The search never leaves the table**, in both servers. Behind the capacity
check of the System V server, whatever the communicator does meanwhile, each test
of the search is inside the table and leads to the next one or, at an empty slot,
to the store, and the slot is still empty when it is filled. The search of the
POSIX server finds an empty slot. -/
theorem search_stays_in_table :
    (∀ tr s, SysV.server.Run tr s →
      s.accept ≠ .overrun ∧
      (∀ q i, s.accept = .search q i → ∃ h : i < maxClients, ∀ ans t,
        s.next (.accept ans) = some t →
          t.accept = .search q (i + 1) ∨ t.accept = .store q ⟨i, h⟩) ∧
      (∀ q i, s.accept = .store q i → s.shared.clientsQueueIds i = emptyClientSlot)) ∧
    (∀ queues tr s, (Posix.server queues).Run tr s → s.numClients ≠ maxClients →
      ∃ i, Posix.findSlot s.clientsQueueIds = some i ∧
        s.clientsQueueIds i = emptyClientSlot) := by
  constructor
  · intro tr s h
    have hbooks := SysV.run_books h
    refine ⟨hbooks.noOverrun, fun q i hpc => ?_, hbooks.store⟩
    obtain ⟨k, hik, -⟩ := hbooks.search q i hpc
    have hi : i < maxClients := lt_of_le_of_lt hik k.isLt
    refine ⟨hi, fun ans t hn => ?_⟩
    obtain ⟨⟨shared, pc⟩, hstep, rfl⟩ := Option.map_eq_some_iff.mp hn
    rw [hpc] at hstep
    obtain ⟨-, rfl⟩ := Prod.mk.inj (Option.some.inj hstep)
    dsimp only
    rw [dif_pos hi]
    split_ifs
    · exact Or.inl rfl
    · exact Or.inr rfl
  · intro queues tr s h hroom
    obtain ⟨i, hi⟩ := (Posix.run_books h).findSlot hroom
    exact ⟨i, hi, Posix.findSlot_some hi⟩

/-- The System V server has registered one client and searches for the second,
and the POSIX server has one client. -/
theorem search_stays_in_table_second :
    (∃ tr s, SysV.server.Run tr s ∧ s.accept = .search 1 0 ∧ s.accept ≠ .overrun) ∧
    (∃ tr s, (Posix.server ⟨fun _ => none, 0⟩).Run tr s ∧
      ∃ i, Posix.findSlot s.clientsQueueIds = some i ∧
        s.clientsQueueIds i = emptyClientSlot) := by
  constructor
  · have h := SysV.server.run_of_replay (SysV.registerOne ++
      List.replicate 6 (.accept ⟨[98], true, 8, some 1⟩)) rfl
    exact ⟨_, _, h, rfl, (search_stays_in_table.1 _ _ h).1⟩
  · have h := (Posix.server ⟨fun _ => none, 0⟩).run_of_replay [⟨⟨1, [47, 97], [], []⟩, true⟩] rfl
    exact ⟨_, _, h, search_stays_in_table.2 _ _ _ h (by decide)⟩

end Sysopy.QueueChat
