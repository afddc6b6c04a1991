import Mathlib.Order.Bounds.Basic
import Sysopy.StreamServer.Server

/-!
# Descriptor bookkeeping of the stream server

Whatever happens, the table never holds a descriptor twice, keeps both
listeners, and holds besides them only connections that have not ended. The
rest of the bookkeeping breaks at the first connection that ends (its slot is
already -1 when it is closed) or that is accepted into a full table (its
descriptor is kept nowhere), and never recovers.

## Sections

* §1 the table
* §2 the bookkeeping
* §3 when it is right
-/

namespace Sysopy.StreamServer

open Sysopy.Foundation

variable (L : Listeners)

/-! ## §1  The table -/

/-- What every reachable table satisfies. -/
structure Table (s : Server) : Prop where
  unclosed : ∀ c ∈ s.conns, c.closed = false
  clients : ∀ c ∈ s.conns, 0 ≤ c.fd ∧ isListener L c.fd = false
  nodup : (s.conns.map Conn.fd).Nodup
  slots : ∀ j, s.sockets j = -1 ∨ isListener L (s.sockets j) = true ∨
    ∃ c ∈ s.conns, c.fd = s.sockets j ∧ c.ended = false
  injective : ∀ j k, s.sockets j ≠ -1 → s.sockets j = s.sockets k → j = k
  inet : ∃ j, s.sockets j = L.inet
  unix : ∃ j, s.sockets j = L.unix

variable {L}

theorem isListener_inet : isListener L L.inet = true := by simp [isListener]

theorem isListener_unix : isListener L L.unix = true := by simp [isListener]

theorem Table.fresh_notStored {s : Server} (ht : Table L s) {newfd : ℤ}
    (hf : s.Fresh L newfd) (j : Slot) : s.sockets j ≠ newfd := by
  obtain ⟨hnn, -, hinet, hunix, hconns⟩ := hf
  rintro rfl
  rcases ht.slots j with h | h | ⟨c, hc, hfd, -⟩
  · omega
  · simp only [isListener, Bool.or_eq_true, decide_eq_true_eq] at h
    exact h.elim hinet hunix
  · exact hconns c hc (ht.unclosed c hc) hfd

theorem Table.congr {s s' : Server} (ht : Table L s) (hsock : s'.sockets = s.sockets)
    (hconns : s'.conns = s.conns) : Table L s' := by
  obtain ⟨h1, h2, h3, h4, h5, h6, h7⟩ := ht
  rw [← hsock, ← hconns] at *
  exact ⟨h1, h2, h3, h4, h5, h6, h7⟩

theorem table_start : Table L (server L).init where
  unclosed := by simp [server]
  clients := by simp [server]
  nodup := by simp [server]
  slots := by
    intro j
    simp only [server]
    split
    · exact Or.inr (Or.inl isListener_inet)
    · split
      · exact Or.inr (Or.inl isListener_unix)
      · exact Or.inl rfl
  injective := by
    intro j k hj heq
    have h1 := L.distinct
    have h2 := L.inet_nonneg
    have h3 := L.unix_nonneg
    apply Fin.ext
    simp only [server] at hj heq
    split_ifs at hj heq <;> omega
  inet := ⟨⟨0, by decide⟩, by simp [server]⟩
  unix := ⟨⟨1, by decide⟩, by simp [server]⟩

/-! The two statements that change the table. -/

/-- `accept`: the new connection joins the kernel's list; `j` is the slot it
gets, if any is empty. -/
theorem acceptClient_cases (s : Server) (newfd : ℤ) :
    (∃ j, s.sockets j = -1 ∧ acceptClient s newfd =
      { s with
        sockets := Function.update s.sockets j newfd
        maxfd := if newfd > s.maxfd then newfd else s.maxfd
        orig := insert newfd s.orig
        conns := s.conns ++ [{ fd := newfd, ended := false, closed := false }] }) ∨
    ((∀ j, s.sockets j ≠ -1) ∧ acceptClient s newfd =
      { s with conns := s.conns ++ [{ fd := newfd, ended := false, closed := false }] }) := by
  unfold acceptClient
  cases h : s.emptySlot with
  | some j => exact Or.inl ⟨j, Server.emptySlot_some h, rfl⟩
  | none =>
      refine Or.inr ⟨fun j => ?_, rfl⟩
      simpa using List.find?_eq_none.mp h j (List.mem_finRange j)

theorem Table.connect {s : Server} (ht : Table L s) {newfd : ℤ} (hf : s.Fresh L newfd) :
    Table L { s with
      conns := s.conns ++ [{ fd := newfd, ended := false, closed := false }] } := by
  obtain ⟨hnn, -, hinet, hunix, hconns⟩ := hf
  refine ⟨?_, ?_, ?_, ?_, ht.injective, ht.inet, ht.unix⟩
  · intro c hc
    rcases List.mem_append.mp hc with h | h
    · exact ht.unclosed c h
    · rw [List.mem_singleton.mp h]
  · intro c hc
    rcases List.mem_append.mp hc with h | h
    · exact ht.clients c h
    · rw [List.mem_singleton.mp h]
      exact ⟨hnn, by simp [isListener, hinet, hunix]⟩
  · rw [List.map_append, List.map_singleton, List.nodup_append]
    refine ⟨ht.nodup, List.nodup_singleton _, ?_⟩
    intro x hx y hy
    obtain ⟨c, hc, rfl⟩ := List.mem_map.mp hx
    rw [List.mem_singleton.mp hy]
    exact hconns c hc (ht.unclosed c hc)
  · intro k
    rcases ht.slots k with h | h | ⟨c, hc, hcc⟩
    · exact Or.inl h
    · exact Or.inr (Or.inl h)
    · exact Or.inr (Or.inr ⟨c, List.mem_append_left _ hc, hcc⟩)

theorem Table.fill {s s' : Server} (ht : Table L s) {j : Slot} {newfd : ℤ}
    (hj : s.sockets j = -1) (hopen : ∃ c ∈ s.conns, c.fd = newfd ∧ c.ended = false)
    (hnew : ∀ k, s.sockets k ≠ newfd)
    (hsock : s'.sockets = Function.update s.sockets j newfd) (hconns : s'.conns = s.conns) :
    Table L s' := by
  have hkeep : ∀ k fd, s.sockets k = fd → fd ≠ -1 → s'.sockets k = fd := by
    intro k fd hk hne
    rw [hsock, Function.update_of_ne (fun h => hne (by rw [← hk, h, hj])), hk]
  refine ⟨by rw [hconns]; exact ht.unclosed, by rw [hconns]; exact ht.clients,
    by rw [hconns]; exact ht.nodup, ?_, ?_, ?_, ?_⟩
  · intro k
    rw [hsock, hconns]
    by_cases hkj : k = j
    · rw [hkj, Function.update_self]
      exact Or.inr (Or.inr hopen)
    · rw [Function.update_of_ne hkj]
      exact ht.slots k
  · intro k l hk heq
    simp only [hsock, Function.update_apply] at hk heq
    split_ifs at hk heq with hkj hlj hlj
    · rw [hkj, hlj]
    · exact absurd heq.symm (hnew l)
    · exact absurd heq (hnew k)
    · exact ht.injective k l hk heq
  · obtain ⟨k, hk⟩ := ht.inet
    exact ⟨k, hkeep k _ hk (by have := L.inet_nonneg; omega)⟩
  · obtain ⟨k, hk⟩ := ht.unix
    exact ⟨k, hkeep k _ hk (by have := L.unix_nonneg; omega)⟩

theorem Table.accept {s : Server} (ht : Table L s) {newfd : ℤ} (hf : s.Fresh L newfd) :
    Table L (acceptClient s newfd) := by
  rcases acceptClient_cases s newfd with ⟨j, hj, heq⟩ | ⟨-, heq⟩
  · rw [heq]
    have hmem : ⟨newfd, false, false⟩ ∈ s.conns ++ [(⟨newfd, false, false⟩ : Conn)] :=
      List.mem_append_right _ (List.mem_singleton_self _)
    exact (ht.connect hf).fill hj ⟨_, hmem, rfl, rfl⟩ (ht.fresh_notStored hf) rfl rfl
  · rw [heq]
    exact ht.connect hf

theorem mem_endConn {fd : ℤ} {conns : List Conn} {c : Conn} :
    c ∈ endConn fd conns ↔
      ∃ d ∈ conns, (if d.fd = fd ∧ d.closed = false then { d with ended := true } else d) = c :=
  List.mem_map

@[simp] theorem map_fd_endConn (fd : ℤ) (conns : List Conn) :
    (endConn fd conns).map Conn.fd = conns.map Conn.fd := by
  rw [endConn, List.map_map]
  refine List.map_congr_left fun c _ => ?_
  simp only [Function.comp_apply]
  split <;> rfl

/-- `close(-1)` closes nothing. -/
theorem closeFd_neg_one {conns : List Conn} (h : ∀ c ∈ conns, 0 ≤ c.fd) :
    closeFd (-1) conns = conns := by
  refine (List.map_congr_left fun c hc => ?_).trans (List.map_id conns)
  have := h c hc
  rw [if_neg (by omega)]
  rfl

theorem dropClient_self (s : Server) (i : Slot) (garbled : Finset ℤ) :
    (dropClient L s i garbled).sockets i = -1 := Function.update_self ..

theorem dropClient_of_ne (s : Server) {i k : Slot} (hk : k ≠ i) (garbled : Finset ℤ) :
    (dropClient L s i garbled).sockets k = s.sockets k := Function.update_of_ne hk _ _

/-- A dropped client leaves its slot, but its connection is only marked. -/
theorem Table.dropClient_conns {s : Server} (ht : Table L s) (i : Slot)
    (garbled : Finset ℤ) :
    (dropClient L s i garbled).conns = endConn (s.sockets i) s.conns := by
  simp only [dropClient, Function.update_self]
  refine closeFd_neg_one fun c hc => ?_
  have hmem : c.fd ∈ (endConn (s.sockets i) s.conns).map Conn.fd := List.mem_map_of_mem hc
  rw [map_fd_endConn] at hmem
  obtain ⟨d, hd, hfd⟩ := List.mem_map.mp hmem
  rw [← hfd]
  exact (ht.clients d hd).1

theorem Table.drop {s : Server} (ht : Table L s) {i : Slot} (hi : s.sockets i ≠ -1)
    (hl : isListener L (s.sockets i) = false) (garbled : Finset ℤ) :
    Table L (dropClient L s i garbled) := by
  have hconns := ht.dropClient_conns i garbled
  refine ⟨?_, ?_, ?_, ?_, ?_, ?_, ?_⟩
  · rw [hconns]
    intro c hc
    obtain ⟨d, hd, rfl⟩ := mem_endConn.mp hc
    split
    · exact ht.unclosed d hd
    · exact ht.unclosed d hd
  · rw [hconns]
    intro c hc
    obtain ⟨d, hd, rfl⟩ := mem_endConn.mp hc
    split
    · exact ht.clients d hd
    · exact ht.clients d hd
  · rw [hconns, map_fd_endConn]
    exact ht.nodup
  · intro k
    by_cases hk : k = i
    · exact Or.inl (by rw [hk, dropClient_self])
    · rw [dropClient_of_ne s hk, hconns]
      rcases ht.slots k with h | h | ⟨c, hc, hfd, hended⟩
      · exact Or.inl h
      · exact Or.inr (Or.inl h)
      · -- the connection of another slot is another connection
        have hne : ¬ (c.fd = s.sockets i ∧ c.closed = false) := by
          rintro ⟨h, -⟩
          exact hk (ht.injective i k hi (h ▸ hfd)).symm
        exact Or.inr (Or.inr ⟨c, mem_endConn.mpr ⟨c, hc, if_neg hne⟩, hfd, hended⟩)
  · intro k l hk heq
    have hki : k ≠ i := by
      rintro rfl
      exact hk (dropClient_self s k garbled)
    rw [dropClient_of_ne s hki] at hk heq
    by_cases hli : l = i
    · rw [hli, dropClient_self] at heq
      exact absurd heq hk
    · rw [dropClient_of_ne s hli] at heq
      exact ht.injective k l hk heq
  · obtain ⟨k, hk⟩ := ht.inet
    have hki : k ≠ i := by
      rintro rfl
      rw [hk, isListener_inet] at hl
      exact Bool.noConfusion hl
    exact ⟨k, by rw [dropClient_of_ne s hki, hk]⟩
  · obtain ⟨k, hk⟩ := ht.unix
    have hki : k ≠ i := by
      rintro rfl
      rw [hk, isListener_unix] at hl
      exact Bool.noConfusion hl
    exact ⟨k, by rw [dropClient_of_ne s hki, hk]⟩

theorem Table.step {s s' : Server} {a : Action} (ht : Table L s)
    (hn : s.next L a = some s') : Table L s' := by
  rcases Server.next_cases L hn with
    ⟨ready, -, rfl⟩ | ⟨-, rfl | rfl⟩ | ⟨newfd, -, hf, rfl⟩ | ⟨garbled, i, -, hv, hl, rfl⟩
  · exact ht.congr rfl rfl
  · exact ht.congr rfl rfl
  · exact ht.congr rfl rfl
  · exact (ht.accept hf).congr rfl rfl
  · exact (ht.drop (Server.visited_ne hv) hl garbled).congr rfl rfl

theorem run_table {tr : List (Server × Action)} {s : Server} (h : (server L).Run tr s) :
    Table L s :=
  h.invariant (I := fun _ s => Table L s) table_start fun _ _ _ _ ht hn => ht.step hn

/-! ## §2  The bookkeeping -/

def Server.stored (s : Server) : Set ℤ := {fd | fd ≠ -1 ∧ ∃ j, s.sockets j = fd}

structure Consistent (s : Server) : Prop where
  orig : (s.orig : Set ℤ) = s.stored
  maxfd : IsGreatest s.stored s.maxfd
  closed : ∀ c ∈ s.conns, c.ended = true → c.closed = true
  stored : ∀ c ∈ s.conns, c.ended = false → c.fd ∈ s.stored

/-- No connection ends, and none is accepted into a full table. -/
def KeepsBooks (s : Server) : Action → Prop
  | .accept _ => ∃ j, s.sockets j = -1
  | .hangup _ => False
  | _ => True

/-- An unclosed connection that is in no slot: from here on nothing closes it
and nothing reads it. -/
def Orphaned (s : Server) : Prop := ∃ fd ∈ s.conns.map Conn.fd, ∀ j, s.sockets j ≠ fd

theorem Consistent.congr {s s' : Server} (hc : Consistent s)
    (hsock : s'.sockets = s.sockets) (horig : s'.orig = s.orig)
    (hmax : s'.maxfd = s.maxfd) (hconns : s'.conns = s.conns) : Consistent s' := by
  have hstored : s'.stored = s.stored := by rw [Server.stored, Server.stored, hsock]
  obtain ⟨h1, h2, h3, h4⟩ := hc
  rw [← hconns, ← hstored] at *
  rw [← horig] at h1
  rw [← hmax] at h2
  exact ⟨h1, h2, h3, h4⟩

theorem Server.stored_fill {s s' : Server} {j : Slot} {newfd : ℤ} (hj : s.sockets j = -1)
    (hnew : newfd ≠ -1) (hs : s'.sockets = Function.update s.sockets j newfd) :
    s'.stored = insert newfd s.stored := by
  ext fd
  rw [Server.stored, Server.stored, hs]
  constructor
  · rintro ⟨hfd, k, hk⟩
    by_cases hkj : k = j
    · rw [hkj, Function.update_self] at hk
      exact Or.inl hk.symm
    · rw [Function.update_of_ne hkj] at hk
      exact Or.inr ⟨hfd, k, hk⟩
  · rintro (rfl | ⟨hfd, k, hk⟩)
    · exact ⟨hnew, j, Function.update_self ..⟩
    · refine ⟨hfd, k, ?_⟩
      rw [Function.update_of_ne, hk]
      rintro rfl
      exact hfd (hk.symm.trans hj)

theorem consistent_start : Consistent (server L).init := by
  have hstored : (server L).init.stored = {L.inet, L.unix} := by
    have h1 := L.inet_nonneg
    have h2 := L.unix_nonneg
    ext fd
    simp only [Server.stored, server, Set.mem_ofPred_eq, Set.mem_insert_iff,
      Set.mem_singleton_iff]
    constructor
    · rintro ⟨hfd, k, rfl⟩
      split_ifs at hfd ⊢ <;> simp_all
    · rintro (rfl | rfl)
      · exact ⟨by omega, ⟨0, by decide⟩, by simp⟩
      · exact ⟨by omega, ⟨1, by decide⟩, by simp⟩
  refine ⟨?_, ?_, by simp [server], by simp [server]⟩
  · rw [hstored]
    simp [server]
  · rw [hstored]
    have hmax := isGreatest_pair (a := L.inet) (b := L.unix)
    simp only [server]
    split_ifs with h
    · rwa [max_eq_left h.le] at hmax
    · rwa [max_eq_right (not_lt.mp h)] at hmax

theorem Consistent.accept {s : Server} (hc : Consistent s) {newfd : ℤ}
    (hf : s.Fresh L newfd) (hempty : ∃ j, s.sockets j = -1) :
    Consistent (acceptClient s newfd) := by
  obtain ⟨k, hk⟩ := hempty
  rcases acceptClient_cases s newfd with ⟨j, hj, heq⟩ | ⟨hfull, -⟩
  · have hne : newfd ≠ -1 := by have := hf.1; omega
    have hstored : (acceptClient s newfd).stored = insert newfd s.stored :=
      Server.stored_fill hj hne (by rw [heq])
    refine ⟨?_, ?_, ?_, ?_⟩
    · rw [hstored, heq, Finset.coe_insert, hc.orig]
    · rw [hstored, heq]
      have hmax := hc.maxfd.insert newfd
      dsimp only
      split_ifs with h
      · rwa [max_eq_left h.le] at hmax
      · rwa [max_eq_right (not_lt.mp h)] at hmax
    · rw [heq]
      intro c hmem hended
      rcases List.mem_append.mp hmem with h | h
      · exact hc.closed c h hended
      · rw [List.mem_singleton.mp h] at hended
        exact absurd hended Bool.false_ne_true
    · rw [hstored, heq]
      intro c hmem hended
      rcases List.mem_append.mp hmem with h | h
      · exact Or.inr (hc.stored c h hended)
      · rw [List.mem_singleton.mp h]
        exact Or.inl rfl
  · exact absurd hk (hfull k)

theorem Consistent.step {s s' : Server} {a : Action} (hc : Consistent s)
    (hk : KeepsBooks s a) (hn : s.next L a = some s') : Consistent s' := by
  rcases Server.next_cases L hn with
    ⟨ready, -, rfl⟩ | ⟨-, rfl | rfl⟩ | ⟨newfd, rfl, hf, rfl⟩ | ⟨garbled, i, rfl, -, -, -⟩
  · exact hc.congr rfl rfl rfl rfl
  · exact hc.congr rfl rfl rfl rfl
  · exact hc.congr rfl rfl rfl rfl
  · exact (hc.accept hf hk).congr rfl rfl rfl rfl
  · exact absurd hk id

/-! The other steps orphan a connection, and an orphan stays one. -/

theorem Orphaned.not_consistent {s : Server} (ho : Orphaned s) (ht : Table L s) :
    ¬ Consistent s := by
  intro hc
  obtain ⟨fd, hfd, hno⟩ := ho
  obtain ⟨c, hmem, rfl⟩ := List.mem_map.mp hfd
  cases hended : c.ended with
  | true => simpa [ht.unclosed c hmem] using hc.closed c hmem hended
  | false =>
      obtain ⟨-, j, hj⟩ := hc.stored c hmem hended
      exact hno j hj

theorem Orphaned.accept {s : Server} (ho : Orphaned s) (ht : Table L s) {newfd : ℤ}
    (hf : s.Fresh L newfd) : Orphaned (acceptClient s newfd) := by
  obtain ⟨fd, hfd, hno⟩ := ho
  have hne : fd ≠ newfd := by
    obtain ⟨c, hmem, rfl⟩ := List.mem_map.mp hfd
    exact hf.2.2.2.2 c hmem (ht.unclosed c hmem)
  rcases acceptClient_cases s newfd with ⟨j, -, heq⟩ | ⟨-, heq⟩
  · rw [heq]
    refine ⟨fd, by simp [hfd], fun k => ?_⟩
    show Function.update s.sockets j newfd k ≠ fd
    rw [Function.update_apply]
    split
    · exact hne.symm
    · exact hno k
  · rw [heq]
    exact ⟨fd, by simp [hfd], hno⟩

theorem Orphaned.drop {s : Server} (ho : Orphaned s) (ht : Table L s) (i : Slot)
    (garbled : Finset ℤ) : Orphaned (dropClient L s i garbled) := by
  obtain ⟨fd, hfd, hno⟩ := ho
  refine ⟨fd, by rwa [ht.dropClient_conns, map_fd_endConn], fun k => ?_⟩
  obtain ⟨c, hmem, rfl⟩ := List.mem_map.mp hfd
  have hnn := (ht.clients c hmem).1
  by_cases hk : k = i
  · rw [hk, dropClient_self]
    omega
  · rw [dropClient_of_ne s hk]
    exact hno k

/-- A connection that ends loses its slot before anything is closed. -/
theorem Table.orphaned_of_drop {s : Server} (ht : Table L s) {i : Slot}
    (hi : s.sockets i ≠ -1) (hl : isListener L (s.sockets i) = false) (garbled : Finset ℤ) :
    Orphaned (dropClient L s i garbled) := by
  rcases ht.slots i with h | h | ⟨c, hmem, hfd, -⟩
  · exact absurd h hi
  · rw [h] at hl
    exact Bool.noConfusion hl
  · refine ⟨s.sockets i, ?_, fun k hk => ?_⟩
    · rw [ht.dropClient_conns, map_fd_endConn, ← hfd]
      exact List.mem_map_of_mem hmem
    · by_cases hki : k = i
      · rw [hki, dropClient_self] at hk
        exact hi hk.symm
      · rw [dropClient_of_ne s hki] at hk
        exact hki (ht.injective i k hi hk.symm).symm

/-- A connection accepted into a full table gets no slot. -/
theorem Table.orphaned_of_full {s : Server} (ht : Table L s) {newfd : ℤ}
    (hf : s.Fresh L newfd) (hfull : ∀ j, s.sockets j ≠ -1) :
    Orphaned (acceptClient s newfd) := by
  rcases acceptClient_cases s newfd with ⟨j, hj, -⟩ | ⟨-, heq⟩
  · exact absurd hj (hfull j)
  · rw [heq]
    exact ⟨newfd, by simp, ht.fresh_notStored hf⟩

theorem Orphaned.step {s s' : Server} {a : Action} (ho : Orphaned s) (ht : Table L s)
    (hn : s.next L a = some s') : Orphaned s' := by
  rcases Server.next_cases L hn with
    ⟨ready, -, rfl⟩ | ⟨-, rfl | rfl⟩ | ⟨newfd, -, hf, rfl⟩ | ⟨garbled, i, -, -, -, rfl⟩
  · exact ho
  · exact ho
  · exact ho
  · exact ho.accept ht hf
  · exact ho.drop ht i garbled

theorem Table.orphaned_of_step {s s' : Server} {a : Action} (ht : Table L s)
    (hk : ¬ KeepsBooks s a) (hn : s.next L a = some s') : Orphaned s' := by
  rcases Server.next_cases L hn with
    ⟨ready, rfl, rfl⟩ | ⟨rfl | ⟨chunk, broken, i, rfl, -, -⟩, -⟩ | ⟨newfd, rfl, hf, rfl⟩ |
      ⟨garbled, i, rfl, hv, hl, rfl⟩
  · exact absurd trivial hk
  · exact absurd trivial hk
  · exact absurd trivial hk
  · exact ht.orphaned_of_full hf (not_exists.mp hk)
  · exact ht.orphaned_of_drop (Server.visited_ne hv) hl garbled

/-! ## §3  When it is right -/

/-- The books of a run: kept by every step so far, or broken for good. -/
structure Books (L : Listeners) (tr : List (Server × Action)) (s : Server) : Prop where
  table : Table L s
  kept : (∀ x ∈ tr, KeepsBooks x.1 x.2) → Consistent s
  broken : (¬ ∀ x ∈ tr, KeepsBooks x.1 x.2) → Orphaned s

theorem Books.step {tr : List (Server × Action)} {s s' : Server} {a : Action}
    (hb : Books L tr s) (hn : s.next L a = some s') : Books L (tr ++ [(s, a)]) s' where
  table := hb.table.step hn
  kept := by
    rw [List.forall_mem_append, List.forall_mem_singleton]
    rintro ⟨hall, hk⟩
    exact (hb.kept hall).step hk hn
  broken := by
    rw [List.forall_mem_append, List.forall_mem_singleton]
    intro hnot
    by_cases hall : ∀ x ∈ tr, KeepsBooks x.1 x.2
    · exact hb.table.orphaned_of_step (fun hk => hnot ⟨hall, hk⟩) hn
    · exact (hb.broken hall).step hb.table hn

theorem run_books {tr : List (Server × Action)} {s : Server} (h : (server L).Run tr s) :
    Books L tr s := by
  refine h.invariant (I := Books L) ?_ fun _ _ _ _ hb hn => hb.step hn
  exact ⟨table_start, fun _ => consistent_start, fun hnot => absurd (by simp) hnot⟩

/-- **The books are right exactly until a connection ends or finds no slot**:
after every step of every run the table, `orig`, `maxfd` and the open
descriptors agree if and only if no connection has ended and none has been
accepted into a full table. -/
theorem consistent_iff_keepsBooks {tr : List (Server × Action)} {s : Server}
    (h : (server L).Run tr s) : Consistent s ↔ ∀ x ∈ tr, KeepsBooks x.1 x.2 := by
  have hb := run_books h
  refine ⟨fun hc => ?_, hb.kept⟩
  by_contra hnot
  exact (hb.broken hnot).not_consistent hb.table hc

/-- Listening sockets with descriptors 3 and 4. -/
def exampleListeners : Listeners :=
  ⟨3, 4, by decide, by decide, by decide, by decide, by decide⟩

/-- Client 5 is accepted and closes its connection: descriptor 5 stays open and
in `orig`. -/
theorem closed_connection_leaks : ∃ L tr s, (server L).Run tr s ∧ ¬ Consistent s ∧
    s.conns = [⟨5, true, false⟩] ∧ 5 ∈ s.orig ∧ ∀ j, s.sockets j ≠ 5 := by
  have h := (server exampleListeners).run_of_replay
    ([.select {3}, .accept 5] ++ List.replicate 14 .skip ++
      [.select {5}, .skip, .skip, .hangup {3, 4, 5}]) rfl
  refine ⟨_, _, _, h, fun hc => ?_, rfl, by decide, by decide⟩
  exact absurd (hc.closed ⟨5, true, false⟩ (List.mem_singleton.mpr rfl) rfl) (by decide)

/-- One client is accepted and stays. -/
theorem consistent_iff_keepsBooks_accept : ∃ L tr s, (server L).Run tr s ∧
    s.conns = [⟨5, false, false⟩] ∧ (Consistent s ↔ ∀ x ∈ tr, KeepsBooks x.1 x.2) := by
  have h := (server exampleListeners).run_of_replay
    [.select {3}, .accept 5] rfl
  exact ⟨_, _, _, h, rfl, consistent_iff_keepsBooks h⟩

end Sysopy.StreamServer
