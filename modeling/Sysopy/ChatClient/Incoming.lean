import Sysopy.DatagramServer.Relay
import Sysopy.Foundation.Memory
import Sysopy.StreamServer.Relay

/-!
# What is received

Servers and clients receive up to 350 bytes into a zeroed buffer of 350 bytes and treat
the buffer as a string, whatever number of bytes the call returned. A chunk of 350 bytes
without NUL leaves no string there, and of a chunk with a NUL inside the string is only
the beginning.

## Sections

* §1 the receive paths
* §2 what the stream server sends on
* §3 what the datagram server sends on
* §4 one string with its NUL
-/

namespace Sysopy.ChatClient

open Sysopy.Foundation

/-! ## §1  The receive paths -/

/-- The size of `buf` in `sender_receiver_fun`. -/
def bufSize : ℕ := 350

/-- `strstr(buf, needle) != NULL`; `buf` has to hold a string. -/
def strstr (buf needle : List Byte) : Option Bool :=
  (cString 0 buf).map fun s => decide (needle <:+: s)

/-- What `sender_receiver_fun` prints of a chunk, `none` when `printf` leaves `buf`. It
is the same in both clients. -/
def printReceived (chunk : List Byte) : Option (List Byte) :=
  if chunk.length = 0 then some "Server closed connection\n".toUTF8.toList
  else (cString 0 (zeroPadded bufSize chunk)).map fun s => s ++ [10]

/-- Where a chunk can arrive. -/
inductive Receiver where
  | inetServer
  | unixServer
  | streamServer
  | client
deriving DecidableEq

/-- The stream server sends on exactly the bytes of a chunk, in every run. -/
def StreamForwards (chunk : List Byte) : Prop :=
  ∀ L tr s s' broken, (StreamServer.server L).Run tr s →
    s.next L (.recv chunk broken) = some s' →
      ∀ m ∈ s.sends L (.recv chunk broken), m.payload = some chunk

/-- The datagram server sends on exactly the bytes of a datagram, in every run. -/
def DatagramForwards (a : DatagramServer.Action) : Prop :=
  ∀ theirAddrUn tr s, (DatagramServer.server theirAddrUn).Run tr s →
    ∀ m ∈ (s.handle a).2, m.payload = some a.data

/-- `strstr`, `strlen` and `printf` stop inside the buffer, and what a server sends on are
the bytes it received. -/
def Receiver.Treats : Receiver → List Byte → Prop
  | .inetServer, chunk =>
      (strstr (zeroPadded DatagramServer.bufSize chunk) DatagramServer.registerText).isSome ∧
        ∀ sender now, DatagramForwards (.inet sender chunk now)
  | .unixServer, chunk =>
      (strstr (zeroPadded DatagramServer.bufSize chunk) DatagramServer.registerText).isSome ∧
        ∀ sender now, DatagramForwards (.unix sender chunk now)
  | .streamServer, chunk => StreamForwards chunk
  | .client, chunk => (printReceived chunk).isSome

/-- The last byte of the chunk is its only NUL. -/
def OneString (chunk : List Byte) : Prop := ∃ m, 0 ∉ m ∧ chunk = terminated 0 m

theorem cString_isSome {buf : List Byte} : (cString 0 buf).isSome ↔ 0 ∈ buf := by
  unfold cString
  rw [List.drop_zero]
  split_ifs with h <;> simp [h]

theorem strstr_registerText {buf : List Byte} (h : 0 ∈ buf) :
    strstr buf DatagramServer.registerText = some (DatagramServer.isRegister buf) := by
  rw [strstr, cString, List.drop_zero, if_pos h]
  rfl

theorem strstr_isSome {n : ℕ} {chunk needle : List Byte} :
    (strstr (zeroPadded n chunk) needle).isSome ↔ chunk.length < n ∨ 0 ∈ chunk := by
  rw [strstr, Option.isSome_map, cString_isSome, zero_mem_zeroPadded]

theorem printReceived_isSome (chunk : List Byte) :
    (printReceived chunk).isSome ↔ chunk.length < bufSize ∨ 0 ∈ chunk := by
  unfold printReceived
  split_ifs with h
  · refine iff_of_true rfl (Or.inl ?_)
    rw [h]
    decide
  · rw [Option.isSome_map, cString_isSome, zero_mem_zeroPadded]

theorem printReceived_of_mem {chunk : List Byte} (hne : 1 ≤ chunk.length)
    (hz : 0 ∈ zeroPadded bufSize chunk) :
    printReceived chunk = some (beforeTerminator 0 chunk ++ [10]) := by
  rw [printReceived, if_neg (Nat.ne_of_gt hne), cString, List.drop_zero, if_pos hz,
    beforeTerminator_zeroPadded]
  rfl

/-! ## §2  What the stream server sends on -/

theorem payload_of_mem_sends {L : StreamServer.Listeners} {s : StreamServer.Server}
    {chunk : List Byte} {broken : Finset ℤ} {m : StreamServer.Send}
    (hm : m ∈ s.sends L (.recv chunk broken)) :
    m.payload = StreamServer.relay chunk := by
  unfold StreamServer.Server.sends at hm
  cases hv : s.visited with
  | none =>
      simp only [hv] at hm
      exact absurd hm List.not_mem_nil
  | some i =>
      simp only [hv] at hm
      obtain ⟨j, -, rfl⟩ := StreamServer.mem_forward.mp ((List.takeWhile_sublist _).subset hm)
      rfl

theorem sends_of_unbroken {L : StreamServer.Listeners} {s : StreamServer.Server}
    {chunk : List Byte} {i : StreamServer.Slot} (hv : s.visited = some i) :
    s.sends L (.recv chunk ∅) = StreamServer.forward L s i chunk := by
  simp only [StreamServer.Server.sends, hv]
  rw [List.takeWhile_eq_self_iff]
  exact fun m _ => decide_eq_true (Finset.notMem_empty m.dest)

theorem exists_streamSend {chunk : List Byte} (hne : chunk ≠ [])
    (hlen : chunk.length ≤ StreamServer.bufSize) : ∃ L tr s s',
    (StreamServer.server L).Run tr s ∧ s.next L (.recv chunk ∅) = some s' ∧
    s.sends L (.recv chunk ∅) ≠ [] := by
  have h := (StreamServer.server StreamServer.exampleListeners).run_of_replay
    ([.select {3, 4}, .accept 5, .accept 6] ++ List.replicate 13 .skip ++
      [.select {5}, .skip, .skip]) rfl
  refine ⟨_, _, _, _, h, (if_pos rfl).trans
    (if_pos ⟨by decide, List.length_pos_iff.mpr hne, hlen, by decide⟩), ?_⟩
  rw [sends_of_unbroken (i := 2) rfl]
  exact List.ne_nil_of_mem (StreamServer.mem_forward.mpr ⟨3, by decide, rfl⟩)

theorem relay_of_streamForwards {chunk : List Byte} (hne : chunk ≠ [])
    (hlen : chunk.length ≤ StreamServer.bufSize) (h : StreamForwards chunk) :
    StreamServer.relay chunk = some chunk := by
  obtain ⟨L, tr, s, s', hrun, hnext, hsends⟩ := exists_streamSend hne hlen
  obtain ⟨m, hm⟩ := List.exists_mem_of_ne_nil _ hsends
  exact (payload_of_mem_sends hm).symm.trans (h L tr s s' ∅ hrun hnext m hm)

theorem streamForwards_iff {chunk : List Byte} (hlen : chunk.length ≤ StreamServer.bufSize) :
    StreamForwards chunk ↔ chunk = [] ∨ OneString chunk := by
  constructor
  · intro h
    by_cases hne : chunk = []
    · exact Or.inl hne
    · exact Or.inr (stringBytes_zeroPadded_iff.mp (relay_of_streamForwards hne hlen h))
  · rintro (rfl | h)
    · intro L tr s s' _ _ hnext
      -- `recv` returned 0: the connection has ended
      rcases StreamServer.Server.next_cases L hnext with
        ⟨_, ha, -⟩ | ⟨ha | ⟨_, _, _, ha, -, -, hone, -⟩, -⟩ | ⟨_, ha, -⟩ | ⟨_, _, ha, -⟩
      · cases ha
      · cases ha
      · cases ha
        exact absurd hone (by decide)
      · cases ha
      · cases ha
    · intro L tr s s' _ _ _ m hm
      exact (payload_of_mem_sends hm).trans (stringBytes_zeroPadded_iff.mpr h)

/-! ## §3  What the datagram server sends on -/

theorem datagramForwards_of {a : DatagramServer.Action}
    (h : OneString a.data ∨ DatagramServer.isRegister a.data = true) : DatagramForwards a := by
  intro theirAddrUn tr s _ m hm
  rcases h with h | h
  · rw [DatagramServer.Server.handle_snd] at hm
    obtain ⟨τ, -, rfl⟩ := List.mem_map.mp hm
    exact stringBytes_zeroPadded_iff.mpr h
  · rw [DatagramServer.Server.handle_snd_of_register h] at hm
    exact absurd hm List.not_mem_nil

/-- A recent client other than the sender is sent the string in the buffer. -/
theorem oneString_of_datagramForwards {a : DatagramServer.Action} {theirAddrUn : List Byte}
    {tr : List (DatagramServer.Server × DatagramServer.Action)} {s : DatagramServer.Server}
    (hrun : (DatagramServer.server theirAddrUn).Run tr s)
    {σ τ : DatagramServer.Slot ⊕ DatagramServer.Slot} (hσ : s.senderId a = some σ) (hτ : τ ≠ σ)
    (hrec : s.Recent a.clock τ) (h : DatagramForwards a) :
    OneString a.data ∨ DatagramServer.isRegister a.data = true := by
  by_cases hreg : DatagramServer.isRegister a.data = true
  · exact Or.inr hreg
  · have hvis : s.visits a τ = true :=
      (DatagramServer.Server.visits_iff hσ τ).mpr ⟨Bool.eq_false_iff.mpr hreg, hτ⟩
    have hmem := DatagramServer.Server.mem_recipients.mpr ⟨hvis, hrec⟩
    have hsent := h theirAddrUn tr s hrun
    rw [DatagramServer.Server.handle_snd] at hsent
    exact Or.inl (stringBytes_zeroPadded_iff.mp (hsent _ (List.mem_map_of_mem hmem)))

theorem run_registered : ∃ tr s, (DatagramServer.server []).Run tr s ∧
    (∀ data, s.senderId (.inet ⟨5000, 1⟩ data ⟨9, fun _ => 9, fun _ => 9⟩) = some (.inl 0)) ∧
    (∀ data, s.senderId (.unix (some [47]) data ⟨9, fun _ => 9, fun _ => 9⟩) =
      some (.inr 0)) ∧
    ∀ τ, τ = .inl 0 ∨ τ = .inr 0 → s.Recent ⟨9, fun _ => 9, fun _ => 9⟩ τ := by
  have h := (DatagramServer.server []).run_of_replay
    [.inet ⟨5000, 1⟩ DatagramServer.registerText ⟨7, fun _ => 7, fun _ => 7⟩,
      .unix (some [47]) DatagramServer.registerText ⟨8, fun _ => 8, fun _ => 8⟩] rfl
  refine ⟨_, _, h, fun _ => rfl, fun _ => rfl, ?_⟩
  rintro τ (rfl | rfl)
  · decide
  · decide

theorem inetForwards_iff (chunk : List Byte) :
    (∀ sender now, DatagramForwards (.inet sender chunk now)) ↔
      OneString chunk ∨ DatagramServer.isRegister chunk = true := by
  constructor
  · intro h
    obtain ⟨tr, s, hrun, hinet, -, hrec⟩ := run_registered
    apply oneString_of_datagramForwards hrun (hinet chunk) Sum.inr_ne_inl
    · exact hrec _ (Or.inr rfl)
    · exact h _ _
  · intro h sender now
    exact datagramForwards_of h

theorem unixForwards_iff (chunk : List Byte) :
    (∀ sender now, DatagramForwards (.unix sender chunk now)) ↔
      OneString chunk ∨ DatagramServer.isRegister chunk = true := by
  constructor
  · intro h
    obtain ⟨tr, s, hrun, -, hunix, hrec⟩ := run_registered
    apply oneString_of_datagramForwards hrun (hunix chunk) Sum.inl_ne_inr
    · exact hrec _ (Or.inl rfl)
    · exact h _ _
  · intro h sender now
    exact datagramForwards_of h

/-! ## §4  One string with its NUL -/

/-- The client needs a NUL in the buffer. A server needs a chunk that is one string with its
NUL; for the datagram server it may also be a registration, which is sent to nobody, and
to the stream server an empty chunk is the end of the connection. -/
def Receiver.Suits : Receiver → List Byte → Prop
  | .inetServer, chunk | .unixServer, chunk =>
      OneString chunk ∨
        DatagramServer.isRegister chunk = true ∧ (chunk.length < bufSize ∨ 0 ∈ chunk)
  | .streamServer, chunk => chunk = [] ∨ OneString chunk
  | .client, chunk => chunk.length < bufSize ∨ 0 ∈ chunk

theorem OneString.zero_mem {chunk : List Byte} (h : OneString chunk) : 0 ∈ chunk := by
  obtain ⟨m, -, rfl⟩ := h
  exact List.mem_append_right m List.mem_cons_self

/-- **Received bytes are treated rightly when they are one string with its NUL**: for each
receive path the exact condition on the chunk. -/
theorem treats_iff (r : Receiver) {chunk : List Byte} (hlen : chunk.length ≤ bufSize) :
    r.Treats chunk ↔ r.Suits chunk := by
  have hreads : (chunk.length < bufSize ∨ 0 ∈ chunk) ∧
        (OneString chunk ∨ DatagramServer.isRegister chunk = true) ↔
      OneString chunk ∨
        DatagramServer.isRegister chunk = true ∧ (chunk.length < bufSize ∨ 0 ∈ chunk) := by
    have hmem : OneString chunk → 0 ∈ chunk := OneString.zero_mem
    tauto
  cases r with
  | inetServer => exact (and_congr strstr_isSome (inetForwards_iff chunk)).trans hreads
  | unixServer => exact (and_congr strstr_isSome (unixForwards_iff chunk)).trans hreads
  | streamServer => exact streamForwards_iff hlen
  | client => exact printReceived_isSome chunk

/-- "hi" with its NUL is treated rightly everywhere. -/
theorem treats_iff_hi : Receiver.inetServer.Treats [104, 105, 0] ∧
    Receiver.unixServer.Treats [104, 105, 0] ∧ Receiver.streamServer.Treats [104, 105, 0] ∧
    Receiver.client.Treats [104, 105, 0] := by
  have hone : OneString [104, 105, 0] := ⟨[104, 105], by decide, rfl⟩
  refine ⟨?_, ?_, ?_, ?_⟩
  · exact (treats_iff .inetServer (by decide)).mpr (Or.inl hone)
  · exact (treats_iff .unixServer (by decide)).mpr (Or.inl hone)
  · exact (treats_iff .streamServer (by decide)).mpr (Or.inr hone)
  · exact (treats_iff .client (by decide)).mpr (Or.inr hone.zero_mem)

/-- 350 bytes without NUL: the client's `printf` leaves `buf`. Two strings in one chunk: the
stream server sends on only the first. -/
theorem full_chunk_is_no_string :
    printReceived (List.replicate 350 97) = none ∧
    ¬ Receiver.client.Treats (List.replicate 350 97) ∧
    StreamServer.relay [97, 0, 98, 0] = some [97, 0] ∧
    ¬ Receiver.streamServer.Treats [97, 0, 98, 0] := by
  have hnone : printReceived (List.replicate 350 97) = none := by decide +kernel
  refine ⟨hnone, fun h => ?_, by decide, fun h => ?_⟩
  · exact absurd (hnone ▸ h : (none : Option (List Byte)).isSome) Bool.false_ne_true
  · exact absurd (relay_of_streamForwards (List.cons_ne_nil _ _) (by decide) h) (by decide)

end Sysopy.ChatClient
