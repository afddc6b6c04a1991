import Sysopy.Foundation.Memory

/-!
# The address of the Unix socket

Client and server are given the path of the server's socket. Each builds a
`struct sockaddr_un` and hands it to the kernel, but through a `struct sockaddr`
of 16 bytes: the client copies only that much of its structure into the address
it sends to, and the server gives that much as the length of the address it
binds. A path is a list of bytes without NUL.
-/

namespace Sysopy.DatagramServer

open Sysopy.Foundation

/-- `sizeof(struct sockaddr_un)`: the family and 108 bytes of `sun_path`. -/
def sockaddrUnSize : ℕ := 110

def sockaddrSize : ℕ := 16

/-- The offset of `sun_path`. -/
def sunPath : ℕ := 2

/-- The bytes of `AF_UNIX` in `sun_family`. -/
def afUnix : List Byte := [1, 0]

/-- The path in an address of the given length: up to the first NUL. -/
def kernelPath (addr : List Byte) (len : ℕ) : List Byte :=
  beforeTerminator 0 ((addr.take len).drop sunPath)

/-- `unix_server_address` of the client. -/
def unixServerAddress (serverPath : List Byte) : List Byte :=
  store sunPath (strncpyBytes 104 serverPath)
    (store 0 afUnix (List.replicate sockaddrUnSize 0))

/-- `*to_addr` of the client after the assignment of a `struct sockaddr` to the
malloc'ed memory. -/
def toAddr (serverPath memory : List Byte) : List Byte :=
  store 0 ((unixServerAddress serverPath).take sockaddrSize) memory

/-- `local` of the server; the variable is not initialised. -/
def localAddr (socketPath stack : List Byte) : List Byte :=
  strcpy sunPath socketPath (store 0 afUnix stack)

/-- The path that the client's `sendto` names. -/
def sentPath (path memory : List Byte) : List Byte :=
  kernelPath (toAddr path memory) sockaddrUnSize

/-- The path that the server's `bind` names. -/
def boundPath (path stack : List Byte) : List Byte :=
  kernelPath (localAddr path stack) sockaddrSize

/-! ## What the kernel reads -/

/-- The client names the first 14 bytes of the path and what follows them in the
malloc'ed memory. -/
theorem sentPath_eq (path : List Byte) {memory : List Byte}
    (hmem : memory.length = sockaddrUnSize) :
    sentPath path memory =
      beforeTerminator 0 (strncpyBytes 14 path ++ memory.drop sockaddrSize) := by
  have hfamily : store 0 afUnix (List.replicate sockaddrUnSize 0) =
      afUnix ++ List.replicate 108 0 := by decide
  have hhead : (unixServerAddress path).take sockaddrSize =
      afUnix ++ strncpyBytes 14 path := by
    rw [unixServerAddress, hfamily, store, List.append_assoc]
    show (afUnix ++ _).take (afUnix.length + 14) = _
    rw [List.take_length_add_append, List.take_append_of_le_length,
      strncpyBytes_take (by omega)]
    rw [length_strncpyBytes]
    omega
  have hlen : (afUnix ++ strncpyBytes 14 path).length = sockaddrSize := by
    rw [List.length_append, length_strncpyBytes]
    rfl
  have hsize : (toAddr path memory).length = sockaddrUnSize := by
    rw [toAddr, hhead, length_store (by rw [hlen, hmem]; decide), hmem]
  rw [sentPath, kernelPath, List.take_of_length_le hsize.le, toAddr, hhead, store_zero, hlen,
    List.append_assoc]
  rfl

/-- The server names the first 14 bytes of the path. -/
theorem boundPath_eq {path stack : List Byte} (hpath : 0 ∉ path)
    (hstack : stack.length = sockaddrUnSize) : boundPath path stack = path.take 14 := by
  have hsize : (store 0 afUnix stack).length = sockaddrUnSize := by
    rw [length_store (by rw [hstack]; decide), hstack]
  have hdrop : (localAddr path stack).drop sunPath =
      path ++ 0 :: (store 0 afUnix stack).drop (sunPath + (path.length + 1)) := by
    rw [localAddr, strcpy, drop_store le_rfl (by rw [hsize]; decide), Nat.sub_self, store_zero,
      List.drop_drop, terminated, List.append_assoc, List.length_append]
    rfl
  rw [boundPath, kernelPath, List.drop_take, hdrop]
  exact beforeTerminator_take hpath _ 14

/-- The path of a socket as both programs accept it. -/
structure SocketPath where
  bytes : List Byte
  noNul : 0 ∉ bytes
  fits : bytes.length ≤ 107

/-- The memory of a `struct sockaddr_un` with any content. -/
structure SockaddrUn where
  bytes : List Byte
  size : bytes.length = sockaddrUnSize

/-- **Client and server name the socket by its first 14 bytes**, the client only
if a NUL happens to follow them: both name the path on the command line when it
has at most 13 bytes, or 14 and the malloc'ed memory goes on with a NUL. -/
theorem same_address_iff (path : SocketPath) (memory stack : SockaddrUn) :
    (sentPath path.bytes memory.bytes = boundPath path.bytes stack.bytes ∧
      boundPath path.bytes stack.bytes = path.bytes) ↔
    path.bytes.length ≤ 13 ∨
      (path.bytes.length = 14 ∧ memory.bytes[sockaddrSize]? = some 0) := by
  obtain ⟨p, hp, -⟩ := path
  obtain ⟨m, hm⟩ := memory
  rw [sentPath_eq p hm, boundPath_eq hp stack.size]
  simp only
  have hlong : p.take 14 = p ↔ p.length ≤ 14 := List.take_eq_self_iff p
  rcases Nat.lt_or_ge p.length 14 with hlt | hge
  · -- the padding of `strncpy` ends the path
    have hpad : strncpyBytes 14 p = p ++ 0 :: List.replicate (13 - p.length) 0 := by
      rw [strncpyBytes, List.take_of_length_le hlt.le, ← List.replicate_succ]
      congr 2
      omega
    rw [hpad, List.append_assoc, List.cons_append, beforeTerminator_append hp,
      List.take_of_length_le hlt.le]
    exact ⟨fun _ => Or.inl (by omega), fun _ => ⟨rfl, rfl⟩⟩
  · -- the copy ends inside the path or at its last byte
    have hcopy : strncpyBytes 14 p = p.take 14 := by
      rw [strncpyBytes, Nat.sub_eq_zero_of_le hge, List.replicate_zero, List.append_nil]
    have hnul : 0 ∉ p.take 14 := fun h => hp (List.mem_of_mem_take h)
    have hsize : sockaddrSize < m.length := by
      rw [hm]
      decide
    have hrest : beforeTerminator 0 (m.drop sockaddrSize) = [] ↔
        m[sockaddrSize]? = some 0 := by
      rw [List.drop_eq_getElem_cons hsize, beforeTerminator_cons_eq_nil,
        List.getElem?_eq_getElem hsize, Option.some.injEq]
    rw [hcopy, beforeTerminator_append_left hnul, List.append_right_eq_self, hrest, hlong]
    constructor
    · rintro ⟨hfollows, hle⟩
      exact Or.inr ⟨le_antisymm hle hge, hfollows⟩
    · rintro (hle | ⟨heq, hfollows⟩)
      · omega
      · exact ⟨hfollows, heq.le⟩

/-- For "/tmp/socket-path" the server binds "/tmp/socket-pa", and the client names
the same only if a NUL follows in its memory. -/
theorem other_address :
    boundPath [47, 116, 109, 112, 47, 115, 111, 99, 107, 101, 116, 45, 112, 97, 116, 104]
      (List.replicate sockaddrUnSize 0) =
      [47, 116, 109, 112, 47, 115, 111, 99, 107, 101, 116, 45, 112, 97] ∧
    sentPath [47, 116, 109, 112, 47, 115, 111, 99, 107, 101, 116, 45, 112, 97, 116, 104]
      (List.replicate sockaddrUnSize 1) ≠
    boundPath [47, 116, 109, 112, 47, 115, 111, 99, 107, 101, 116, 45, 112, 97, 116, 104]
      (List.replicate sockaddrUnSize 0) := by decide

end Sysopy.DatagramServer
