/-
# Resolved addresses (`ttcp/comm/InetAddress.cc`)

`resolveAll` copies each node of the list that `getaddrinfo` has returned into an
`InetAddress`, 16 or 28 bytes of it, and writes the port over it through the layout of
`sockaddr_in`.  The two layouts have the port in the same place, so nothing else changes:
each address is its node with another port (`resolveAll_keeps`).
-/
import NetStudy.AddressText
import Mathlib.Data.List.Forall2

namespace InetAddresses

open ByteFields

/-- The node has one of the two families. -/
def Sockaddr.Known (node : Sockaddr) : Prop := node.family = AF_INET ∨ node.family = AF_INET6

/-- The address of an IPv4 node is in the node. -/
theorem Sockaddr.inAddr_inside {node : Sockaddr} (h : node.family = AF_INET) :
    4 + 4 ≤ node.size := by
  have hroom := node.room h
  omega

/-- The address of an IPv6 node is in the node. -/
theorem Sockaddr.in6Addr_inside {node : Sockaddr} (h : node.family = AF_INET6) :
    8 + 16 ≤ node.size := by
  have hroom := node.room6 h
  omega

/-- The address of a node, printed. -/
def Sockaddr.toIp (L : Libc) (node : Sockaddr) : Text :=
  if h : node.family = AF_INET then
    L.inetNtop (Field.get ⟨4, 4, Sockaddr.inAddr_inside h⟩ node.bytes)
  else if h : node.family = AF_INET6 then
    L.inetNtop6 (Field.get ⟨8, 16, Sockaddr.in6Addr_inside h⟩ node.bytes)
  else []

/-- The nodes of an answer. -/
def Answer.nodes : Answer → List Sockaddr
  | .error _ => []
  | .found result rest => result :: rest

/-- An address that is a node with another port. -/
structure Kept (L : Libc) (port : UInt16) (node : Sockaddr) (a : InetAddress) : Prop where
  family : a.family = node.family
  /-- The bytes of the structure of the family are those of the node, but for the port. -/
  bytes : ∀ (j : Fin 28) (hj : j < node.size), (node.family = AF_INET → (j : ℕ) < 16) →
    sinPort.Misses j → a.storage j = node.bytes ⟨j, hj⟩
  toIp : a.toIp L = node.toIp L
  port : a.port = port

variable {L : Libc} {port : UInt16}

/-! ## One node -/

/-- An IPv4 node is copied as far as its structure goes. -/
theorem ofSockaddr_inet (stale : InetAddress) {node : Sockaddr} (h : node.family = AF_INET) :
    InetAddress.ofSockaddr stale node
      = some ⟨sockaddrIn.copy stale.storage node.bytes (node.room h)⟩ := by
  rw [InetAddress.ofSockaddr, dif_pos h]

/-- An IPv6 node is copied whole. -/
theorem ofSockaddr_inet6 (stale : InetAddress) {node : Sockaddr} (h : node.family = AF_INET6) :
    InetAddress.ofSockaddr stale node
      = some ⟨sockaddrIn6.copy stale.storage node.bytes (node.room6 h)⟩ := by
  have hne : ¬ node.family = AF_INET := by
    rw [h]
    decide
  rw [InetAddress.ofSockaddr, dif_neg hne, dif_pos h]

/-- **A node becomes an address of its own family**, with its own bytes, and then gets the
port. -/
theorem ofSockaddr_keeps (L : Libc) (stale : InetAddress) (port : UInt16) {node : Sockaddr}
    (h : node.Known) :
    ∃ a, InetAddress.ofSockaddr stale node = some a ∧ Kept L port node (a.setPort port) := by
  rcases h with h | h
  · refine ⟨_, ofSockaddr_inet stale h, ?_⟩
    have hroom := node.room h
    have hin : 4 + 4 ≤ node.size := Sockaddr.inAddr_inside h
    -- the 16 bytes that are copied hold the family and the address
    have hfamily : sinFamily.get (sockaddrIn.copy stale.storage node.bytes hroom)
        = Field.get ⟨0, 2, node.base⟩ node.bytes :=
      get_copy (f := sockaddrIn) (g := sinFamily) (p := ⟨0, 2, node.base⟩) rfl rfl (by simp) _ _ _
    have haddr : sinAddr.get (sockaddrIn.copy stale.storage node.bytes hroom)
        = Field.get ⟨4, 4, hin⟩ node.bytes :=
      get_copy (f := sockaddrIn) (g := sinAddr) (p := ⟨4, 4, hin⟩) rfl rfl (by simp) _ _ _
    have hnode : (⟨sockaddrIn.copy stale.storage node.bytes hroom⟩ : InetAddress).family
        = node.family := by
      rw [InetAddress.family, hfamily, Sockaddr.family]
    refine ⟨?_, ?_, ?_, port_setPort _ _⟩
    · rw [family_setPort, hnode]
    · intro j hj hlt hport
      rw [storage_setPort _ _ hport]
      exact copy_of_mem ⟨Nat.zero_le _, by have := hlt h; omega⟩ _ _ _
    · rw [toIp_setPort, InetAddress.toIp, if_pos (hnode.trans h), haddr, Sockaddr.toIp, dif_pos h]
  · refine ⟨_, ofSockaddr_inet6 stale h, ?_⟩
    have hroom := node.room6 h
    have hin : 8 + 16 ≤ node.size := Sockaddr.in6Addr_inside h
    -- here all 28 bytes are copied
    have hfamily : sinFamily.get (sockaddrIn6.copy stale.storage node.bytes hroom)
        = Field.get ⟨0, 2, node.base⟩ node.bytes :=
      get_copy (f := sockaddrIn6) (g := sinFamily) (p := ⟨0, 2, node.base⟩) rfl rfl (by simp) _ _ _
    have haddr : sin6Addr.get (sockaddrIn6.copy stale.storage node.bytes hroom)
        = Field.get ⟨8, 16, hin⟩ node.bytes :=
      get_copy (f := sockaddrIn6) (g := sin6Addr) (p := ⟨8, 16, hin⟩) rfl rfl (by simp) _ _ _
    have hnode : (⟨sockaddrIn6.copy stale.storage node.bytes hroom⟩ : InetAddress).family
        = node.family := by
      rw [InetAddress.family, hfamily, Sockaddr.family]
    have hne : ¬ node.family = AF_INET := by
      rw [h]
      decide
    refine ⟨?_, ?_, ?_, port_setPort _ _⟩
    · rw [family_setPort, hnode]
    · intro j hj _ hport
      rw [storage_setPort _ _ hport]
      exact copy_of_mem ⟨Nat.zero_le _, by have := j.isLt; omega⟩ _ _ _
    · rw [toIp_setPort, InetAddress.toIp, hnode, if_neg hne, if_pos h, haddr, Sockaddr.toIp,
        dif_neg hne, dif_pos h]

/-! ## The list -/

/-- The loop appends one address for each node. -/
theorem resolveLoop_keeps (L : Libc) (stale : ℕ → InetAddress) (port : UInt16) (i : ℕ)
    {nodes : List Sockaddr} (h : ∀ node ∈ nodes, node.Known) (addrs : List InetAddress) :
    ∃ rest, resolveLoop stale port i nodes addrs = some (addrs ++ rest) ∧
      List.Forall₂ (Kept L port) nodes rest := by
  induction nodes generalizing i addrs with
  | nil => exact ⟨[], by rw [resolveLoop, List.append_nil], List.Forall₂.nil⟩
  | cons node nodes ih =>
      rw [List.forall_mem_cons] at h
      obtain ⟨a, ha, hkept⟩ := ofSockaddr_keeps L (stale i) port h.1
      obtain ⟨rest, hrest, hall⟩ := ih (i + 1) h.2 (addrs ++ [a.setPort port])
      refine ⟨a.setPort port :: rest, ?_, List.Forall₂.cons hkept hall⟩
      rw [resolveLoop, ha, Option.bind_some, hrest, List.append_assoc]
      rfl

/-- **Resolving keeps the addresses**: `resolveAll` gives one address for each node, in the
order of the nodes, which is the node with the port; and `resolve` stores the first of
them, or leaves `*out` alone if there is none. -/
theorem resolveAll_keeps (L : Libc) (stale : ℕ → InetAddress) (port : UInt16) (answer : Answer)
    (h : ∀ node ∈ answer.nodes, node.Known) :
    ∃ addrs, resolveAll stale port answer = some addrs ∧
      List.Forall₂ (Kept L port) answer.nodes addrs ∧
      ∀ out, (addrs = [] → resolve stale port answer out = some (false, out)) ∧
        ∀ a rest, addrs = a :: rest → resolve stale port answer out = some (true, a) := by
  obtain ⟨addrs, haddrs, hkept⟩ : ∃ addrs, resolveAll stale port answer = some addrs ∧
      List.Forall₂ (Kept L port) answer.nodes addrs := by
    cases answer with
    | error code => exact ⟨[], rfl, List.Forall₂.nil⟩
    | found result rest => exact resolveLoop_keeps L stale port 0 h []
  refine ⟨addrs, haddrs, hkept, ?_⟩
  intro out
  constructor
  · intro hnil
    rw [resolve, haddrs, hnil]
    rfl
  · intro a rest hcons
    rw [resolve, haddrs, hcons]
    rfl

/-- `10.0.0.1`, port 1, in 16 bytes. -/
def node4 : Sockaddr where
  size := 16
  bytes := ![2, 0, 0, 1, 10, 0, 0, 1, 0, 0, 0, 0, 0, 0, 0, 0]
  base := by decide
  room := by decide
  room6 := by decide

/-- `fe80::1`, with flow information and scope, in 28 bytes. -/
def node6 : Sockaddr where
  size := 28
  bytes := ![10, 0, 0, 1, 1, 2, 3, 4, 254, 128, 0, 0, 0, 0, 0, 0, 0, 0, 0, 0, 0, 0, 0, 1, 7, 0, 0, 0]
  base := by decide
  room := by decide
  room6 := by decide

/-- Two nodes of different families. -/
theorem resolveAll_keeps_mixed : ∃ addrs,
    resolveAll (fun _ => ⟨fun _ => 255⟩) 8080 (.found node6 [node4]) = some addrs ∧
      List.Forall₂ (Kept printer 8080) [node6, node4] addrs := by
  have hknown : ∀ node ∈ (Answer.found node6 [node4]).nodes, node.Known := by
    rw [Answer.nodes, List.forall_mem_cons, List.forall_mem_singleton]
    exact ⟨Or.inr (by decide), Or.inl (by decide)⟩
  obtain ⟨addrs, haddrs, hkept, -⟩ :=
    resolveAll_keeps printer (fun _ => ⟨fun _ => 255⟩) 8080 (.found node6 [node4]) hknown
  exact ⟨addrs, haddrs, hkept⟩

end InetAddresses
