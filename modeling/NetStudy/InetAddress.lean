/-
# Socket addresses (`ttcp/comm/InetAddress.h`, `ttcp/comm/InetAddress.cc`)

An `InetAddress` is the 28 bytes of a union of `sockaddr_in` and `sockaddr_in6`.  Family and
port have the same place in both structures, so `family`, `port` and `setPort` go through
`sockaddr_in` whatever the address is; the IPv4 address lies over the flow information of
the other structure, and the IPv6 address behind it.

Every constructor writes some of the bytes over what the storage held before, `stale`.  The
functions `inet_ntop` and `inet_pton` are those of `Libc`.  A port is in network byte order;
the family is in that of the host, which has the low byte first.
-/
import NetStudy.ByteFields
import Mathlib.Data.Fin.VecNotation
import Mathlib.Data.Fintype.Pi
import Mathlib.Tactic.FinCases

namespace InetAddresses

open ByteFields

/-! ## The union -/

/-- `AF_INET`. -/
abbrev AF_INET : ℕ := 2

/-- `AF_INET6`. -/
abbrev AF_INET6 : ℕ := 10

/-- `sockaddr_in`. -/
abbrev sockaddrIn : Field 28 := ⟨0, 16, by decide⟩

/-- `sin_family`. -/
abbrev sinFamily : Field 28 := ⟨0, 2, by decide⟩

/-- `sin_port`. -/
abbrev sinPort : Field 28 := ⟨2, 2, by decide⟩

/-- `sin_addr`. -/
abbrev sinAddr : Field 28 := ⟨4, 4, by decide⟩

/-- `sockaddr_in6`. -/
abbrev sockaddrIn6 : Field 28 := ⟨0, 28, by decide⟩

/-- `sin6_family`. -/
abbrev sin6Family : Field 28 := ⟨0, 2, by decide⟩

/-- `sin6_port`. -/
abbrev sin6Port : Field 28 := ⟨2, 2, by decide⟩

/-- `sin6_addr`. -/
abbrev sin6Addr : Field 28 := ⟨8, 16, by decide⟩

/-- `InetAddress`. -/
structure InetAddress where
  storage : Fin 28 → UInt8

/-- The two bytes of a number of the host. -/
def hostBytes (n : ℕ) : Fin 2 → UInt8 := ![(n % 256).toUInt8, (n / 256).toUInt8]

/-- The number of the host in two bytes. -/
def ofHostBytes (b : Fin 2 → UInt8) : ℕ := (b 0).toNat + 256 * (b 1).toNat

/-- `htons`, as the two bytes in memory. -/
def htons (port : UInt16) : Fin 2 → UInt8 :=
  ![(port.toNat / 256).toUInt8, (port.toNat % 256).toUInt8]

/-- `ntohs` of two bytes in memory. -/
def ntohs (b : Fin 2 → UInt8) : UInt16 := (256 * (b 0).toNat + (b 1).toNat).toUInt16

/-- `family()`. -/
def InetAddress.family (a : InetAddress) : ℕ := ofHostBytes (sinFamily.get a.storage)

/-- `port()`. -/
def InetAddress.port (a : InetAddress) : UInt16 := ntohs (sinPort.get a.storage)

/-- `setPort(port)`. -/
def InetAddress.setPort (a : InetAddress) (port : UInt16) : InetAddress :=
  ⟨sinPort.set a.storage (htons port)⟩

/-! ## Text -/

/-- A string. -/
abbrev Text : Type := List Char

/-- `inet_ntop` and `inet_pton` for the two families.  A text that `inet_pton` refuses has
no address. -/
structure Libc where
  inetNtop : (Fin 4 → UInt8) → Text
  inetNtop6 : (Fin 16 → UInt8) → Text
  inetPton : Text → Option (Fin 4 → UInt8)
  inetPton6 : Text → Option (Fin 16 → UInt8)

/-- `toIp()`. -/
def InetAddress.toIp (L : Libc) (a : InetAddress) : Text :=
  if a.family = AF_INET then L.inetNtop (sinAddr.get a.storage)
  else if a.family = AF_INET6 then L.inetNtop6 (sin6Addr.get a.storage)
  else []

/-- Line 92. -/
def InetAddress.portText (a : InetAddress) : Text := ':' :: (Nat.repr a.port.toNat).toList

/-- `toIpPort()`. -/
def InetAddress.toIpPort (L : Libc) (a : InetAddress) : Text :=
  if a.family = AF_INET6 then '[' :: (a.toIp L ++ ']' :: a.portText) else a.toIp L ++ a.portText

/-- `operator==`. -/
def InetAddress.eq (a rhs : InetAddress) : Bool :=
  if a.family = rhs.family then
    if a.family = AF_INET then
      decide (sinPort.get a.storage = sinPort.get rhs.storage) &&
        decide (sinAddr.get a.storage = sinAddr.get rhs.storage)
    else if a.family = AF_INET6 then
      decide (sin6Port.get a.storage = sin6Port.get rhs.storage) &&
        decide (sin6Addr.get a.storage = sin6Addr.get rhs.storage)
    else false
  else false

/-! ## Constructors -/

/-- `InetAddress(ip, port)`; without a result where the assertion fails. -/
def InetAddress.ofText (L : Libc) (stale : InetAddress) (ip : Text) (port : UInt16) :
    Option InetAddress :=
  if ':' ∈ ip then
    (L.inetPton6 ip).map (fun v => ⟨sin6Addr.set (stale.setPort port).storage v⟩)
  else (L.inetPton ip).map (fun v => ⟨sinAddr.set (stale.setPort port).storage v⟩)

/-- `InetAddress(port, ipv6)`, with the addresses `in6addr_any` and `INADDR_ANY`. -/
def InetAddress.listening (stale : InetAddress) (port : UInt16) (ipv6 : Bool) : InetAddress :=
  if ipv6 then
    ⟨sin6Port.set (sin6Addr.set (sin6Family.set (sockaddrIn6.set stale.storage fun _ => 0)
      (hostBytes AF_INET6)) fun _ => 0) (htons port)⟩
  else
    ⟨sinPort.set (sinAddr.set (sinFamily.set (sockaddrIn.set stale.storage fun _ => 0)
      (hostBytes AF_INET)) fun _ => 0) (htons port)⟩

/-- A block that holds a `sockaddr`, and the whole structure of its family. -/
structure Sockaddr where
  size : ℕ
  bytes : Fin size → UInt8
  base : 2 ≤ size
  room : ofHostBytes (Field.get ⟨0, 2, base⟩ bytes) = AF_INET → 16 ≤ size
  room6 : ofHostBytes (Field.get ⟨0, 2, base⟩ bytes) = AF_INET6 → 28 ≤ size

/-- `sa_family`. -/
def Sockaddr.family (sa : Sockaddr) : ℕ := ofHostBytes (Field.get ⟨0, 2, sa.base⟩ sa.bytes)

/-- `InetAddress(saddr)`; without a result where the assertion fails. -/
def InetAddress.ofSockaddr (stale : InetAddress) (saddr : Sockaddr) : Option InetAddress :=
  if h : saddr.family = AF_INET then
    some ⟨sockaddrIn.copy stale.storage saddr.bytes (saddr.room h)⟩
  else if h : saddr.family = AF_INET6 then
    some ⟨sockaddrIn6.copy stale.storage saddr.bytes (saddr.room6 h)⟩
  else none

/-! ## Resolving -/

/-- What `getaddrinfo` gives: an error, or a list of at least one node. -/
inductive Answer
  | error (code : ℤ)
  | found (result : Sockaddr) (rest : List Sockaddr)

/-- The loop of lines 156-161 over the nodes that are left, with the addresses so far.
`stale i` is what the storage of `addr` holds in the turn with number `i`. -/
def resolveLoop (stale : ℕ → InetAddress) (port : UInt16) :
    ℕ → List Sockaddr → List InetAddress → Option (List InetAddress)
  | _, [], addrs => some addrs
  | i, ai :: nodes, addrs =>
      (InetAddress.ofSockaddr (stale i) ai).bind
        (fun addr => resolveLoop stale port (i + 1) nodes (addrs ++ [addr.setPort port]))

/-- `resolveAll(hostname, port)`. -/
def resolveAll (stale : ℕ → InetAddress) (port : UInt16) : Answer → Option (List InetAddress)
  | .error _ => some []
  | .found result rest => resolveLoop stale port 0 (result :: rest) []

/-- `resolve(hostname, port, out)`: what it returns, and `*out` behind it. -/
def resolve (stale : ℕ → InetAddress) (port : UInt16) (answer : Answer) (out : InetAddress) :
    Option (Bool × InetAddress) :=
  (resolveAll stale port answer).map (fun addrs =>
    match addrs with
    | [] => (false, out)
    | addr :: _ => (true, addr))

/-! ## Numbers and their bytes -/

/-- **A port survives the change of byte order.** -/
theorem ntohs_htons (port : UInt16) : ntohs (htons port) = port := by
  have hport := port.toNat_lt
  have hhigh : (port.toNat / 256).toUInt8.toNat = port.toNat / 256 :=
    Nat.mod_eq_of_lt (by omega)
  have hlow : (port.toNat % 256).toUInt8.toNat = port.toNat % 256 :=
    Nat.mod_eq_of_lt (by omega)
  have hsum : 256 * (port.toNat / 256) + port.toNat % 256 = port.toNat := by omega
  show (256 * (port.toNat / 256).toUInt8.toNat + (port.toNat % 256).toUInt8.toNat).toUInt16 = port
  rw [hhigh, hlow, hsum]
  exact UInt16.ofNat_toNat

/-- Two ports that are equal have the same bytes. -/
theorem ntohs_injective : Function.Injective ntohs := by
  intro b c h
  have hb0 := (b 0).toNat_lt
  have hb1 := (b 1).toNat_lt
  have hc0 := (c 0).toNat_lt
  have hc1 := (c 1).toNat_lt
  have hnat := congrArg UInt16.toNat h
  have hleft : (ntohs b).toNat = 256 * (b 0).toNat + (b 1).toNat :=
    Nat.mod_eq_of_lt (by omega)
  have hright : (ntohs c).toNat = 256 * (c 0).toNat + (c 1).toNat :=
    Nat.mod_eq_of_lt (by omega)
  rw [hleft, hright] at hnat
  funext i
  fin_cases i
  · apply UInt8.toNat_inj.mp
    show (b 0).toNat = (c 0).toNat
    omega
  · apply UInt8.toNat_inj.mp
    show (b 1).toNat = (c 1).toNat
    omega

/-! ## Setting the port -/

@[simp] theorem port_setPort (a : InetAddress) (port : UInt16) : (a.setPort port).port = port := by
  rw [InetAddress.port, InetAddress.setPort, get_set, ntohs_htons]

@[simp] theorem family_setPort (a : InetAddress) (port : UInt16) :
    (a.setPort port).family = a.family := by
  rw [InetAddress.family, InetAddress.setPort, get_set_of_apart (by decide)]
  rfl

/-- The port goes to the two bytes behind the family. -/
theorem storage_setPort (a : InetAddress) (port : UInt16) {j : Fin 28} (h : sinPort.Misses j) :
    (a.setPort port).storage j = a.storage j :=
  set_of_misses h _ _

/-- The port does not touch the address of either family. -/
theorem toIp_setPort (L : Libc) (a : InetAddress) (port : UInt16) :
    (a.setPort port).toIp L = a.toIp L := by
  have haddr : sinAddr.get (a.setPort port).storage = sinAddr.get a.storage :=
    get_set_of_apart (by decide) _ _
  have haddr6 : sin6Addr.get (a.setPort port).storage = sin6Addr.get a.storage :=
    get_set_of_apart (by decide) _ _
  rw [InetAddress.toIp, InetAddress.toIp, family_setPort, haddr, haddr6]

/-! ## The family of an address for listening -/

theorem ofHostBytes_hostBytes {n : ℕ} (h : n < 65536) : ofHostBytes (hostBytes n) = n := by
  have hlow : (n % 256).toUInt8.toNat = n % 256 := Nat.mod_eq_of_lt (by omega)
  have hhigh : (n / 256).toUInt8.toNat = n / 256 := Nat.mod_eq_of_lt (by omega)
  show (n % 256).toUInt8.toNat + 256 * (n / 256).toUInt8.toNat = n
  rw [hlow, hhigh]
  omega

/-- **An address for listening has its family**, whatever the storage held. -/
theorem family_listening (stale : InetAddress) (port : UInt16) (ipv6 : Bool) :
    (InetAddress.listening stale port ipv6).family = if ipv6 then AF_INET6 else AF_INET := by
  rw [InetAddress.family, InetAddress.listening]
  cases ipv6 with
  | false =>
      show ofHostBytes (sinFamily.get (sinPort.set (sinAddr.set (sinFamily.set _ _) _) _)) = AF_INET
      rw [get_set_of_apart (by decide), get_set_of_apart (by decide), get_set]
      exact ofHostBytes_hostBytes (by decide)
  | true =>
      show ofHostBytes (sin6Family.get (sin6Port.set (sin6Addr.set (sin6Family.set _ _) _) _))
        = AF_INET6
      rw [get_set_of_apart (by decide), get_set_of_apart (by decide), get_set]
      exact ofHostBytes_hostBytes (by decide)

end InetAddresses
