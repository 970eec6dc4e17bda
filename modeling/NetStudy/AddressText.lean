/-
# Addresses and their text (`ttcp/comm/InetAddress.cc`)

* Addresses of the two families are equal exactly if their texts with port are
  (`eq_iff_toIpPort`), if `inet_ntop` gives different addresses different texts, of digits
  and dots for one family and of hexadecimal digits, colons and dots for the other.  The
  colon, or the bracket and the colon, in front of the port can be found again.
* An address that is built from a text has the bytes of the address and of the port, but
  nothing writes its family: what `family()` gives is what the storage held
  (`ofText_faithful_iff`).  The address for listening sets it (`family_listening`).
-/
import NetStudy.InetAddress
import Mathlib.Data.List.Basic

namespace InetAddresses

open ByteFields

variable {L : Libc} {a b : InetAddress}

/-! ## What is printed -/

/-- The digits of the hexadecimal system. -/
def isHexDigit (c : Char) : Bool :=
  c.isDigit || (decide ('a' ≤ c) && decide (c ≤ 'f')) || (decide ('A' ≤ c) && decide (c ≤ 'F'))

/-- `inet_ntop` prints different addresses of a family differently, and with the characters
of the family. -/
structure Prints (L : Libc) : Prop where
  inet : Function.Injective L.inetNtop
  inet6 : Function.Injective L.inetNtop6
  digits : ∀ v, ∀ c ∈ L.inetNtop v, c.isDigit = true ∨ c = '.'
  digits6 : ∀ v, ∀ c ∈ L.inetNtop6 v, isHexDigit c = true ∨ c = ':' ∨ c = '.'

/-- The decimal digits of a number. -/
theorem notMem_repr {c : Char} (hc : c.isDigit = false) (n : ℕ) : c ∉ (Nat.repr n).toList := by
  intro hmem
  rw [Nat.toList_repr] at hmem
  have hdigit := Nat.isDigit_of_mem_toDigits (by decide) (by decide) hmem
  rw [hc] at hdigit
  cases hdigit

/-- No other character is in an IPv4 address. -/
theorem Prints.notMem_inet (h : Prints L) {c : Char} (hc : c.isDigit = false) (hdot : c ≠ '.')
    (v : Fin 4 → UInt8) : c ∉ L.inetNtop v := by
  intro hmem
  rcases h.digits v c hmem with hdigit | heq
  · rw [hc] at hdigit
    cases hdigit
  · exact hdot heq

/-- No bracket is in an IPv6 address. -/
theorem Prints.notMem_inet6 (h : Prints L) (v : Fin 16 → UInt8) : ']' ∉ L.inetNtop6 v := by
  intro hmem
  rcases h.digits6 v ']' hmem with hdigit | heq | heq
  · exact absurd hdigit (by decide)
  · exact absurd heq (by decide)
  · exact absurd heq (by decide)

/-- A number can be read from its digits. -/
theorem repr_toList_inj {m n : ℕ} (h : (Nat.repr m).toList = (Nat.repr n).toList) : m = n := by
  rw [Nat.toList_repr, Nat.toList_repr] at h
  rw [← Nat.ofDigitChars_ten_toDigits (n := m), h, Nat.ofDigitChars_ten_toDigits]

/-- A text can be cut again at the first of its delimiters. -/
theorem cut_first {c : Char} {x x' z z' : Text} (hx : c ∉ x) (hx' : c ∉ x')
    (h : x ++ c :: z = x' ++ c :: z') : x = x' ∧ z = z' := by
  induction x generalizing x' with
  | nil =>
      cases x' with
      | nil => exact ⟨rfl, (List.cons.inj h).2⟩
      | cons d x' =>
          -- the other text would have the delimiter within
          obtain ⟨rfl, -⟩ := List.cons.inj h
          exact absurd List.mem_cons_self hx'
  | cons d x ih =>
      cases x' with
      | nil =>
          obtain ⟨rfl, -⟩ := List.cons.inj h
          exact absurd List.mem_cons_self hx
      | cons d' x' =>
          obtain ⟨rfl, hrest⟩ := List.cons.inj h
          obtain ⟨rfl, rfl⟩ := ih (fun hc => hx (List.mem_cons_of_mem _ hc))
            (fun hc => hx' (List.mem_cons_of_mem _ hc)) hrest
          exact ⟨rfl, rfl⟩

/-! ## The two families -/

theorem toIp_inet (h : a.family = AF_INET) : a.toIp L = L.inetNtop (sinAddr.get a.storage) := by
  rw [InetAddress.toIp, if_pos h]

theorem toIp_inet6 (h : a.family = AF_INET6) :
    a.toIp L = L.inetNtop6 (sin6Addr.get a.storage) := by
  have hne : a.family ≠ AF_INET := by
    rw [h]
    decide
  rw [InetAddress.toIp, if_neg hne, if_pos h]

theorem toIpPort_inet (h : a.family = AF_INET) :
    a.toIpPort L = L.inetNtop (sinAddr.get a.storage) ++ ':' :: (Nat.repr a.port.toNat).toList := by
  have hne : a.family ≠ AF_INET6 := by
    rw [h]
    decide
  rw [InetAddress.toIpPort, if_neg hne, toIp_inet h, InetAddress.portText]

theorem toIpPort_inet6 (h : a.family = AF_INET6) :
    a.toIpPort L = '[' :: (L.inetNtop6 (sin6Addr.get a.storage)
      ++ ']' :: ':' :: (Nat.repr a.port.toNat).toList) := by
  rw [InetAddress.toIpPort, if_pos h, toIp_inet6 h, InetAddress.portText]

/-- The bytes of the port are equal if the ports are. -/
theorem sinPort_eq_iff : sinPort.get a.storage = sinPort.get b.storage ↔ a.port = b.port := by
  constructor
  · intro h
    rw [InetAddress.port, h, InetAddress.port]
  · intro h
    exact ntohs_injective h

theorem eq_inet_iff (ha : a.family = AF_INET) (hb : b.family = AF_INET) :
    a.eq b = true ↔ a.port = b.port ∧ sinAddr.get a.storage = sinAddr.get b.storage := by
  rw [InetAddress.eq, if_pos (ha.trans hb.symm), if_pos ha, Bool.and_eq_true, decide_eq_true_eq,
    decide_eq_true_eq, sinPort_eq_iff]

theorem eq_inet6_iff (ha : a.family = AF_INET6) (hb : b.family = AF_INET6) :
    a.eq b = true ↔ a.port = b.port ∧ sin6Addr.get a.storage = sin6Addr.get b.storage := by
  have hne : a.family ≠ AF_INET := by
    rw [ha]
    decide
  rw [InetAddress.eq, if_pos (ha.trans hb.symm), if_neg hne, if_pos ha, Bool.and_eq_true,
    decide_eq_true_eq, decide_eq_true_eq]
  exact and_congr_left' sinPort_eq_iff

theorem eq_false_of_family (h : a.family ≠ b.family) : a.eq b = false := by
  rw [InetAddress.eq, if_neg h]

/-! ## Equality -/

/-- The texts of two IPv4 addresses: the first colon is the one in front of the port. -/
theorem toIpPort_inet_eq_iff (h : Prints L) (ha : a.family = AF_INET) (hb : b.family = AF_INET) :
    a.toIpPort L = b.toIpPort L ↔
      a.port = b.port ∧ sinAddr.get a.storage = sinAddr.get b.storage := by
  rw [toIpPort_inet ha, toIpPort_inet hb]
  constructor
  · intro heq
    -- no colon is in an IPv4 address
    obtain ⟨hip, hport⟩ := cut_first (h.notMem_inet (by decide) (by decide) _)
      (h.notMem_inet (by decide) (by decide) _) heq
    exact ⟨UInt16.toNat_inj.mp (repr_toList_inj hport), h.inet hip⟩
  · rintro ⟨hport, haddr⟩
    rw [hport, haddr]

/-- The texts of two IPv6 addresses: the first closing bracket ends the address. -/
theorem toIpPort_inet6_eq_iff (h : Prints L) (ha : a.family = AF_INET6) (hb : b.family = AF_INET6) :
    a.toIpPort L = b.toIpPort L ↔
      a.port = b.port ∧ sin6Addr.get a.storage = sin6Addr.get b.storage := by
  rw [toIpPort_inet6 ha, toIpPort_inet6 hb]
  constructor
  · intro heq
    -- no closing bracket is in an IPv6 address
    obtain ⟨hip, hport⟩ := cut_first (h.notMem_inet6 _) (h.notMem_inet6 _) (List.cons.inj heq).2
    exact ⟨UInt16.toNat_inj.mp (repr_toList_inj (List.cons.inj hport).2), h.inet6 hip⟩
  · rintro ⟨hport, haddr⟩
    rw [hport, haddr]

/-- An IPv4 address does not print the opening bracket of an IPv6 address. -/
theorem toIpPort_ne (h : Prints L) (ha : a.family = AF_INET) (hb : b.family = AF_INET6) :
    a.toIpPort L ≠ b.toIpPort L := by
  intro heq
  have hmem : '[' ∈ a.toIpPort L := by
    rw [heq, toIpPort_inet6 hb]
    exact List.mem_cons_self
  rw [toIpPort_inet ha, List.mem_append, List.mem_cons] at hmem
  rcases hmem with hip | hcolon | hport
  · exact h.notMem_inet (by decide) (by decide) _ hip
  · exact absurd hcolon (by decide)
  · exact notMem_repr (by decide) _ hport

/-- The values of the two families. -/
def Known (a : InetAddress) : Prop := a.family = AF_INET ∨ a.family = AF_INET6

/-- **Equality is equality of the texts with port**, and an equivalence relation. -/
theorem eq_iff_toIpPort (L : Libc) (h : Prints L) :
    (∀ a b, Known a → Known b → (a.eq b = true ↔ a.toIpPort L = b.toIpPort L)) ∧
      Equivalence (fun a b : {a // Known a} => a.1.eq b.1 = true) := by
  have hiff : ∀ a b, Known a → Known b → (a.eq b = true ↔ a.toIpPort L = b.toIpPort L) := by
    rintro a b (ha | ha) (hb | hb)
    · rw [eq_inet_iff ha hb, toIpPort_inet_eq_iff h ha hb]
    · have hne : a.family ≠ b.family := by
        rw [ha, hb]
        decide
      rw [eq_false_of_family hne]
      exact iff_of_false Bool.false_ne_true (toIpPort_ne h ha hb)
    · have hne : a.family ≠ b.family := by
        rw [ha, hb]
        decide
      rw [eq_false_of_family hne]
      exact iff_of_false Bool.false_ne_true (toIpPort_ne h hb ha).symm
    · rw [eq_inet6_iff ha hb, toIpPort_inet6_eq_iff h ha hb]
  refine ⟨hiff, ?_, ?_, ?_⟩
  · rintro ⟨a, ha⟩
    exact (hiff a a ha ha).mpr rfl
  · rintro ⟨a, ha⟩ ⟨b, hb⟩ hab
    exact (hiff b a hb ha).mpr ((hiff a b ha hb).mp hab).symm
  · rintro ⟨a, ha⟩ ⟨b, hb⟩ ⟨c, hc⟩ hab hbc
    exact (hiff a c ha hc).mpr (((hiff a b ha hb).mp hab).trans ((hiff b c hb hc).mp hbc))

/-! ### A printer -/

/-- Dotted decimal notation. -/
def dotted (v : Fin 4 → UInt8) : Text :=
  (Nat.repr (v 0).toNat).toList ++ '.' :: ((Nat.repr (v 1).toNat).toList ++
    '.' :: ((Nat.repr (v 2).toNat).toList ++ '.' :: (Nat.repr (v 3).toNat).toList))

/-- A byte in two hexadecimal digits. -/
def hexPair (c : UInt8) : Text := [Nat.digitChar (c.toNat / 16), Nat.digitChar (c.toNat % 16)]

/-- Eight groups of four hexadecimal digits, as addresses are printed whose groups have four
digits. -/
def colonHex (v : Fin 16 → UInt8) : Text :=
  hexPair (v 0) ++ hexPair (v 1) ++ ':' :: (hexPair (v 2) ++ hexPair (v 3) ++
  ':' :: (hexPair (v 4) ++ hexPair (v 5) ++ ':' :: (hexPair (v 6) ++ hexPair (v 7) ++
  ':' :: (hexPair (v 8) ++ hexPair (v 9) ++ ':' :: (hexPair (v 10) ++ hexPair (v 11) ++
  ':' :: (hexPair (v 12) ++ hexPair (v 13) ++ ':' :: (hexPair (v 14) ++ hexPair (v 15))))))))

/-- A printer, which reads only the address `127.0.0.1`. -/
def printer : Libc where
  inetNtop := dotted
  inetNtop6 := colonHex
  inetPton := fun ip => if ip = dotted ![127, 0, 0, 1] then some ![127, 0, 0, 1] else none
  inetPton6 := fun _ => none

theorem dotted_injective : Function.Injective dotted := by
  intro v w h
  have hdot : ∀ n, '.' ∉ (Nat.repr n).toList := fun n => notMem_repr (by decide) n
  obtain ⟨h0, h⟩ := cut_first (hdot _) (hdot _) h
  obtain ⟨h1, h⟩ := cut_first (hdot _) (hdot _) h
  obtain ⟨h2, h3⟩ := cut_first (hdot _) (hdot _) h
  funext i
  apply UInt8.toNat_inj.mp
  fin_cases i
  · exact repr_toList_inj h0
  · exact repr_toList_inj h1
  · exact repr_toList_inj h2
  · exact repr_toList_inj h3

theorem hexPair_injective : Function.Injective hexPair := by
  have hdigit : ∀ i j : Fin 16, Nat.digitChar i = Nat.digitChar j → i = j := by decide
  intro c d h
  have hc := c.toNat_lt
  have hd := d.toNat_lt
  obtain ⟨hhigh, hlow⟩ := List.cons.inj h
  have hhigh' := congrArg Fin.val
    (hdigit ⟨c.toNat / 16, by omega⟩ ⟨d.toNat / 16, by omega⟩ hhigh)
  have hlow' := congrArg Fin.val
    (hdigit ⟨c.toNat % 16, by omega⟩ ⟨d.toNat % 16, by omega⟩ (List.cons.inj hlow).1)
  have hhigh'' : c.toNat / 16 = d.toNat / 16 := hhigh'
  have hlow'' : c.toNat % 16 = d.toNat % 16 := hlow'
  apply UInt8.toNat_inj.mp
  omega

/-- Where the digits of a byte are. -/
theorem hexPair_in_colonHex (v : Fin 16 → UInt8) (i : Fin 16) :
    ((colonHex v).drop (5 * (i / 2) + 2 * (i % 2) : ℕ)).take 2 = hexPair (v i) := by
  fin_cases i <;> rfl

theorem colonHex_injective : Function.Injective colonHex := by
  intro v w h
  funext i
  apply hexPair_injective
  -- both digits of a byte stand at a place of their own
  rw [← hexPair_in_colonHex v i, h, hexPair_in_colonHex w i]

theorem isHexDigit_hexPair {c : Char} {d : UInt8} (h : c ∈ hexPair d) : isHexDigit c = true := by
  have hdigit : ∀ i : Fin 16, isHexDigit (Nat.digitChar i) = true := by decide
  have hd := d.toNat_lt
  rw [hexPair, List.mem_cons, List.mem_singleton] at h
  rcases h with rfl | rfl
  · exact hdigit ⟨d.toNat / 16, by omega⟩
  · exact hdigit ⟨d.toNat % 16, by omega⟩

theorem prints_printer : Prints printer := by
  refine ⟨dotted_injective, colonHex_injective, ?_, ?_⟩
  · intro v c hc
    have hdigit : ∀ n, c ∈ (Nat.repr n).toList → c.isDigit = true := by
      intro n hn
      rw [Nat.toList_repr] at hn
      exact Nat.isDigit_of_mem_toDigits (by decide) (by decide) hn
    simp only [printer, dotted, List.mem_append, List.mem_cons] at hc
    rcases hc with hc | hc | hc | hc | hc | hc | hc
    · exact Or.inl (hdigit _ hc)
    · exact Or.inr hc
    · exact Or.inl (hdigit _ hc)
    · exact Or.inr hc
    · exact Or.inl (hdigit _ hc)
    · exact Or.inr hc
    · exact Or.inl (hdigit _ hc)
  · intro v c hc
    by_cases hcolon : c = ':'
    · exact Or.inr (Or.inl hcolon)
    · left
      simp only [printer, colonHex, List.mem_append, List.mem_cons, hcolon, false_or] at hc
      obtain ⟨i, hi⟩ : ∃ i, c ∈ hexPair (v i) := by
        rcases hc with (h | h) | (h | h) | (h | h) | (h | h) | (h | h) | (h | h) | (h | h) | h | h <;>
          exact ⟨_, h⟩
      exact isHexDigit_hexPair hi

/-- `127.0.0.1`, port 80. -/
def home : InetAddress :=
  ⟨![2, 0, 0, 80, 127, 0, 0, 1, 0, 0, 0, 0, 0, 0, 0, 0, 0, 0, 0, 0, 0, 0, 0, 0, 0, 0, 0, 0]⟩

/-- `2001:1db8:1111:2222:3333:4444:5555:6666`, port 80. -/
def site : InetAddress :=
  ⟨![10, 0, 0, 80, 0, 0, 0, 0, 32, 1, 29, 184, 17, 17, 34, 34, 51, 51, 68, 68, 85, 85, 102, 102,
    0, 0, 0, 0]⟩

/-- Two addresses with their texts. -/
theorem eq_iff_toIpPort_home :
    (home.eq site = true ↔ home.toIpPort printer = site.toIpPort printer) ∧
      home.toIpPort printer = "127.0.0.1:80".toList ∧
      site.toIpPort printer = "[2001:1db8:1111:2222:3333:4444:5555:6666]:80".toList :=
  ⟨(eq_iff_toIpPort printer prints_printer).1 home site (Or.inl (by decide)) (Or.inr (by decide)),
    by decide, by decide⟩

/-! ## Addresses built from a text -/

/-- The family that a text has. -/
def familyOf (ip : Text) : ℕ := if ':' ∈ ip then AF_INET6 else AF_INET

/-- `inet_ntop` prints the address that `inet_pton` reads in its canonical form. -/
structure Canonical (L : Libc) (canonical : Text → Text) : Prop where
  inet : ∀ ip v, L.inetPton ip = some v → L.inetNtop v = canonical ip
  inet6 : ∀ ip v, L.inetPton6 ip = some v → L.inetNtop6 v = canonical ip

/-- What an address built from a text and a port gives back. -/
structure Faithful (L : Libc) (canonical : Text → Text) (ip : Text) (port : UInt16)
    (a : InetAddress) : Prop where
  family : a.family = familyOf ip
  port : a.port = port
  toIp : a.toIp L = canonical ip

variable {stale stale' : InetAddress} {ip : Text} {port : UInt16}

/-- **Nothing writes the family.** -/
theorem family_ofText (h : InetAddress.ofText L stale ip port = some a) :
    a.family = stale.family := by
  rw [InetAddress.ofText] at h
  split_ifs at h
  · obtain ⟨v, -, rfl⟩ := Option.map_eq_some_iff.mp h
    rw [InetAddress.family, get_set_of_apart (by decide)]
    exact family_setPort stale port
  · obtain ⟨v, -, rfl⟩ := Option.map_eq_some_iff.mp h
    rw [InetAddress.family, get_set_of_apart (by decide)]
    exact family_setPort stale port

/-- The address does not touch the port. -/
theorem port_ofText (h : InetAddress.ofText L stale ip port = some a) : a.port = port := by
  rw [InetAddress.ofText] at h
  split_ifs at h
  · obtain ⟨v, -, rfl⟩ := Option.map_eq_some_iff.mp h
    rw [InetAddress.port, get_set_of_apart (by decide)]
    exact port_setPort stale port
  · obtain ⟨v, -, rfl⟩ := Option.map_eq_some_iff.mp h
    rw [InetAddress.port, get_set_of_apart (by decide)]
    exact port_setPort stale port

/-- With a colon, the text is read as an IPv6 address. -/
theorem sin6Addr_ofText (hcolon : ':' ∈ ip) (h : InetAddress.ofText L stale ip port = some a) :
    L.inetPton6 ip = some (sin6Addr.get a.storage) := by
  rw [InetAddress.ofText, if_pos hcolon] at h
  obtain ⟨v, hv, rfl⟩ := Option.map_eq_some_iff.mp h
  rw [hv, get_set]

/-- Without a colon, the text is read as an IPv4 address. -/
theorem sinAddr_ofText (hcolon : ':' ∉ ip) (h : InetAddress.ofText L stale ip port = some a) :
    L.inetPton ip = some (sinAddr.get a.storage) := by
  rw [InetAddress.ofText, if_neg hcolon] at h
  obtain ⟨v, hv, rfl⟩ := Option.map_eq_some_iff.mp h
  rw [hv, get_set]

/-- With the right family, the address is the one of the text. -/
theorem faithful_of_family {canonical : Text → Text} (hc : Canonical L canonical)
    (h : InetAddress.ofText L stale ip port = some a) (hfamily : a.family = familyOf ip) :
    Faithful L canonical ip port a := by
  refine ⟨hfamily, port_ofText h, ?_⟩
  rw [familyOf] at hfamily
  split_ifs at hfamily with hcolon
  · rw [toIp_inet6 hfamily]
    exact hc.inet6 _ _ (sin6Addr_ofText hcolon h)
  · rw [toIp_inet hfamily]
    exact hc.inet _ _ (sinAddr_ofText hcolon h)

/-- With the right family, two addresses of one text and port are equal. -/
theorem eq_of_family (ha : InetAddress.ofText L stale ip port = some a)
    (hb : InetAddress.ofText L stale' ip port = some b) (hfa : a.family = familyOf ip)
    (hfb : b.family = familyOf ip) : a.eq b = true := by
  have hport : a.port = b.port := by rw [port_ofText ha, port_ofText hb]
  rw [familyOf] at hfa hfb
  split_ifs at hfa hfb with hcolon
  · have haddr := (sin6Addr_ofText hcolon ha).symm.trans (sin6Addr_ofText hcolon hb)
    exact (eq_inet6_iff hfa hfb).mpr ⟨hport, Option.some.inj haddr⟩
  · have haddr := (sinAddr_ofText hcolon ha).symm.trans (sinAddr_ofText hcolon hb)
    exact (eq_inet_iff hfa hfb).mpr ⟨hport, Option.some.inj haddr⟩

/-- **The round trip of a text** succeeds exactly if the storage held the right family
before, for each of two addresses built from it. -/
theorem ofText_faithful_iff {canonical : Text → Text} (hc : Canonical L canonical)
    (ha : InetAddress.ofText L stale ip port = some a)
    (hb : InetAddress.ofText L stale' ip port = some b) :
    (Faithful L canonical ip port a ∧ Faithful L canonical ip port b ∧ a.eq b = true) ↔
      stale.family = familyOf ip ∧ stale'.family = familyOf ip := by
  rw [← family_ofText ha, ← family_ofText hb]
  constructor
  · rintro ⟨hfa, hfb, -⟩
    exact ⟨hfa.family, hfb.family⟩
  · rintro ⟨hfa, hfb⟩
    exact ⟨faithful_of_family hc ha hfa, faithful_of_family hc hb hfb, eq_of_family ha hb hfa hfb⟩

theorem canonical_printer : Canonical printer (fun ip => ip) := by
  constructor
  · intro ip v h
    simp only [printer] at h ⊢
    split_ifs at h with hip
    rw [← Option.some.inj h, hip]
  · intro ip v h
    cases h

/-- What `127.0.0.1` is built into. -/
theorem ofText_printer (stale : InetAddress) (port : UInt16) :
    InetAddress.ofText printer stale (dotted ![127, 0, 0, 1]) port
      = some ⟨sinAddr.set (stale.setPort port).storage ![127, 0, 0, 1]⟩ := by
  have hcolon : ':' ∉ dotted ![127, 0, 0, 1] := by decide
  have hpton : printer.inetPton (dotted ![127, 0, 0, 1]) = some ![127, 0, 0, 1] := by
    simp only [printer, if_true]
  rw [InetAddress.ofText, if_neg hcolon, hpton]
  rfl

/-- An address built in a storage that held one of the same family before. -/
theorem ofText_faithful_home : ∃ a,
    InetAddress.ofText printer home (dotted ![127, 0, 0, 1]) 8080 = some a ∧
      Faithful printer (fun ip => ip) (dotted ![127, 0, 0, 1]) 8080 a ∧ a.eq a = true := by
  have ha := ofText_printer home 8080
  obtain ⟨hfaithful, -, heq⟩ := (ofText_faithful_iff canonical_printer ha ha).mpr
    ⟨by decide, by decide⟩
  exact ⟨_, ha, hfaithful, heq⟩

/-- A storage that held zeros. -/
def cleared : InetAddress := ⟨fun _ => 0⟩

/-- **Built over zeros, an address has no family**, prints nothing, and is not equal to
itself. -/
theorem ofText_cleared : ∃ a,
    InetAddress.ofText printer cleared (dotted ![127, 0, 0, 1]) 80 = some a ∧
      ¬ Faithful printer (fun ip => ip) (dotted ![127, 0, 0, 1]) 80 a ∧
      a.toIp printer = [] ∧ a.eq a = false := by
  refine ⟨_, ofText_printer cleared 80, ?_, by decide, by decide⟩
  intro h
  exact absurd h.family (by decide)

end InetAddresses
