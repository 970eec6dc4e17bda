/-
# A network of datagrams

The network holds the datagrams on their way.  Any of them may arrive next, be lost, or be
duplicated, so that neither order nor number is kept; what arrives was sent.

No fault makes anything new (`subset_of_fault`).  `gathered key value k net` is what the
network holds of one kind `k`, seen through `value`.
-/
import Mathlib.Data.Multiset.Filter
import Mathlib.Tactic

namespace Datagrams

variable {δ κ β : Type*}

/-- The datagrams on their way. -/
abbrev Network (δ : Type*) : Type _ := Multiset δ

/-- A datagram is sent. -/
def send (net : Network δ) (d : δ) : Network δ := d ::ₘ net

/-- What may happen to a datagram on its way. -/
inductive Fault
  | lose
  | duplicate
  deriving DecidableEq

section Network

variable [DecidableEq δ]

/-- A datagram arrives, if it is on its way. -/
def receive (net : Network δ) (d : δ) : Option (Network δ) :=
  if d ∈ net then some (net.erase d) else none

/-- A fault of the network. -/
def Fault.apply (f : Fault) (net : Network δ) (d : δ) : Option (Network δ) :=
  match f with
  | .lose => receive net d
  | .duplicate => if d ∈ net then some (d ::ₘ net) else none

/-- What arrives has been on its way. -/
theorem receive_eq_some {net net' : Network δ} {d : δ} (h : receive net d = some net') :
    net = d ::ₘ net' := by
  rw [receive] at h
  split_ifs at h with hmem
  rw [← Option.some.inj h]
  exact (Multiset.cons_erase hmem).symm

/-- What is duplicated is on its way. -/
theorem duplicate_eq_some {net net' : Network δ} {d : δ}
    (h : Fault.duplicate.apply net d = some net') : d ∈ net ∧ net' = d ::ₘ net := by
  rw [Fault.apply] at h
  split_ifs at h with hmem
  exact ⟨hmem, (Option.some.inj h).symm⟩

/-- What is first is received. -/
theorem receive_cons (net : Network δ) (d : δ) : receive (d ::ₘ net) d = some net := by
  rw [receive, if_pos (Multiset.mem_cons_self d net), Multiset.erase_cons_head]

theorem duplicate_of_mem {net : Network δ} {d : δ} (h : d ∈ net) :
    Fault.duplicate.apply net d = some (d ::ₘ net) :=
  if_pos h

/-- **No fault makes anything new.** -/
theorem subset_of_fault {f : Fault} {net net' : Network δ} {d : δ}
    (h : f.apply net d = some net') : net' ⊆ net := by
  intro x hx
  cases f with
  | lose =>
      rw [receive_eq_some h]
      exact Multiset.mem_cons_of_mem hx
  | duplicate =>
      obtain ⟨hmem, rfl⟩ := duplicate_eq_some h
      rcases Multiset.mem_cons.mp hx with rfl | hx
      · exact hmem
      · exact hx

end Network

/-! ## The datagrams of one kind -/

variable [DecidableEq κ]

/-- The values of the datagrams of the kind `k`. -/
def gathered (key : δ → κ) (value : δ → β) (k : κ) (net : Network δ) : Multiset β :=
  (net.filter (fun d => key d = k)).map value

variable {key : δ → κ} {value : δ → β} {k : κ}

/-- One datagram more of this kind. -/
theorem gathered_cons_of_eq {d : δ} (net : Network δ) (h : key d = k) :
    gathered key value k (d ::ₘ net) = value d ::ₘ gathered key value k net := by
  rw [gathered, Multiset.filter_cons_of_pos (p := fun d => key d = k) net h, Multiset.map_cons]
  rfl

/-- One of another kind. -/
theorem gathered_cons_of_ne {d : δ} (net : Network δ) (h : key d ≠ k) :
    gathered key value k (d ::ₘ net) = gathered key value k net := by
  rw [gathered, Multiset.filter_cons_of_neg (p := fun d => key d = k) net h]
  rfl

/-- What is on its way is among what is gathered. -/
theorem mem_gathered {d : δ} {net : Network δ} (h : d ∈ net) :
    value d ∈ gathered key value (key d) net :=
  Multiset.mem_map_of_mem value (Multiset.mem_filter.mpr ⟨h, rfl⟩)

end Datagrams
