/-
# Who owns a descriptor (`ttcp/comm/Socket.h`, `Socket.cc`, `TcpStream.cc`)

A `Socket` closes its descriptor when it is destroyed, unless it has handed it on: the
move constructor copies the descriptor and leaves -1 in the source, assignment swaps the
two descriptors.

Any number of objects are constructed, moved, swapped, used and destroyed in any order.
The state lists the objects that are alive with their `sockfd_`, the descriptors that the
process has open, and three histories: the descriptors handed to `Socket(int)`, those
closed, and those used or closed while they were not open.

* `Owned` says that every descriptor handed over and not closed has one owner, and that
  the third history is empty;
* `owned_of_reachable`: it holds in every reachable state;
* `connectInternal_owns`, `connectInternal_closes`: what `connectInternal` leaves behind.
-/
import NetStudy.Transition
import Mathlib.Data.Finset.Basic
import Mathlib.Data.List.Count
import Mathlib.Logic.Equiv.Basic

namespace TtcpSocket

open Transition

/-! ## The objects -/

/-- The objects, the open descriptors, and the histories. -/
structure State (O : Type*) where
  alive : Finset O
  sockfd : O → ℤ
  opened : Finset ℤ
  handed : List ℤ
  closed : List ℤ
  misused : List ℤ

/-- No object, and no descriptor. -/
def start {O : Type*} : State O := ⟨∅, fun _ => -1, ∅, [], [], []⟩

variable {O : Type*} [DecidableEq O]

/-- A system call on a descriptor: a non-negative one has to be open. -/
def State.call (s : State O) (fd : ℤ) : State O :=
  if 0 ≤ fd ∧ fd ∉ s.opened then { s with misused := s.misused ++ [fd] } else s

/-- `::close`. -/
def State.close (s : State O) (fd : ℤ) : State O :=
  { s.call fd with opened := s.opened.erase fd, closed := s.closed ++ [fd] }

/-- The constructor `Socket(int)`, with its assertion. -/
def State.init (s : State O) (o : O) (sockfd : ℤ) : Option (State O) :=
  if o ∉ s.alive ∧ 0 ≤ sockfd then
    some { s with alive := insert o s.alive, sockfd := Function.update s.sockfd o sockfd }
  else none

/-- The destructor. -/
def State.destroy (s : State O) (o : O) : State O :=
  if 0 ≤ s.sockfd o then { s.close (s.sockfd o) with alive := s.alive.erase o }
  else { s with alive := s.alive.erase o }

/-- The move constructor: it delegates to `Socket(int)` and then clears the source. -/
def State.moveConstruct (s : State O) (o rhs : O) : Option (State O) :=
  (s.init o (s.sockfd rhs)).map
    (fun s => { s with sockfd := Function.update s.sockfd rhs (-1) })

/-- `swap`. -/
def State.swap (s : State O) (o rhs : O) : State O :=
  { s with
    sockfd := Function.update (Function.update s.sockfd o (s.sockfd rhs)) rhs (s.sockfd o) }

/-- `operator=(Socket&&)`. -/
def State.moveAssign (s : State O) (o rhs : O) : State O := s.swap o rhs

/-- What can happen to the objects.  `obtain` is the process getting a descriptor from
`socket` or `accept`, and `use` a member function that calls the system with
`sockfd_`. -/
inductive Op (O : Type*)
  | obtain (fd : ℕ)
  | construct (o : O) (fd : ℤ)
  | moveConstruct (o rhs : O)
  | moveAssign (o rhs : O)
  | swap (o rhs : O)
  | destroy (o : O)
  | use (o : O)

/-- One operation.  A descriptor that is obtained was not open; one that is handed to
`Socket(int)` is open and no object that is alive owns it. -/
def step : Op O → State O → Option (State O)
  | .obtain fd, s =>
      if (fd : ℤ) ∉ s.opened then some { s with opened := insert (fd : ℤ) s.opened } else none
  | .construct o fd, s =>
      if fd ∈ s.opened ∧ ∀ u ∈ s.alive, s.sockfd u ≠ fd then
        (s.init o fd).map (fun s => { s with handed := s.handed ++ [fd] })
      else none
  | .moveConstruct o rhs, s => if rhs ∈ s.alive then s.moveConstruct o rhs else none
  | .moveAssign o rhs, s =>
      if o ∈ s.alive ∧ rhs ∈ s.alive then some (s.moveAssign o rhs) else none
  | .swap o rhs, s => if o ∈ s.alive ∧ rhs ∈ s.alive then some (s.swap o rhs) else none
  | .destroy o, s => if o ∈ s.alive then some (s.destroy o) else none
  | .use o, s => if o ∈ s.alive then some (s.call (s.sockfd o)) else none

/-! ## The invariant -/

/-- The object is alive and its `sockfd_` is this descriptor. -/
def State.Owns (s : State O) (o : O) (fd : ℤ) : Prop := o ∈ s.alive ∧ s.sockfd o = fd

/-- The ownership law. -/
structure Owned (s : State O) : Prop where
  /-- A descriptor handed over and not yet closed has exactly one owner. -/
  owner : ∀ fd, s.closed.count fd ≠ s.handed.count fd → ∃! o, s.Owns o fd
  /-- An object holds no other descriptors. -/
  held : ∀ o ∈ s.alive, 0 ≤ s.sockfd o →
    s.sockfd o ∈ s.opened ∧ s.handed.count (s.sockfd o) = s.closed.count (s.sockfd o) + 1
  /-- It is closed at most once each time it is handed over. -/
  closed_le : ∀ fd, s.closed.count fd ≤ s.handed.count fd
  /-- Nothing is used or closed behind its close. -/
  misused : s.misused = []
  /-- With no object left, each has been closed as often as it was handed over. -/
  all_closed : s.alive = ∅ → ∀ fd, s.closed.count fd = s.handed.count fd

/-- The invariant, seen from the owners. -/
structure OwnerInv (s : State O) : Prop where
  opened : ∀ o fd, 0 ≤ fd → s.Owns o fd → fd ∈ s.opened
  counts : ∀ o fd, 0 ≤ fd → s.Owns o fd → s.handed.count fd = s.closed.count fd + 1
  unique : ∀ o u fd, 0 ≤ fd → s.Owns o fd → s.Owns u fd → o = u
  unowned : ∀ fd, (0 ≤ fd → ∀ o, ¬ s.Owns o fd) → s.handed.count fd = s.closed.count fd
  misused : s.misused = []

omit [DecidableEq O] in
theorem ownerInv_start : OwnerInv (start (O := O)) where
  opened := fun o _ _ h => absurd h.1 (Finset.notMem_empty o)
  counts := fun o _ _ h => absurd h.1 (Finset.notMem_empty o)
  unique := fun o _ _ _ h => absurd h.1 (Finset.notMem_empty o)
  unowned := fun _ _ => rfl
  misused := rfl

omit [DecidableEq O] in
/-- The invariant gives the law. -/
theorem OwnerInv.owned {s : State O} (h : OwnerInv s) : Owned s := by
  refine ⟨?_, ?_, ?_, h.misused, ?_⟩
  · intro fd hcount
    by_contra hno
    apply hcount
    refine (h.unowned fd ?_).symm
    intro hfd o ho
    exact hno ⟨o, ho, fun u hu => h.unique u o fd hfd hu ho⟩
  · intro o ho hfd
    exact ⟨h.opened o _ hfd ⟨ho, rfl⟩, h.counts o _ hfd ⟨ho, rfl⟩⟩
  · intro fd
    by_cases hex : 0 ≤ fd ∧ ∃ o, s.Owns o fd
    · obtain ⟨hfd, o, ho⟩ := hex
      rw [h.counts o fd hfd ho]
      exact Nat.le_succ _
    · rw [h.unowned fd (fun hfd o ho => hex ⟨hfd, o, ho⟩)]
  · intro hempty fd
    refine (h.unowned fd ?_).symm
    intro _ o ho
    rw [State.Owns, hempty] at ho
    exact absurd ho.1 (Finset.notMem_empty o)

omit [DecidableEq O] in
/-- **Owners may be renamed**: the invariant does not see which object owns what. -/
theorem OwnerInv.permute {s s' : State O} (h : OwnerInv s) (π : Equiv.Perm O)
    (howns : ∀ o fd, 0 ≤ fd → (s'.Owns (π o) fd ↔ s.Owns o fd))
    (hopened : s'.opened = s.opened) (hhanded : s'.handed = s.handed)
    (hclosed : s'.closed = s.closed) (hmisused : s'.misused = s.misused) : OwnerInv s' := by
  have hback : ∀ o fd, 0 ≤ fd → s'.Owns o fd → s.Owns (π.symm o) fd := by
    intro o fd hfd ho
    rw [← π.apply_symm_apply o] at ho
    exact (howns _ fd hfd).mp ho
  refine ⟨?_, ?_, ?_, ?_, ?_⟩
  · intro o fd hfd ho
    rw [hopened]
    exact h.opened _ fd hfd (hback o fd hfd ho)
  · intro o fd hfd ho
    rw [hhanded, hclosed]
    exact h.counts _ fd hfd (hback o fd hfd ho)
  · intro o u fd hfd ho hu
    exact π.symm.injective (h.unique _ _ fd hfd (hback o fd hfd ho) (hback u fd hfd hu))
  · intro fd hno
    rw [hhanded, hclosed]
    apply h.unowned fd
    intro hfd o ho
    exact hno hfd (π o) ((howns o fd hfd).mpr ho)
  · rw [hmisused]
    exact h.misused

/-! ## The operations -/

/-- One more entry in a history. -/
theorem count_concat (l : List ℤ) (fd d : ℤ) :
    (l ++ [fd]).count d = l.count d + if fd = d then 1 else 0 := by
  rw [List.count_append, List.count_singleton]
  by_cases h : fd = d
  · rw [if_pos (beq_iff_eq.mpr h), if_pos h]
  · rw [if_neg (fun hb => h (beq_iff_eq.mp hb)), if_neg h]

/-- `Socket(int)` on an open descriptor that nobody owns. -/
theorem OwnerInv.construct {s s' : State O} (h : OwnerInv s) {o : O} {fd : ℤ}
    (hs : step (.construct o fd) s = some s') : OwnerInv s' := by
  rw [step] at hs
  split_ifs at hs with hguard
  obtain ⟨hopen, hfree⟩ := hguard
  obtain ⟨s₁, hinit, rfl⟩ := Option.map_eq_some_iff.mp hs
  unfold State.init at hinit
  split_ifs at hinit with halive
  obtain ⟨hnew, hpos⟩ := halive
  rw [← Option.some.inj hinit]
  have hunowned : s.handed.count fd = s.closed.count fd :=
    h.unowned fd (fun _ u hu => hfree u hu.1 hu.2)
  have howns : ∀ u d, State.Owns { s with
      alive := insert o s.alive
      sockfd := Function.update s.sockfd o fd
      handed := s.handed ++ [fd] } u d ↔ (u = o ∧ d = fd) ∨ (u ≠ o ∧ s.Owns u d) := by
    intro u d
    rw [State.Owns, State.Owns, Finset.mem_insert]
    by_cases huo : u = o
    · subst huo
      simp [eq_comm]
    · simp [huo]
  have hne : ∀ u d, s.Owns u d → fd ≠ d := by
    rintro u d hu rfl
    exact hfree u hu.1 hu.2
  refine ⟨?_, ?_, ?_, ?_, h.misused⟩
  · intro u d hd hu
    rcases (howns u d).mp hu with ⟨-, rfl⟩ | ⟨-, hu⟩
    · exact hopen
    · exact h.opened u d hd hu
  · intro u d hd hu
    show (s.handed ++ [fd]).count d = s.closed.count d + 1
    rw [count_concat]
    rcases (howns u d).mp hu with ⟨-, rfl⟩ | ⟨-, hu⟩
    · rw [if_pos rfl, hunowned]
    · rw [if_neg (hne u d hu), h.counts u d hd hu]
  · intro u v d hd hu hv
    rcases (howns u d).mp hu with ⟨huo, hdu⟩ | ⟨-, hu⟩
    · rcases (howns v d).mp hv with ⟨hvo, -⟩ | ⟨-, hv⟩
      · rw [huo, hvo]
      · exact absurd hdu.symm (hne v d hv)
    · rcases (howns v d).mp hv with ⟨-, hdv⟩ | ⟨-, hv⟩
      · exact absurd hdv.symm (hne u d hu)
      · exact h.unique u v d hd hu hv
  · intro d hno
    show (s.handed ++ [fd]).count d = s.closed.count d
    have hfd : fd ≠ d := by
      rintro rfl
      exact hno hpos o ((howns o fd).mpr (Or.inl ⟨rfl, rfl⟩))
    rw [count_concat, if_neg hfd, Nat.add_zero]
    apply h.unowned d
    intro hd u hu
    refine hno hd u ((howns u d).mpr (Or.inr ⟨?_, hu⟩))
    rintro rfl
    exact hnew hu.1

/-- **The move constructor passes the descriptor on**: the new object owns what the
source owned, and the source owns nothing. -/
theorem OwnerInv.moveConstruct {s s' : State O} (h : OwnerInv s) {o rhs : O}
    (hrhs : rhs ∈ s.alive) (hs : s.moveConstruct o rhs = some s') : OwnerInv s' := by
  obtain ⟨s₁, hinit, rfl⟩ := Option.map_eq_some_iff.mp hs
  unfold State.init at hinit
  split_ifs at hinit with halive
  obtain ⟨hnew, -⟩ := halive
  rw [← Option.some.inj hinit]
  have hne : o ≠ rhs := by
    rintro rfl
    exact hnew hrhs
  refine h.permute (Equiv.swap o rhs) ?_ rfl rfl rfl rfl
  intro u fd hfd
  show (Equiv.swap o rhs u ∈ insert o s.alive ∧
    Function.update (Function.update s.sockfd o (s.sockfd rhs)) rhs (-1) (Equiv.swap o rhs u) = fd) ↔
      u ∈ s.alive ∧ s.sockfd u = fd
  by_cases huo : u = o
  · subst huo
    rw [Equiv.swap_apply_left, Function.update_self]
    constructor
    · rintro ⟨-, heq⟩
      omega
    · rintro ⟨hu, -⟩
      exact absurd hu hnew
  · by_cases hur : u = rhs
    · subst hur
      rw [Equiv.swap_apply_right, Function.update_of_ne hne, Function.update_self]
      simp [hrhs]
    · rw [Equiv.swap_apply_of_ne_of_ne huo hur, Function.update_of_ne hur,
        Function.update_of_ne huo, Finset.mem_insert]
      simp [huo]

/-- **A swap exchanges two owners**, also one object with itself. -/
theorem OwnerInv.swap {s : State O} (h : OwnerInv s) {o rhs : O} (ho : o ∈ s.alive)
    (hrhs : rhs ∈ s.alive) : OwnerInv (s.swap o rhs) := by
  refine h.permute (Equiv.swap o rhs) ?_ rfl rfl rfl rfl
  intro u fd _
  show (Equiv.swap o rhs u ∈ s.alive ∧
    Function.update (Function.update s.sockfd o (s.sockfd rhs)) rhs (s.sockfd o)
      (Equiv.swap o rhs u) = fd) ↔ u ∈ s.alive ∧ s.sockfd u = fd
  by_cases huo : u = o
  · subst huo
    rw [Equiv.swap_apply_left, Function.update_self]
    simp [ho, hrhs]
  · by_cases hur : u = rhs
    · subst hur
      rw [Equiv.swap_apply_right, Function.update_of_ne (Ne.symm huo), Function.update_self]
      simp [ho, hrhs]
    · rw [Equiv.swap_apply_of_ne_of_ne huo hur, Function.update_of_ne hur,
        Function.update_of_ne huo]

omit [DecidableEq O] in
/-- A call through a descriptor that is open, or through -1, is no misuse. -/
theorem OwnerInv.call_eq {s : State O} (h : OwnerInv s) {o : O} (ho : o ∈ s.alive) :
    s.call (s.sockfd o) = s := by
  rw [State.call, if_neg]
  rintro ⟨hfd, hclosed⟩
  exact hclosed (h.opened o _ hfd ⟨ho, rfl⟩)

/-- **The destructor closes what the object owns**, which nobody else does. -/
theorem OwnerInv.destroy {s : State O} (h : OwnerInv s) {o : O} (ho : o ∈ s.alive) :
    OwnerInv (s.destroy o) := by
  unfold State.destroy
  split_ifs with hfd
  · have hown : s.Owns o (s.sockfd o) := ⟨ho, rfl⟩
    have hcall := h.call_eq ho
    rw [State.close, hcall]
    have howns : ∀ u d, u ∈ s.alive.erase o ∧ s.sockfd u = d ↔ u ≠ o ∧ s.Owns u d := by
      intro u d
      rw [Finset.mem_erase, State.Owns, and_assoc]
    have hne : ∀ u d, 0 ≤ d → u ≠ o → s.Owns u d → s.sockfd o ≠ d := by
      rintro u d hd huo hu rfl
      exact huo (h.unique u o _ hd hu hown)
    refine ⟨?_, ?_, ?_, ?_, h.misused⟩
    · intro u d hd hu
      obtain ⟨huo, hu⟩ := (howns u d).mp hu
      exact Finset.mem_erase.mpr ⟨(hne u d hd huo hu).symm, h.opened u d hd hu⟩
    · intro u d hd hu
      obtain ⟨huo, hu⟩ := (howns u d).mp hu
      show s.handed.count d = (s.closed ++ [s.sockfd o]).count d + 1
      rw [count_concat, if_neg (hne u d hd huo hu)]
      exact h.counts u d hd hu
    · intro u v d hd hu hv
      exact h.unique u v d hd ((howns u d).mp hu).2 ((howns v d).mp hv).2
    · intro d hno
      show s.handed.count d = (s.closed ++ [s.sockfd o]).count d
      rw [count_concat]
      by_cases hod : s.sockfd o = d
      · rw [if_pos hod, ← hod]
        exact h.counts o _ hfd hown
      · rw [if_neg hod, Nat.add_zero]
        apply h.unowned d
        intro hd u hu
        refine hno hd u ((howns u d).mpr ⟨?_, hu⟩)
        rintro rfl
        exact hod hu.2
  · -- an object that owns nothing goes
    refine ⟨?_, ?_, ?_, ?_, h.misused⟩
    · intro u d hd hu
      exact h.opened u d hd ⟨Finset.mem_of_mem_erase hu.1, hu.2⟩
    · intro u d hd hu
      exact h.counts u d hd ⟨Finset.mem_of_mem_erase hu.1, hu.2⟩
    · intro u v d hd hu hv
      exact h.unique u v d hd ⟨Finset.mem_of_mem_erase hu.1, hu.2⟩
        ⟨Finset.mem_of_mem_erase hv.1, hv.2⟩
    · intro d hno
      apply h.unowned d
      intro hd u hu
      refine hno hd u ⟨Finset.mem_erase.mpr ⟨?_, hu.1⟩, hu.2⟩
      rintro rfl
      have := hu.2
      omega

/-- One operation. -/
theorem OwnerInv.step {s s' : State O} (h : OwnerInv s) {a : Op O}
    (hs : step a s = some s') : OwnerInv s' := by
  cases a with
  | obtain fd =>
      rw [TtcpSocket.step] at hs
      split_ifs at hs with hnew
      rw [← Option.some.inj hs]
      exact ⟨fun o d hd ho => Finset.mem_insert_of_mem (h.opened o d hd ho), h.counts, h.unique,
        h.unowned, h.misused⟩
  | construct o fd => exact h.construct hs
  | moveConstruct o rhs =>
      rw [TtcpSocket.step] at hs
      split_ifs at hs with hrhs
      exact h.moveConstruct hrhs hs
  | moveAssign o rhs =>
      rw [TtcpSocket.step] at hs
      split_ifs at hs with halive
      rw [← Option.some.inj hs]
      exact h.swap halive.1 halive.2
  | swap o rhs =>
      rw [TtcpSocket.step] at hs
      split_ifs at hs with halive
      rw [← Option.some.inj hs]
      exact h.swap halive.1 halive.2
  | destroy o =>
      rw [TtcpSocket.step] at hs
      split_ifs at hs with halive
      rw [← Option.some.inj hs]
      exact h.destroy halive
  | use o =>
      rw [TtcpSocket.step] at hs
      split_ifs at hs with halive
      rw [← Option.some.inj hs, h.call_eq halive]
      exact h

theorem ownerInv_of_reachable {s : State O} (h : Reachable step start s) : OwnerInv s :=
  h.invariant ownerInv_start (fun _ _ _ hinv _ hstep => hinv.step hstep)

/-- **Ownership**: after any sequence of operations over any number of objects. -/
theorem owned_of_reachable {s : State O} (h : Reachable step start s) : Owned s :=
  (ownerInv_of_reachable h).owned

/-- A descriptor that is moved on and assigned back is closed once, by its last owner. -/
theorem owned_movedBack :
    ∃ s : State ℕ, Owned s ∧ s.alive = ∅ ∧ s.closed = [3] := by
  obtain ⟨s, hreach, hend⟩ : ∃ s : State ℕ, Reachable step start s ∧ s.alive = ∅ ∧ s.closed = [3] :=
    exists_reach_of_run [.obtain 3, .construct 0 3, .moveConstruct 1 0, .use 1, .moveAssign 0 1,
      .moveAssign 0 0, .destroy 1, .use 0, .destroy 0] (by decide)
  exact ⟨s, owned_of_reachable hreach, hend⟩

/-! ## `TcpStream` -/

/-- `TcpStream::connectInternal`, with the descriptor that `socket` returns, the local
`sock`, and the member `sock_` of the new stream.  It says whether a local address is
given, whether `connect` succeeds and whether it has connected to itself. -/
def connectInternal (fd : ℕ) (sock stream : O) (localAddr connected self : Bool) : List (Op O) :=
  [Op.obtain fd, Op.construct sock fd] ++ (if localAddr then [Op.use sock] else []) ++
    [Op.use sock] ++
    (if connected then
      -- `isSelfConnection` asks for both addresses
      [Op.use sock, Op.use sock] ++ (if self then [] else [Op.moveConstruct stream sock])
    else []) ++ [Op.destroy sock]

/-- The objects behind the first two statements of `connectInternal`. -/
def State.created (s : State O) (fd : ℤ) (sock : O) : State O :=
  ⟨insert sock s.alive, Function.update s.sockfd sock fd, insert fd s.opened, s.handed ++ [fd],
    s.closed, s.misused⟩

theorem run_created {s : State O} (h : OwnerInv s) {fd : ℕ} {sock : O}
    (hfd : (fd : ℤ) ∉ s.opened) (hsock : sock ∉ s.alive) (as : List (Op O)) :
    run step (.obtain fd :: .construct sock fd :: as) s = run step as (s.created fd sock) := by
  have hfree : ∀ u ∈ s.alive, s.sockfd u ≠ fd := by
    intro u hu heq
    exact hfd (heq ▸ h.opened u _ (by omega) ⟨hu, rfl⟩)
  have hconstruct : step (.construct sock fd)
      { s with opened := insert (fd : ℤ) s.opened } = some (s.created fd sock) := by
    rw [step, if_pos ⟨Finset.mem_insert_self _ _, hfree⟩, State.init,
      if_pos ⟨hsock, Int.natCast_nonneg fd⟩]
    rfl
  rw [run, step, if_pos hfd, Option.bind_some, run, hconstruct, Option.bind_some]

theorem step_use_created (s : State O) (fd : ℤ) (sock : O) :
    step (.use sock) (s.created fd sock) = some (s.created fd sock) := by
  have hself : (s.created fd sock).sockfd sock = fd := Function.update_self _ _ _
  have hmem : sock ∈ (s.created fd sock).alive := Finset.mem_insert_self _ _
  rw [step, if_pos hmem, hself, State.call, if_neg]
  rintro ⟨-, hclosed⟩
  exact hclosed (Finset.mem_insert_self _ _)

/-- **A stream that is connected owns the descriptor**; the local `sock` is gone and has
closed nothing. -/
theorem connectInternal_owns {s : State O} (h : OwnerInv s) {fd : ℕ} {sock stream : O}
    (hfd : (fd : ℤ) ∉ s.opened) (hsock : sock ∉ s.alive) (hstream : stream ∉ s.alive)
    (hne : stream ≠ sock) (localAddr : Bool) :
    ∃ s', run step (connectInternal fd sock stream localAddr true false) s = some s' ∧
      s'.Owns stream fd ∧ s'.alive = insert stream s.alive ∧ s'.closed = s.closed := by
  have hself : (s.created fd sock).sockfd sock = fd := Function.update_self _ _ _
  have hmem : sock ∈ (s.created fd sock).alive := Finset.mem_insert_self _ _
  have hnew : stream ∉ (s.created fd sock).alive := by
    intro hin
    rcases Finset.mem_insert.mp hin with heq | hin
    · exact hne heq
    · exact hstream hin
  -- the state in which `sock_` has taken the descriptor over
  generalize hs₁ : (⟨insert stream (insert sock s.alive),
    Function.update (Function.update (Function.update s.sockfd sock fd) stream fd) sock (-1),
    insert (fd : ℤ) s.opened, s.handed ++ [(fd : ℤ)], s.closed, s.misused⟩ : State O) = s₁
  have hmove : step (.moveConstruct stream sock) (s.created fd sock) = some s₁ := by
    rw [step, if_pos hmem, State.moveConstruct, hself, State.init,
      if_pos ⟨hnew, Int.natCast_nonneg fd⟩, ← hs₁]
    rfl
  have hminus : s₁.sockfd sock = -1 := by
    rw [← hs₁]
    exact Function.update_self _ _ _
  have hdestroy : step (.destroy sock) s₁ = some { s₁ with alive := s₁.alive.erase sock } := by
    have hin : sock ∈ s₁.alive := by
      rw [← hs₁]
      exact Finset.mem_insert_of_mem (Finset.mem_insert_self _ _)
    rw [step, if_pos hin, State.destroy, if_neg (by rw [hminus]; decide)]
  refine ⟨{ s₁ with alive := s₁.alive.erase sock }, ?_, ⟨?_, ?_⟩, ?_, ?_⟩
  · cases localAddr
    · simp [connectInternal, run_created h hfd hsock, run, step_use_created, hmove, hdestroy]
    · simp [connectInternal, run_created h hfd hsock, run, step_use_created, hmove, hdestroy]
  · rw [← hs₁]
    exact Finset.mem_erase.mpr ⟨hne, Finset.mem_insert_self _ _⟩
  · rw [← hs₁]
    show Function.update (Function.update (Function.update s.sockfd sock fd) stream fd) sock (-1)
      stream = fd
    rw [Function.update_of_ne hne, Function.update_self]
  · rw [← hs₁]
    show (insert stream (insert sock s.alive)).erase sock = insert stream s.alive
    rw [Finset.erase_insert_of_ne hne, Finset.erase_insert hsock]
  · rw [← hs₁]

/-- **A connection that fails leaves nothing behind**: the local `sock` closes the
descriptor. -/
theorem connectInternal_closes {s : State O} (h : OwnerInv s) {fd : ℕ} {sock : O}
    (hfd : (fd : ℤ) ∉ s.opened) (hsock : sock ∉ s.alive) (stream : O)
    (localAddr connected self : Bool) (hfail : connected = false ∨ self = true) :
    ∃ s', run step (connectInternal fd sock stream localAddr connected self) s = some s' ∧
      s'.alive = s.alive ∧ s'.opened = s.opened ∧ s'.closed = s.closed ++ [(fd : ℤ)] := by
  have hself : (s.created fd sock).sockfd sock = fd := Function.update_self _ _ _
  have hmem : sock ∈ (s.created fd sock).alive := Finset.mem_insert_self _ _
  have hdestroy : step (.destroy sock) (s.created fd sock)
      = some ((s.created fd sock).destroy sock) := by
    rw [step, if_pos hmem]
  have hclose : (s.created fd sock).destroy sock
      = { (s.created fd sock).close fd with alive := (s.created fd sock).alive.erase sock } := by
    rw [State.destroy, hself, if_pos (Int.natCast_nonneg fd)]
  have hcall : (s.created fd sock).call fd = s.created fd sock := by
    rw [State.call, if_neg]
    rintro ⟨-, hclosed⟩
    exact hclosed (Finset.mem_insert_self _ _)
  refine ⟨(s.created fd sock).destroy sock, ?_, ?_, ?_, ?_⟩
  · rcases hfail with rfl | rfl
    · cases localAddr <;>
        simp [connectInternal, run_created h hfd hsock, run, step_use_created, hdestroy]
    · cases localAddr <;> cases connected <;>
        simp [connectInternal, run_created h hfd hsock, run, step_use_created, hdestroy]
  · rw [hclose]
    exact Finset.erase_insert hsock
  · rw [hclose, State.close, hcall]
    exact Finset.erase_insert hfd
  · rw [hclose, State.close, hcall]
    rfl

end TtcpSocket
