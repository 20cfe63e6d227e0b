import Mathlib.Data.List.Basic

/- `package_task_as_c_callback` and `c_callback` (`part_005:113-277`, `utils.hpp:89-132`).
Undefined behaviour, a use of a null or freed node, is an error. -/

namespace Schedulers

namespace CCallback

inductive Strategy
  | allocated
  | elided
  | reference
  deriving DecidableEq, Repr

/-- The overload `package_task_as_c_callback(alloc, f)` reaches (`part_005:113-131`). -/
def selectStrategy (size ptrSize : Nat) (triviallyCopyable : Bool) : Strategy :=
  if decide (size ≤ ptrSize) && triviallyCopyable then .elided else .allocated

structure Handle where
  alive : Bool
  data : Bool
  deriving DecidableEq, Repr

structure Pair where
  data : Bool
  called : Bool
  deriving DecidableEq, Repr

structure State where
  strategy : Strategy
  -- `DataOwner` has `operator=(&&)`: `unique_ptr<node_t>` with `std::allocator` (`utils.hpp:128-132`)
  assignable : Bool
  handles : List Handle
  pairs : List Pair
  node : Bool
  allocations : Nat
  freedByDestructor : Nat
  freedByAssignment : Nat
  freedByCallback : Nat
  invocations : Nat
  callbacks : Nat
  thrown : Nat
  deriving DecidableEq, Repr

inductive Op
  | moveConstruct (src : Nat)
  | moveAssign (dst src : Nat)
  | get (h : Nat)
  | release (h : Nat)
  | call (h : Nat) (throws : Bool)
  | destroy (h : Nat)
  | callback (k : Nat) (throws : Bool)
  deriving DecidableEq, Repr

namespace State

/-- `package_task_as_c_callback(alloc, f)`; `stdAlloc` is whether `Alloc` is `std::allocator`. -/
def packageWith (st : Strategy) (stdAlloc : Bool) : State where
  strategy := st
  assignable := st != .allocated || stdAlloc
  handles := [⟨true, true⟩]
  pairs := []
  node := st == .allocated
  allocations := if st = .allocated then 1 else 0
  freedByDestructor := 0
  freedByAssignment := 0
  freedByCallback := 0
  invocations := 0
  callbacks := 0
  thrown := 0

/-- `package_task_as_c_callback(f)`, which passes `std::allocator<char>{}`. -/
def package (st : Strategy) : State := packageWith st true

/-- `_data.release()`: a `unique_ptr` gives its pointer up, a `data_t` keeps it. -/
def giveUp (s : State) (h : Nat) : State :=
  if s.strategy = .allocated then { s with handles := s.handles.set h ⟨true, false⟩ } else s

/-- `f_ptr(data)`; for the allocated strategy `~deleter` frees the node. -/
def runCallback (s : State) (data throws : Bool) : Except String State :=
  let s := { s with callbacks := s.callbacks + 1, thrown := s.thrown + if throws then 1 else 0 }
  match s.strategy with
  | .allocated =>
    if !data then .error "null node"
    else if !s.node then .error "freed node"
    else .ok { s with invocations := s.invocations + 1, node := false,
                      freedByCallback := s.freedByCallback + 1 }
  | _ => .ok { s with invocations := s.invocations + 1 }

/-- `_data = move(other._data)`: a `unique_ptr` deletes the node it held. -/
def assignData (s : State) (h : Nat) (d : Bool) : Except String State :=
  let s' := { s with handles := s.handles.set h ⟨true, d⟩ }
  if s.strategy = .allocated ∧ (s.handles[h]?).any Handle.data then
    if s.node then .ok { s' with node := false, freedByAssignment := s.freedByAssignment + 1 }
    else .error "freed node"
  else .ok s'

def step (s : State) : Op → Option (Except String State)
  | .moveConstruct src =>
    match s.handles[src]? with
    | some ⟨true, d⟩ => some (.ok { s.giveUp src with handles := (s.giveUp src).handles ++ [⟨true, d⟩] })
    | _ => none
  | .moveAssign dst src =>
    match s.handles[dst]?, s.handles[src]? with
    | some ⟨true, _⟩, some ⟨true, d⟩ =>
      if s.assignable then some ((s.giveUp src).assignData dst d) else none
    | _, _ => none
  | .get h =>
    match s.handles[h]? with
    | some ⟨true, _⟩ => some (.ok s)
    | _ => none
  | .release h =>
    match s.handles[h]? with
    | some ⟨true, d⟩ => some (.ok { s.giveUp h with pairs := s.pairs ++ [⟨d, false⟩] })
    | _ => none
  | .call h throws =>
    match s.handles[h]? with
    | some ⟨true, d⟩ => some ((s.giveUp h).runCallback d throws)
    | _ => none
  | .destroy h =>
    match s.handles[h]? with
    | some ⟨true, d⟩ =>
      let s' := { s with handles := s.handles.set h ⟨false, d⟩ }
      some <| if s.strategy = .allocated ∧ d then
          if s.node then .ok { s' with node := false, freedByDestructor := s.freedByDestructor + 1 }
          else .error "freed node"
        else .ok s'
    | _ => none
  | .callback k throws =>
    match s.pairs[k]? with
    | some p => some ({ s with pairs := s.pairs.set k { p with called := true } }.runCallback p.data throws)
    | none => none

def run (s : State) : List Op → Option State
  | [] => some s
  | op :: ops =>
    match s.step op with
    | some (.ok t) => t.run ops
    | _ => none

theorem run_cons {s t : State} {op : Op} {ops : List Op} (h : s.run (op :: ops) = some t) :
    ∃ u, s.step op = some (.ok u) ∧ u.run ops = some t := by
  simp only [run] at h
  split at h
  · exact ⟨_, ‹_›, h⟩
  · cases h

theorem step_ok {s t : State} {op : Op} (hop : s.step op = some (.ok t)) :
    match op with
    | .moveConstruct src => ∃ d, s.handles[src]? = some ⟨true, d⟩ ∧
        t = { s.giveUp src with handles := (s.giveUp src).handles ++ [⟨true, d⟩] }
    | .moveAssign dst src => (∃ d', s.handles[dst]? = some ⟨true, d'⟩) ∧
        ∃ d, s.handles[src]? = some ⟨true, d⟩ ∧ s.assignable = true ∧
          (s.giveUp src).assignData dst d = .ok t
    | .get i => (∃ d, s.handles[i]? = some ⟨true, d⟩) ∧ t = s
    | .release i => ∃ d, s.handles[i]? = some ⟨true, d⟩ ∧
        t = { s.giveUp i with pairs := s.pairs ++ [⟨d, false⟩] }
    | .call i throws => ∃ d, s.handles[i]? = some ⟨true, d⟩ ∧
        (s.giveUp i).runCallback d throws = .ok t
    | .destroy i => ∃ d, s.handles[i]? = some ⟨true, d⟩ ∧
        (if s.strategy = .allocated ∧ d then
          if s.node then
            Except.ok { s with
              handles := s.handles.set i ⟨false, d⟩, node := false,
              freedByDestructor := s.freedByDestructor + 1 }
          else .error "freed node"
        else .ok { s with handles := s.handles.set i ⟨false, d⟩ }) = .ok t
    | .callback k throws => ∃ p, s.pairs[k]? = some p ∧
        { s with pairs := s.pairs.set k { p with called := true } }.runCallback p.data throws =
          .ok t := by
  cases op with
  | moveAssign dst src =>
    simp only [State.step] at hop
    split at hop
    · split at hop
      · exact ⟨⟨_, ‹_›⟩, _, ‹_›, ‹_›, Option.some.inj hop⟩
      · cases hop
    · cases hop
  | _ =>
    simp only [State.step] at hop
    split at hop <;> first
      | exact ⟨_, ‹_›, (Except.ok.inj (Option.some.inj hop)).symm⟩
      | exact ⟨⟨_, ‹_›⟩, (Except.ok.inj (Option.some.inj hop)).symm⟩
      | exact ⟨_, ‹_›, Option.some.inj hop⟩
      | cases hop

theorem runCallback_allocated {u t : State} {d throws : Bool} (hu : u.strategy = .allocated)
    (h : u.runCallback d throws = .ok t) :
    d = true ∧ u.node = true ∧ t = { u with
      callbacks := u.callbacks + 1, thrown := u.thrown + (if throws then 1 else 0),
      invocations := u.invocations + 1, node := false,
      freedByCallback := u.freedByCallback + 1 } := by
  unfold State.runCallback at h
  cases d <;> cases hn : u.node <;> simp only [hu, hn, Bool.not_false, Bool.not_true,
    Bool.false_eq_true, ↓reduceIte, reduceCtorEq, Except.ok.injEq] at h
  exact ⟨rfl, rfl, hu ▸ h.symm⟩

/-! ### Who owns the node -/

def handleOwners (l : List Handle) : Nat := l.countP fun x => x.alive && x.data

def pairOwners (l : List Pair) : Nat := l.countP fun p => p.data && !p.called

/-- The allocated strategy: the node has one owner while it exists and is freed once. -/
structure AllocInv (stdAlloc : Bool) (s : State) : Prop where
  strategy : s.strategy = .allocated
  assignable : s.assignable = stdAlloc
  owned : handleOwners s.handles + pairOwners s.pairs = if s.node then 1 else 0
  called : ∀ p ∈ s.pairs, p.data = true → p.called = true → s.node = false
  allocations : s.allocations = 1
  freed : s.freedByDestructor + s.freedByAssignment + s.freedByCallback +
    (if s.node then 1 else 0) = 1
  assigned : stdAlloc = false → s.freedByAssignment = 0
  invoked : s.freedByCallback = s.invocations

structure PlainInv (s : State) : Prop where
  strategy : s.strategy ≠ .allocated
  node : s.node = false
  allocations : s.allocations = 0
  freed : s.freedByDestructor + s.freedByAssignment + s.freedByCallback = 0
  invoked : s.invocations = s.callbacks

end State

open State

theorem countP_set_add {α : Type} {p : α → Bool} {l : List α} {i : Nat} {x : α}
    (hx : l[i]? = some x) (a : α) :
    (l.set i a).countP p + (if p x then 1 else 0) = l.countP p + (if p a then 1 else 0) := by
  obtain ⟨hi, rfl⟩ := List.getElem?_eq_some_iff.mp hx
  have := List.boole_getElem_le_countP p l i hi
  rw [List.countP_set p l i a hi]
  omega

@[simp] theorem handleOwners_append (l : List Handle) (x : Handle) :
    handleOwners (l ++ [x]) = handleOwners l + if x.alive && x.data then 1 else 0 := by
  simp only [handleOwners, List.countP_append, List.countP_cons, List.countP_nil, Nat.zero_add]

@[simp] theorem pairOwners_append (l : List Pair) (p : Pair) :
    pairOwners (l ++ [p]) = pairOwners l + if p.data && !p.called then 1 else 0 := by
  simp only [pairOwners, List.countP_append, List.countP_cons, List.countP_nil, Nat.zero_add]

theorem handleOwners_set {l : List Handle} {i : Nat} {x : Handle} (hx : l[i]? = some x)
    (y : Handle) : handleOwners (l.set i y) + (if x.alive && x.data then 1 else 0) =
      handleOwners l + if y.alive && y.data then 1 else 0 :=
  countP_set_add hx y

theorem pairOwners_set {l : List Pair} {i : Nat} {p : Pair} (hp : l[i]? = some p) (q : Pair) :
    pairOwners (l.set i q) + (if p.data && !p.called then 1 else 0) =
      pairOwners l + if q.data && !q.called then 1 else 0 :=
  countP_set_add hp q

theorem getElem?_giveUp_target {l : List Handle} {dst src : Nat} {dd d : Bool}
    (hd : l[dst]? = some ⟨true, dd⟩) (hs : l[src]? = some ⟨true, d⟩) :
    ∃ d', (l.set src ⟨true, false⟩)[dst]? = some ⟨true, d'⟩ := by
  by_cases h : src = dst
  · subst h
    exact ⟨false, List.getElem?_set_self (List.getElem?_eq_some_iff.mp hs).1⟩
  · exact ⟨dd, by rw [List.getElem?_set_ne h, hd]⟩

namespace State

variable {s t : State} {a : Bool}

theorem AllocInv.giveUp (hi : s.AllocInv a) (h : Nat) :
    s.giveUp h = { s with handles := s.handles.set h ⟨true, false⟩ } := by
  simp [State.giveUp, hi.strategy]

theorem AllocInv.step (hi : s.AllocInv a) {op : Op} (h : s.step op = some (.ok t)) :
    t.AllocInv a := by
  have ho := hi.owned
  have hf := hi.freed
  cases op with
  | moveConstruct src =>
    obtain ⟨d, hx, rfl⟩ := step_ok h
    have := handleOwners_set hx ⟨true, false⟩
    rw [hi.giveUp]
    refine ⟨hi.strategy, hi.assignable, ?_, hi.called, hi.allocations, hi.freed, hi.assigned,
      hi.invoked⟩
    simp only [handleOwners_append, Bool.true_and, Bool.and_false] at this ⊢
    cases d <;> cases hn : s.node <;>
      simp only [hn, Bool.false_eq_true, ↓reduceIte] at this ho ⊢ <;> omega
  | moveAssign dst src =>
    obtain ⟨⟨dd, hxd⟩, d, hxs, hass, ha⟩ := step_ok h
    obtain ⟨d', hxd'⟩ := getElem?_giveUp_target hxd hxs
    -- the source gives its data up, then the target drops what it held
    have hu := handleOwners_set hxs ⟨true, false⟩
    have ht := handleOwners_set hxd' ⟨true, d⟩
    rw [hi.giveUp] at ha
    simp only [assignData, hi.strategy, hxd', Option.any_some, true_and] at ha
    cases d' <;> cases hn : s.node <;> simp only [hn, Bool.false_eq_true, ↓reduceIte,
      reduceCtorEq, Except.ok.injEq] at ha <;> subst ha <;>
      simp only [Bool.true_and, Bool.and_false, Bool.false_eq_true, ↓reduceIte, hn] at hu ht ho hf
    · exact ⟨rfl, hi.assignable, by simp only [Bool.false_eq_true, ↓reduceIte]; omega,
        fun _ _ _ _ => rfl, hi.allocations, by simp only [Bool.false_eq_true, ↓reduceIte]; omega,
        hi.assigned, hi.invoked⟩
    · exact ⟨rfl, hi.assignable, by simp only [↓reduceIte]; omega,
        fun p hp h1 h2 => absurd (hi.called p hp h1 h2) (by simp [hn]), hi.allocations,
        by simp only [↓reduceIte]; omega, hi.assigned, hi.invoked⟩
    · exact ⟨rfl, hi.assignable, by simp only [Bool.false_eq_true, ↓reduceIte]; omega,
        fun _ _ _ _ => rfl, hi.allocations, by simp only [Bool.false_eq_true, ↓reduceIte]; omega,
        fun ha => by simp [← hi.assignable, hass] at ha, hi.invoked⟩
  | get i => exact (step_ok h).2 ▸ hi
  | release i =>
    obtain ⟨d, hx, rfl⟩ := step_ok h
    have := handleOwners_set hx ⟨true, false⟩
    rw [hi.giveUp]
    refine ⟨hi.strategy, hi.assignable, ?_, fun p hp => ?_, hi.allocations, hi.freed,
      hi.assigned, hi.invoked⟩
    · simp only [pairOwners_append, Bool.true_and, Bool.and_false, Bool.not_false,
        Bool.and_true] at this ⊢
      cases d <;> cases hn : s.node <;>
        simp only [hn, Bool.false_eq_true, ↓reduceIte] at this ho ⊢ <;> omega
    · rcases List.mem_append.mp hp with hp | hp
      · exact hi.called p hp
      · simp only [List.mem_singleton] at hp; simp [hp]
  | call i throws =>
    obtain ⟨d, hx, hc⟩ := step_ok h
    rw [hi.giveUp] at hc
    obtain ⟨rfl, hn, rfl⟩ := runCallback_allocated (by exact hi.strategy) hc
    have := handleOwners_set hx ⟨true, false⟩
    simp only at hn
    simp only [hn, Bool.true_and, Bool.and_false, Bool.false_eq_true, ↓reduceIte] at this ho hf
    exact ⟨hi.strategy, hi.assignable, by simp only [Bool.false_eq_true, ↓reduceIte]; omega,
      by simp, hi.allocations, by simp only [Bool.false_eq_true, ↓reduceIte]; omega, hi.assigned,
      by simp [hi.invoked]⟩
  | destroy i =>
    obtain ⟨d, hx, hd⟩ := step_ok h
    have := handleOwners_set hx ⟨false, d⟩
    rcases d with _ | _
    · simp only [hi.strategy, Bool.false_eq_true, and_false, ↓reduceIte, Except.ok.injEq] at hd
      subst hd
      simp only [Bool.and_false, Bool.false_and, Bool.false_eq_true, ↓reduceIte,
        Nat.add_zero] at this
      exact ⟨rfl, hi.assignable, by rw [this]; exact ho, hi.called, hi.allocations, hi.freed,
        hi.assigned, hi.invoked⟩
    · rcases hn : s.node with _ | _ <;> simp [hi.strategy, hn] at hd
      subst hd
      simp only [hn, Bool.true_and, Bool.false_and, Bool.false_eq_true, ↓reduceIte] at this ho hf
      exact ⟨rfl, hi.assignable, by simp only [Bool.false_eq_true, ↓reduceIte]; omega, by simp,
        hi.allocations, by simp only [Bool.false_eq_true, ↓reduceIte]; omega, hi.assigned,
        hi.invoked⟩
  | callback k throws =>
    obtain ⟨⟨pd, pc⟩, hp, hc⟩ := step_ok h
    obtain ⟨rfl, hn, rfl⟩ := runCallback_allocated (by exact hi.strategy) hc
    simp only at hn
    obtain rfl : pc = false := by
      by_contra hc
      simpa [hn] using hi.called _ (List.getElem?_mem hp) rfl (by simpa using hc)
    have := pairOwners_set hp ⟨true, true⟩
    simp only [hn, Bool.not_false, Bool.and_true, Bool.not_true, Bool.and_false, Bool.false_eq_true,
      ↓reduceIte] at this ho hf
    exact ⟨hi.strategy, hi.assignable, by simp only [Bool.false_eq_true, ↓reduceIte]; omega,
      by simp, hi.allocations, by simp only [Bool.false_eq_true, ↓reduceIte]; omega, hi.assigned,
      by simp [hi.invoked]⟩

theorem PlainInv.runCallback {u : State} (hu : u.PlainInv) {d throws : Bool}
    (h : u.runCallback d throws = .ok t) : t.PlainInv := by
  unfold State.runCallback at h
  rcases hs : u.strategy with _ | _ | _
  · exact absurd hs hu.strategy
  all_goals
    simp only [hs, Except.ok.injEq] at h
    subst h
    exact ⟨by simp [hs], hu.node, hu.allocations, hu.freed, by simp [hu.invoked]⟩

theorem PlainInv.step (hi : s.PlainInv) {op : Op} (h : s.step op = some (.ok t)) : t.PlainInv := by
  have hg : ∀ i, s.giveUp i = s := fun _ => by simp [State.giveUp, hi.strategy]
  have hsame : ∀ u : State, u.strategy = s.strategy → u.node = s.node →
      u.allocations = s.allocations → u.freedByDestructor = s.freedByDestructor →
      u.freedByAssignment = s.freedByAssignment → u.freedByCallback = s.freedByCallback →
      u.invocations = s.invocations → u.callbacks = s.callbacks → u.PlainInv :=
    fun u h1 h2 h3 h4 h5 h6 h7 h8 =>
      ⟨h1 ▸ hi.strategy, h2 ▸ hi.node, h3 ▸ hi.allocations, h4 ▸ h5 ▸ h6 ▸ hi.freed,
        h7 ▸ h8 ▸ hi.invoked⟩
  cases op with
  | moveConstruct src =>
    obtain ⟨_, _, rfl⟩ := step_ok h
    rw [hg]; exact hsame _ rfl rfl rfl rfl rfl rfl rfl rfl
  | moveAssign dst src =>
    obtain ⟨-, _, -, -, ha⟩ := step_ok h
    simp only [hg, assignData, hi.strategy, false_and, ↓reduceIte, Except.ok.injEq] at ha
    exact ha ▸ hsame _ rfl rfl rfl rfl rfl rfl rfl rfl
  | get i => exact (step_ok h).2 ▸ hi
  | release i =>
    obtain ⟨_, _, rfl⟩ := step_ok h
    rw [hg]; exact hsame _ rfl rfl rfl rfl rfl rfl rfl rfl
  | call i throws =>
    obtain ⟨_, _, hc⟩ := step_ok h
    exact hi.runCallback (hg i ▸ hc)
  | destroy i =>
    obtain ⟨_, _, hd⟩ := step_ok h
    simp only [hi.strategy, false_and, ↓reduceIte, Except.ok.injEq] at hd
    exact hd ▸ hsame _ rfl rfl rfl rfl rfl rfl rfl rfl
  | callback k throws =>
    obtain ⟨_, _, hc⟩ := step_ok h
    exact PlainInv.runCallback (by exact hsame _ rfl rfl rfl rfl rfl rfl rfl rfl) hc

theorem AllocInv.run (hi : s.AllocInv a) {ops : List Op} (h : s.run ops = some t) :
    t.AllocInv a := by
  induction ops generalizing s with
  | nil => cases h; exact hi
  | cons op ops ih =>
    obtain ⟨u, hu, h⟩ := run_cons h
    exact ih (hi.step hu) h

theorem PlainInv.run (hi : s.PlainInv) {ops : List Op} (h : s.run ops = some t) : t.PlainInv := by
  induction ops generalizing s with
  | nil => cases h; exact hi
  | cons op ops ih =>
    obtain ⟨u, hu, h⟩ := run_cons h
    exact ih (hi.step hu) h

theorem packageWith_allocInv (stdAlloc : Bool) :
    (packageWith .allocated stdAlloc).AllocInv stdAlloc :=
  ⟨rfl, by simp [packageWith], rfl, by simp [packageWith], rfl, rfl, fun _ => rfl, rfl⟩

theorem packageWith_plainInv {st : Strategy} (hst : st ≠ .allocated) (stdAlloc : Bool) :
    (packageWith st stdAlloc).PlainInv :=
  ⟨hst, by simpa [packageWith] using hst, by simp [packageWith, hst], rfl, rfl⟩

theorem package_plainInv {st : Strategy} (hst : st ≠ .allocated) : (package st).PlainInv :=
  packageWith_plainInv hst true

end State

open State

theorem c_callback_lifecycle (st : Strategy) (stdAlloc : Bool) {ops : List Op} {s : State}
    (h : (packageWith st stdAlloc).run ops = some s) :
    (st = .allocated →
      s.allocations = 1 ∧ s.invocations ≤ 1 ∧ s.freedByCallback = s.invocations ∧
        s.freedByDestructor + s.freedByAssignment + s.freedByCallback +
          (if s.node then 1 else 0) = 1 ∧
        (stdAlloc = false → s.freedByAssignment = 0) ∧
        ((∀ x ∈ s.handles, x.alive = false) →
          (s.node = true ↔ ∃ p ∈ s.pairs, p.data = true ∧ p.called = false))) ∧
    (st ≠ .allocated →
      s.allocations = 0 ∧ s.freedByDestructor + s.freedByAssignment + s.freedByCallback = 0 ∧
        s.invocations = s.callbacks) := by
  refine ⟨fun hst => ?_, fun hst => ?_⟩
  · subst hst
    have hi := (packageWith_allocInv stdAlloc).run h
    have hf := hi.freed
    have hv := hi.invoked
    refine ⟨hi.allocations, by split at hf <;> omega, hv, hf, hi.assigned, fun hdead => ?_⟩
    have h0 : handleOwners s.handles = 0 :=
      List.countP_eq_zero.mpr fun x hx => by simp [hdead x hx]
    have ho := hi.owned
    rw [h0, Nat.zero_add] at ho
    rcases hn : s.node
    · simp only [hn, Bool.false_eq_true, ↓reduceIte, false_iff, not_exists, not_and] at ho ⊢
      intro p hp hd hc
      have : 0 < pairOwners s.pairs := List.countP_pos_iff.mpr ⟨p, hp, by simp [hd, hc]⟩
      omega
    · simp only [hn, ↓reduceIte, true_iff] at ho ⊢
      obtain ⟨p, hp, hpd⟩ := List.countP_pos_iff.mp (show 0 < pairOwners s.pairs by omega)
      exact ⟨p, hp, by simpa using hpd⟩
  · have hi := (packageWith_plainInv hst stdAlloc).run h
    exact ⟨hi.allocations, hi.freed, hi.invoked⟩

theorem c_callback_lifecycle_assigned :
    ∃ s, (packageWith .allocated true).run
        [.moveConstruct 0, .moveAssign 1 0, .destroy 0, .destroy 1] = some s ∧
      s.freedByAssignment = 1 ∧
      ((Strategy.allocated = .allocated →
        s.allocations = 1 ∧ s.invocations ≤ 1 ∧ s.freedByCallback = s.invocations ∧
          s.freedByDestructor + s.freedByAssignment + s.freedByCallback +
            (if s.node then 1 else 0) = 1 ∧
          (true = false → s.freedByAssignment = 0) ∧
          ((∀ x ∈ s.handles, x.alive = false) →
            (s.node = true ↔ ∃ p ∈ s.pairs, p.data = true ∧ p.called = false))) ∧
      (Strategy.allocated ≠ .allocated →
        s.allocations = 0 ∧ s.freedByDestructor + s.freedByAssignment + s.freedByCallback = 0 ∧
          s.invocations = s.callbacks)) := by
  have h := show (packageWith .allocated true).run
    [.moveConstruct 0, .moveAssign 1 0, .destroy 0, .destroy 1] = some _ from rfl
  exact ⟨_, h, rfl, c_callback_lifecycle .allocated true h⟩

theorem call_twice_invokes_twice :
    (∃ s, (package .elided).run [.call 0 false, .call 0 false] = some s ∧ s.invocations = 2) ∧
      (package .allocated).run [.call 0 false, .call 0 false] = none :=
  ⟨⟨_, rfl, rfl⟩, rfl⟩

end CCallback

end Schedulers
