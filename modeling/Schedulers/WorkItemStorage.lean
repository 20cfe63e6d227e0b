import Mathlib.Algebra.BigOperators.Group.Finset

/- `detail::work_item` (`utils.hpp:138-342`). Memory is what lives where: each item's
`_target`, the node at each buffer and block, the allocator's counters and the live `F`s. -/

namespace Schedulers

namespace WorkItemStorage

/-- What `work_item` reads of a callable type `F` with an allocator type `Alloc`. -/
structure Callable where
  embeddedSize : Nat
  nodeSize : Nat
  nothrowMove : Bool
  deriving DecidableEq, Repr

/-- `can_embed` in `emplace`. -/
def canEmbed (bufferSize : Nat) (c : Callable) : Bool :=
  decide (c.embeddedSize ≤ bufferSize) && c.nothrowMove

/-- `sizeof(std::aligned_storage_t<len>)` for an alignment `align`. -/
def alignedStorageSize (len align : Nat) : Nat := (len + align - 1) / align * align

inductive Ptr
  | buffer (i : Nat)
  | block (b : Nat)
  deriving DecidableEq, Repr

inductive NodeKind
  | withoutAlloc
  | withAlloc
  deriving DecidableEq, Repr

structure Node where
  kind : NodeKind
  f : Nat
  deriving DecidableEq, Repr

structure Memory where
  alive : Nat → Bool
  target : Nat → Option Ptr
  node : Ptr → Option Node
  items : Nat
  blocks : Nat
  bytes : Nat
  allocations : Nat
  liveF : Nat
  invoked : List Nat

inductive Op
  | construct (f : Nat)
  | default
  | moveConstruct (src : Nat)
  | moveAssign (dst src : Nat)
  | invoke (i : Nat)
  | destroy (i : Nat)
  deriving DecidableEq, Repr

def Op.isInvoke : Op → Bool
  | .invoke _ => true
  | _ => false

namespace Memory

def empty : Memory :=
  ⟨fun _ => false, fun _ => none, fun _ => none, 0, 0, 0, 0, 0, []⟩

def newItem (m : Memory) : Memory :=
  { m with alive := Function.update m.alive m.items true,
           target := Function.update m.target m.items none, items := m.items + 1 }

/-- `is_embedded()`: `_target` points at the item's own `_buffer`. -/
def isEmbedded (m : Memory) (i : Nat) : Bool := m.target i == some (.buffer i)

/-- `emplace` (`utils.hpp:326-342`). -/
def emplace (bufferSize : Nat) (c : Callable) (m : Memory) (i f : Nat) : Memory :=
  if canEmbed bufferSize c then
    { m with node := Function.update m.node (.buffer i) (some ⟨.withoutAlloc, f⟩),
             target := Function.update m.target i (some (.buffer i)), liveF := m.liveF + 1 }
  else
    { m with node := Function.update m.node (.block m.blocks) (some ⟨.withAlloc, f⟩),
             target := Function.update m.target i (some (.block m.blocks)),
             blocks := m.blocks + 1, bytes := m.bytes + c.nodeSize,
             allocations := m.allocations + 1, liveF := m.liveF + 1 }

@[simp] theorem emplace_invoked (bufferSize : Nat) (c : Callable) (m : Memory) (i f : Nat) :
    (m.emplace bufferSize c i f).invoked = m.invoked := by
  unfold emplace; split <;> rfl

@[simp] theorem emplace_items (bufferSize : Nat) (c : Callable) (m : Memory) (i f : Nat) :
    (m.emplace bufferSize c i f).items = m.items := by
  unfold emplace; split <;> rfl

/-- `_target->move_and_destroy(as_base(&_buffer))`. -/
def moveAndDestroy (m : Memory) (p : Ptr) (dst : Nat) : Except String Memory :=
  match m.node p with
  | none => .error "dangling _target"
  | some ⟨.withAlloc, _⟩ => .error "must not be called"
  | some ⟨.withoutAlloc, f⟩ =>
    .ok { m with node := Function.update (Function.update m.node (.buffer dst)
                          (some ⟨.withoutAlloc, f⟩)) p none }

/-- `work_item::operator=(work_item&& other)` (`utils.hpp:261-277`). -/
def moveAssign (m : Memory) (dst src : Nat) : Except String Memory :=
  if m.target dst ≠ none then .error "must move to empty work_item"
  else
    match m.target src with
    | none => .error "moved from work_item twice"
    | some p =>
      if m.isEmbedded src then
        (m.moveAndDestroy p dst).map fun m =>
          { m with target := Function.update (Function.update m.target dst (some (.buffer dst)))
                               src none }
      else .ok { m with target := Function.update (Function.update m.target dst (some p)) src none }

/-- `_target->destroy()`. -/
def destroyNode (m : Memory) (p : Ptr) : Except String Memory :=
  match m.node p with
  | none => .error "dangling _target"
  | some _ => .ok { m with node := Function.update m.node p none, liveF := m.liveF - 1 }

/-- `_target->destroy_dealloc()`. -/
def destroyDealloc (c : Callable) (m : Memory) (p : Ptr) : Except String Memory :=
  match m.node p with
  | none => .error "dangling _target"
  | some ⟨.withoutAlloc, _⟩ => .error "must not be called"
  | some ⟨.withAlloc, _⟩ =>
    .ok { m with node := Function.update m.node p none, liveF := m.liveF - 1,
                 bytes := m.bytes - c.nodeSize }

/-- `~work_item()` (`utils.hpp:279-292`). -/
def destroy (c : Callable) (m : Memory) (i : Nat) : Except String Memory :=
  let gone (m : Memory) : Memory :=
    { m with alive := Function.update m.alive i false, target := Function.update m.target i none }
  match m.target i with
  | none => .ok (gone m)
  | some p => (if m.isEmbedded i then m.destroyNode p else m.destroyDealloc c p).map gone

/-- `operator()() &&`: `move(*_target)()`. -/
def invoke (m : Memory) (i : Nat) : Except String Memory :=
  match m.target i with
  | none => .error "null _target"
  | some p =>
    match m.node p with
    | none => .error "dangling _target"
    | some n => .ok { m with invoked := m.invoked ++ [n.f] }

def step (bufferSize : Nat) (c : Callable) (m : Memory) : Op → Option (Except String Memory)
  | .construct f => some (.ok (m.newItem.emplace bufferSize c m.items f))
  | .default => some (.ok m.newItem)
  | .moveConstruct src => if m.alive src then some (m.newItem.moveAssign m.items src) else none
  | .moveAssign dst src => if m.alive dst ∧ m.alive src then some (m.moveAssign dst src) else none
  | .invoke i => if m.alive i then some (m.invoke i) else none
  | .destroy i => if m.alive i then some (m.destroy c i) else none

def run (bufferSize : Nat) (c : Callable) (m : Memory) : List Op → Option Memory
  | [] => some m
  | op :: ops =>
    match m.step bufferSize c op with
    | some (.ok m') => m'.run bufferSize c ops
    | _ => none

theorem run_cons {bufferSize : Nat} {c : Callable} {m m' : Memory} {op : Op} {ops : List Op}
    (h : m.run bufferSize c (op :: ops) = some m') :
    ∃ m₁, m.step bufferSize c op = some (.ok m₁) ∧ m₁.run bufferSize c ops = some m' := by
  simp only [run] at h
  split at h
  · exact ⟨_, ‹_›, h⟩
  · cases h

/-! ### What `operator=` and `~work_item` do -/

def setTarget (m : Memory) (i : Nat) (v : Option Ptr) : Memory :=
  { m with target := Function.update m.target i v }

def setNode (m : Memory) (p : Ptr) (v : Option Node) : Memory :=
  { m with node := Function.update m.node p v }

variable {m m' : Memory} {dst src : Nat}

theorem moveAssign_eq_ok (h : m.moveAssign dst src = .ok m') :
    m.target dst = none ∧ ∃ p, m.target src = some p ∧ dst ≠ src ∧
      ((∃ f, p = .buffer src ∧ m.node p = some ⟨.withoutAlloc, f⟩ ∧
          m' = (((m.setTarget src none).setNode p none).setNode (.buffer dst)
            (some ⟨.withoutAlloc, f⟩)).setTarget dst (some (.buffer dst))) ∨
        (m.isEmbedded src = false ∧ m' = (m.setTarget src none).setTarget dst (some p))) := by
  unfold moveAssign at h
  split at h
  · cases h
  rename_i hdn
  rw [ne_eq, not_not] at hdn
  split at h
  · cases h
  rename_i p hp
  have hne : dst ≠ src := by rintro rfl; simp [hdn] at hp
  refine ⟨hdn, p, hp, hne, ?_⟩
  split at h
  · rename_i he
    obtain rfl : p = .buffer src := by simpa [isEmbedded, hp] using he
    unfold moveAndDestroy at h
    split at h
    · cases h
    · cases h
    · rename_i f hf
      simp only [Except.map, Except.ok.injEq] at h
      subst h
      refine .inl ⟨f, rfl, hf, ?_⟩
      simp only [setTarget, setNode, Function.update_comm hne _ _ m.target,
        Function.update_comm (show Ptr.buffer dst ≠ .buffer src by simpa using hne) _ _ m.node]
  · rename_i he
    simp only [Except.ok.injEq] at h
    subst h
    exact .inr ⟨by simpa using he, by simp only [setTarget, Function.update_comm hne _ _ m.target]⟩

theorem moveAssign_eq_error {e : String} (h : m.moveAssign dst src = .error e) :
    e = "must move to empty work_item" ∨ e = "moved from work_item twice" ∨
      ∃ p, m.target src = some p ∧ m.isEmbedded src = true ∧
        ∀ f, m.node p ≠ some ⟨.withoutAlloc, f⟩ := by
  unfold moveAssign at h
  split at h
  · exact .inl (Except.error.inj h).symm
  split at h
  · exact .inr (.inl (Except.error.inj h).symm)
  rename_i p hp
  split at h
  · exact .inr (.inr ⟨p, hp, ‹_›, fun f hf => by simp [moveAndDestroy, hf, Except.map] at h⟩)
  · cases h

theorem destroy_eq_ok {c : Callable} {i : Nat} (h : m.destroy c i = .ok m') :
    m'.alive = Function.update m.alive i false ∧ m'.target = Function.update m.target i none ∧
      m'.items = m.items ∧ m'.liveF = m.liveF - (m.target i).isSome.toNat := by
  unfold destroy at h
  split at h
  · cases h
    simp_all
  rename_i p hp
  split at h
  · unfold destroyNode at h
    split at h
    · cases h
    · cases h
      simp [hp]
  · unfold destroyDealloc at h
    split at h
    · cases h
    · cases h
    · cases h
      simp [hp]

end Memory

/-! ### One callable's chain of items -/

section Chain

variable {bufferSize : Nat} {c : Callable} {f : Nat}

def homePtr (bufferSize : Nat) (c : Callable) (i : Nat) : Ptr :=
  if canEmbed bufferSize c then .buffer i else .block 0

def homeKind (bufferSize : Nat) (c : Callable) : NodeKind :=
  if canEmbed bufferSize c then .withoutAlloc else .withAlloc

/-- The item holding the callable after `ops`: a move hands it on, destroying the holder
ends it. `next` is the next new item's address. -/
def lifecycleHolder (holder : Option Nat) (next : Nat) : List Op → Option Nat
  | [] => holder
  | .construct _ :: ops | .default :: ops => lifecycleHolder holder (next + 1) ops
  | .moveConstruct _ :: ops => lifecycleHolder (some next) (next + 1) ops
  | .moveAssign dst _ :: ops => lifecycleHolder (some dst) next ops
  | .invoke _ :: ops => lifecycleHolder holder next ops
  | .destroy i :: ops => lifecycleHolder (if holder = some i then none else holder) next ops

/-- Only `holder` points anywhere, at the one node holding `f`. -/
structure Chain (bufferSize : Nat) (c : Callable) (f : Nat) (m : Memory) (holder : Option Nat) :
    Prop where
  fresh : ∀ i, m.items ≤ i → m.alive i = false
  held : ∀ i, holder = some i → m.alive i = true
  target : ∀ i, m.target i = if holder = some i then some (homePtr bufferSize c i) else none
  node : ∀ p, m.node p = holder.bind fun i =>
    if p = homePtr bufferSize c i then some ⟨homeKind bufferSize c, f⟩ else none
  liveF : m.liveF = if holder = none then 0 else 1
  bytes : m.bytes = if canEmbed bufferSize c then 0 else c.nodeSize * m.liveF
  allocations : m.allocations = if canEmbed bufferSize c then 0 else 1

variable {m m' : Memory} {holder : Option Nat}

theorem chain_construct (bufferSize : Nat) (c : Callable) (f : Nat) :
    Chain bufferSize c f ((Memory.empty.newItem).emplace bufferSize c 0 f) (some 0) := by
  by_cases he : canEmbed bufferSize c = true
  all_goals
    refine ⟨fun i hi => ?_, fun i hi => ?_, fun i => ?_, fun p => ?_, ?_, ?_, ?_⟩ <;>
      simp only [Memory.emplace, Memory.newItem, Memory.empty, he, homePtr, homeKind,
        Function.update_apply, ↓reduceIte, Bool.false_eq_true, Option.some.injEq] at *
  all_goals (try split_ifs) <;> simp_all

theorem Chain.newItem (hc : Chain bufferSize c f m holder) : Chain bufferSize c f m.newItem holder where
  fresh i hi := by
    change m.items + 1 ≤ i at hi
    simp [Memory.newItem, Function.update_apply, show i ≠ m.items by omega, hc.fresh i (by omega)]
  held i hi := by
    by_cases h : i = m.items <;> simp [Memory.newItem, Function.update_apply, h, hc.held i hi]
  target i := by
    by_cases h : i = m.items
    · have : holder ≠ some i := fun e => by simpa [hc.fresh i h.ge] using hc.held i e
      subst h
      simp [Memory.newItem, this]
    · simp [Memory.newItem, Function.update_apply, h, hc.target i]
  node := hc.node
  liveF := hc.liveF
  bytes := hc.bytes
  allocations := hc.allocations

theorem Chain.target_eq_some (hc : Chain bufferSize c f m holder) {i : Nat} {p : Ptr}
    (h : m.target i = some p) : holder = some i ∧ p = homePtr bufferSize c i := by
  rw [hc.target i] at h
  split_ifs at h with hh
  exact ⟨hh, (Option.some.inj h).symm⟩

theorem Chain.isEmbedded (hc : Chain bufferSize c f m holder) {i : Nat} (h : holder = some i) :
    m.isEmbedded i = canEmbed bufferSize c := by
  by_cases he : canEmbed bufferSize c <;> simp [Memory.isEmbedded, hc.target i, h, homePtr, he]

theorem Chain.moveAssign (hc : Chain bufferSize c f m holder) {dst src : Nat}
    (hd : m.alive dst = true) (h : m.moveAssign dst src = .ok m') :
    holder = some src ∧ Chain bufferSize c f m' (some dst) ∧ m'.invoked = m.invoked ∧
      m'.items = m.items := by
  obtain ⟨-, p, hp, hne, hcase⟩ := Memory.moveAssign_eq_ok h
  obtain ⟨rfl, rfl⟩ := hc.target_eq_some hp
  have hl : m.liveF = 1 := by simpa using hc.liveF
  -- afterwards `dst` alone points anywhere
  have htarget : ∀ q i, Function.update (Function.update m.target src none) dst (some q) i =
      if some dst = some i then some q else none := fun q i => by
    by_cases h1 : src = i <;> by_cases h2 : dst = i <;>
      simp [Function.update_apply, hc.target i, eq_comm, h1, h2] at hne ⊢
  by_cases he : canEmbed bufferSize c = true
  · obtain ⟨f', -, hf, rfl⟩ := hcase.resolve_right fun ⟨hemb, _⟩ => by
      simp [hc.isEmbedded rfl, he] at hemb
    obtain rfl : f' = f := by simpa [hc.node, homePtr, homeKind, he, eq_comm] using hf
    refine ⟨rfl, ⟨hc.fresh, by simpa [Memory.setTarget, Memory.setNode] using hd, fun i => ?_,
      fun q => ?_, by simpa [Memory.setTarget, Memory.setNode] using hl, hc.bytes,
      hc.allocations⟩, rfl, rfl⟩
    · simp only [Memory.setTarget, Memory.setNode, htarget, homePtr, he, ↓reduceIte,
        Option.some.injEq]
      split_ifs <;> simp_all
    · by_cases h1 : q = .buffer src <;> by_cases h2 : q = .buffer dst <;>
        simp [Memory.setNode, Memory.setTarget, Function.update_apply, hc.node q, homePtr,
          homeKind, he, h1, h2, hne, Ne.symm hne]
  · obtain ⟨-, rfl⟩ := hcase.resolve_left fun ⟨_, hpe, _⟩ => by simp [homePtr, he] at hpe
    refine ⟨rfl, ⟨hc.fresh, by simpa [Memory.setTarget] using hd, fun i => ?_,
      fun q => by simp [Memory.setTarget, hc.node q, homePtr, homeKind, he],
      by simpa [Memory.setTarget] using hl, hc.bytes, hc.allocations⟩, rfl, rfl⟩
    simp only [Memory.setTarget, htarget, homePtr, he, Bool.false_eq_true, ↓reduceIte]

theorem Chain.invoke (hc : Chain bufferSize c f m holder) {i : Nat} (h : m.invoke i = .ok m') :
    Chain bufferSize c f m' holder ∧ m'.invoked = m.invoked ++ [f] ∧ m'.items = m.items := by
  unfold Memory.invoke at h
  split at h
  · cases h
  rename_i p hp
  obtain ⟨rfl, rfl⟩ := hc.target_eq_some hp
  simp only [hc.node, Option.some_bind, ↓reduceIte, Except.ok.injEq] at h
  subst h
  exact ⟨⟨hc.fresh, hc.held, hc.target, hc.node, hc.liveF, hc.bytes, hc.allocations⟩, rfl, rfl⟩

theorem Chain.destroy (hc : Chain bufferSize c f m holder) {i : Nat} (h : m.destroy c i = .ok m') :
    Chain bufferSize c f m' (if holder = some i then none else holder) ∧ m'.invoked = m.invoked ∧
      m'.items = m.items := by
  have hitems := (Memory.destroy_eq_ok h).2.2.1
  unfold Memory.destroy at h
  dsimp only at h
  split at h
  · rename_i hn
    have hh : holder ≠ some i := fun e => by simp [hc.target i, e] at hn
    rw [if_neg hh]
    cases h
    refine ⟨⟨fun j hj => ?_, fun j hj => ?_, fun j => ?_, hc.node, hc.liveF, hc.bytes,
      hc.allocations⟩, rfl, rfl⟩
    · simp [Function.update_apply, hc.fresh j hj]
    · simp [Function.update_apply, hc.held j hj, show j ≠ i from fun e => hh (e ▸ hj)]
    · by_cases hji : j = i <;> simp [Function.update_apply, hji, hh, hc.target j]
  · rename_i p hp
    obtain ⟨rfl, rfl⟩ := hc.target_eq_some hp
    rw [hc.isEmbedded rfl] at h
    have hl : m.liveF = 1 := by simpa using hc.liveF
    have hb := hc.bytes
    by_cases he : canEmbed bufferSize c = true
    all_goals
      simp only [he, ↓reduceIte, Bool.false_eq_true, Memory.destroyNode, Memory.destroyDealloc,
        hc.node, homePtr, homeKind, Option.some_bind, Except.map, Except.ok.injEq] at h hb
      subst h
      refine ⟨⟨fun j hj => ?_, by simp, fun j => ?_, fun q => ?_, by simp [hl], ?_, hc.allocations⟩,
        rfl, hitems⟩
      · simp [Function.update_apply, hc.fresh j hj]
      · by_cases hji : i = j <;> simp [Function.update_apply, hji, hc.target j, eq_comm]
      · dsimp only
        rw [Function.update_apply, hc.node q]
        split_ifs <;> simp_all [homePtr]
    · simpa [he] using hb
    · simp [he, hb, hl]

theorem Chain.step (hc : Chain bufferSize c f m holder) {op : Op} (hop : ∀ g, op ≠ .construct g)
    (h : m.step bufferSize c op = some (.ok m')) :
    ∃ holder', Chain bufferSize c f m' holder' ∧
      m'.invoked = m.invoked ++ (if op.isInvoke then [f] else []) ∧
      ∀ ops, lifecycleHolder holder m.items (op :: ops) = lifecycleHolder holder' m'.items ops := by
  cases op with
  | construct g => exact absurd rfl (hop g)
  | default =>
    cases h
    exact ⟨holder, hc.newItem, by simp [Op.isInvoke, Memory.newItem], fun _ => rfl⟩
  | moveConstruct src =>
    simp only [Memory.step, Option.ite_none_right_eq_some, Option.some.injEq] at h
    obtain ⟨-, hc', hi, hitems⟩ := hc.newItem.moveAssign (by simp [Memory.newItem]) h.2
    exact ⟨_, hc', by simpa [Op.isInvoke] using hi, fun _ => by rw [hitems]; rfl⟩
  | moveAssign dst src =>
    simp only [Memory.step, Option.ite_none_right_eq_some, Option.some.injEq] at h
    obtain ⟨-, hc', hi, hitems⟩ := hc.moveAssign h.1.1 h.2
    exact ⟨_, hc', by simp [Op.isInvoke, hi], fun _ => by rw [hitems]; rfl⟩
  | invoke i =>
    simp only [Memory.step, Option.ite_none_right_eq_some, Option.some.injEq] at h
    obtain ⟨hc', hi, hitems⟩ := hc.invoke h.2
    exact ⟨_, hc', by simp [Op.isInvoke, hi], fun _ => by rw [hitems]; rfl⟩
  | destroy i =>
    simp only [Memory.step, Option.ite_none_right_eq_some, Option.some.injEq] at h
    obtain ⟨hc', hi, hitems⟩ := hc.destroy h.2
    exact ⟨_, hc', by simp [Op.isInvoke, hi], fun _ => by rw [hitems]; rfl⟩

theorem Chain.run (hc : Chain bufferSize c f m holder) {ops : List Op}
    (hops : ∀ op ∈ ops, ∀ g, op ≠ .construct g) (h : m.run bufferSize c ops = some m') :
    Chain bufferSize c f m' (lifecycleHolder holder m.items ops) ∧
      m'.invoked = m.invoked ++ List.replicate (ops.countP Op.isInvoke) f := by
  induction ops generalizing m holder with
  | nil => cases h; exact ⟨hc, by simp⟩
  | cons op ops ih =>
    obtain ⟨m₁, h1, h2⟩ := Memory.run_cons h
    obtain ⟨holder₁, hc₁, hi₁, hl₁⟩ := hc.step (hops op (List.mem_cons_self _ _)) h1
    obtain ⟨hc', hi'⟩ := ih hc₁ (fun o ho => hops o (List.mem_cons_of_mem _ ho)) h2
    refine ⟨hl₁ ops ▸ hc', ?_⟩
    rw [hi', hi₁, List.countP_cons]
    split <;> simp [List.replicate_succ]

end Chain

theorem work_item_chain {bufferSize : Nat} {c : Callable} {f : Nat} {ops : List Op}
    (hops : ∀ op ∈ ops, ∀ g, op ≠ .construct g) {m : Memory}
    (h : Memory.empty.run bufferSize c (.construct f :: ops) = some m) :
    (∀ i, m.target i ≠ none ↔ lifecycleHolder (some 0) 1 ops = some i) ∧
      (m.liveF = 1 ↔ ∃ i, m.alive i = true ∧ m.target i ≠ none) ∧ m.liveF ≤ 1 ∧
      (∀ i p, m.target i = some p → ∃ k, m.node p = some ⟨k, f⟩) ∧
      m.invoked = List.replicate (ops.countP Op.isInvoke) f ∧
      m.allocations = (if canEmbed bufferSize c then 0 else 1) ∧
      ((∀ i, m.alive i = false) → m.bytes = 0 ∧ m.liveF = 0) := by
  obtain ⟨m₁, h1, h2⟩ := Memory.run_cons h
  cases h1
  obtain ⟨hc, hi⟩ := (chain_construct bufferSize c f).run hops h2
  rw [Memory.emplace_items, show Memory.empty.newItem.items = 1 from rfl] at hc
  generalize lifecycleHolder (some 0) 1 ops = holder at hc ⊢
  have hheld : ∀ i, m.target i ≠ none ↔ holder = some i := fun i => by
    rw [hc.target i]; split_ifs <;> simp_all
  refine ⟨hheld, ⟨fun h1 => ?_, fun ⟨i, _, hi⟩ => ?_⟩, ?_, fun i p hp => ?_, by simpa using hi,
    hc.allocations, fun hdead => ?_⟩
  · rcases holder with _ | i
    · simp [hc.liveF] at h1
    · exact ⟨i, hc.held i rfl, (hheld i).mpr rfl⟩
  · simp [hc.liveF, (hheld i).mp hi]
  · rw [hc.liveF]; split <;> omega
  · obtain ⟨rfl, rfl⟩ := hc.target_eq_some hp
    exact ⟨homeKind bufferSize c, by simp [hc.node]⟩
  · have hnone : holder = none := by
      rcases holder with _ | i
      · rfl
      · simpa [hdead i] using hc.held i rfl
    simp [hc.bytes, hc.liveF, hnone]

theorem work_item_chain_moved_invoked :
    (∀ op ∈ [Op.moveConstruct 0, .invoke 1, .destroy 0, .destroy 1], ∀ g, op ≠ .construct g) ∧
      ∃ m, Memory.empty.run 32 ⟨32, 32, true⟩
          [.construct 0, .moveConstruct 0, .invoke 1, .destroy 0, .destroy 1] = some m ∧
        ((∀ i, m.target i ≠ none ↔
            lifecycleHolder (some 0) 1 [.moveConstruct 0, .invoke 1, .destroy 0, .destroy 1] =
              some i) ∧
          (m.liveF = 1 ↔ ∃ i, m.alive i = true ∧ m.target i ≠ none) ∧ m.liveF ≤ 1 ∧
          (∀ i p, m.target i = some p → ∃ k, m.node p = some ⟨k, 0⟩) ∧
          m.invoked = List.replicate
            ([Op.moveConstruct 0, .invoke 1, .destroy 0, .destroy 1].countP Op.isInvoke) 0 ∧
          m.allocations = (if canEmbed 32 ⟨32, 32, true⟩ then 0 else 1) ∧
          ((∀ i, m.alive i = false) → m.bytes = 0 ∧ m.liveF = 0)) := by
  have hops : ∀ op ∈ [Op.moveConstruct 0, .invoke 1, .destroy 0, .destroy 1], ∀ g,
      op ≠ .construct g := by simp
  exact ⟨hops, _, rfl, work_item_chain hops rfl⟩

theorem embeds_above_three_pointers :
    alignedStorageSize (3 * 8) 16 = 32 ∧ 3 * 8 < 32 ∧
      ∃ m, Memory.empty.run (alignedStorageSize (3 * 8) 16) ⟨32, 32, true⟩ [.construct 0] = some m ∧
        m.allocations = 0 :=
  ⟨rfl, by decide, _, rfl, rfl⟩

/-! ### Node kinds over items of any callable types -/

section Kinds

/-- Memories reached by operations on items of any callable types. -/
inductive Memory.Reachable (bufferSize : Nat) : Memory → Prop
  | empty : Memory.Reachable bufferSize Memory.empty
  | step {m m' : Memory} (c : Callable) (op : Op) : Memory.Reachable bufferSize m →
      m.step bufferSize c op = some (.ok m') → Memory.Reachable bufferSize m'

def Memory.Homed (m : Memory) (i : Nat) (p : Ptr) : Prop :=
  (p = .buffer i ∧ ∃ f, m.node p = some ⟨.withoutAlloc, f⟩) ∨
    ∃ b, p = .block b ∧ b < m.blocks ∧ ∃ f, m.node p = some ⟨.withAlloc, f⟩

structure Memory.KindInv (m : Memory) : Prop where
  alive : ∀ i p, m.target i = some p → m.alive i = true
  homed : ∀ i p, m.target i = some p → m.Homed i p
  unique : ∀ i j p, m.target i = some p → m.target j = some p → i = j

variable {m m' : Memory}

theorem Memory.empty_kindInv : Memory.empty.KindInv :=
  ⟨fun _ _ h => (nomatch h), fun _ _ h => (nomatch h), fun _ _ _ h => (nomatch h)⟩

theorem Memory.Homed.buffer {i j : Nat} (h : m.Homed i (.buffer j)) :
    j = i ∧ ∃ f, m.node (.buffer j) = some ⟨.withoutAlloc, f⟩ := by
  rcases h with ⟨h, hf⟩ | ⟨_, h, -⟩ <;> cases h
  exact ⟨rfl, hf⟩

theorem Memory.Homed.block {i b : Nat} (h : m.Homed i (.block b)) :
    b < m.blocks ∧ ∃ f, m.node (.block b) = some ⟨.withAlloc, f⟩ := by
  rcases h with ⟨h, -⟩ | ⟨_, h, hb, hf⟩ <;> cases h
  exact ⟨hb, hf⟩

theorem Memory.Homed.mono {i : Nat} {p : Ptr} (h : m.Homed i p) (hn : m'.node p = m.node p)
    (hb : m.blocks ≤ m'.blocks) : m'.Homed i p := by
  rcases h with ⟨hp, f, hf⟩ | ⟨b, hp, hbl, f, hf⟩
  · exact .inl ⟨hp, f, hn.trans hf⟩
  · exact .inr ⟨b, hp, by omega, f, hn.trans hf⟩

theorem Memory.KindInv.free_buffer (hi : m.KindInv) {i : Nat} (hn : m.target i = none) (j : Nat) :
    m.target j ≠ some (.buffer i) := fun h => by
  obtain ⟨rfl, -⟩ := (hi.homed j _ h).buffer
  simp [hn] at h

theorem Memory.KindInv.free_block (hi : m.KindInv) (j : Nat) :
    m.target j ≠ some (.block m.blocks) := fun h => by
  have := (hi.homed j _ h).block.1
  omega

theorem Memory.KindInv.attach (hi : m.KindInv) {i : Nat} {q : Ptr} (ha : m.alive i = true)
    (hfree : ∀ j, m.target j ≠ some q) (hnode : ∀ p, p ≠ q → m'.node p = m.node p)
    (hblocks : m.blocks ≤ m'.blocks) (halive : m'.alive = m.alive)
    (htarget : m'.target = Function.update m.target i (some q)) (hhome : m'.Homed i q) :
    m'.KindInv := by
  have hcase : ∀ j p, m'.target j = some p → (j = i ∧ p = q) ∨ m.target j = some p :=
    fun j p h => by
      rcases eq_or_ne j i with rfl | hji
      · rw [htarget, Function.update_same] at h; exact .inl ⟨rfl, (Option.some.inj h).symm⟩
      · rw [htarget, Function.update_noteq hji] at h; exact .inr h
  refine ⟨fun j p h => ?_, fun j p h => ?_, fun j k p hj hk => ?_⟩
  · rw [halive]
    rcases hcase j p h with ⟨rfl, -⟩ | h
    · exact ha
    · exact hi.alive j p h
  · rcases hcase j p h with ⟨rfl, rfl⟩ | h
    · exact hhome
    · exact (hi.homed j p h).mono (hnode p fun e => hfree j (e ▸ h)) hblocks
  · rcases hcase j p hj with ⟨rfl, rfl⟩ | hj <;> rcases hcase k p hk with ⟨rfl, hq⟩ | hk
    · rfl
    · exact absurd hk (hfree k)
    · exact absurd (hq ▸ hj) (hfree j)
    · exact hi.unique j k p hj hk

theorem Memory.KindInv.detach (hi : m.KindInv) {i : Nat}
    (hnode : ∀ j r, j ≠ i → m.target j = some r → m'.node r = m.node r)
    (hblocks : m.blocks ≤ m'.blocks) (halive : ∀ j, j ≠ i → m'.alive j = m.alive j)
    (htarget : m'.target = Function.update m.target i none) : m'.KindInv := by
  have hold : ∀ j p, m'.target j = some p → j ≠ i ∧ m.target j = some p := fun j p h => by
    rcases eq_or_ne j i with rfl | hji
    · simp [htarget] at h
    · exact ⟨hji, by rwa [htarget, Function.update_noteq hji] at h⟩
  refine ⟨fun j p h => ?_, fun j p h => ?_, fun j k p hj hk => ?_⟩
  · obtain ⟨hji, h⟩ := hold j p h
    rw [halive j hji]; exact hi.alive j p h
  · obtain ⟨hji, h⟩ := hold j p h
    exact (hi.homed j p h).mono (hnode j p hji h) hblocks
  · exact hi.unique j k p (hold j p hj).2 (hold k p hk).2

theorem Memory.KindInv.ne_of_target (hi : m.KindInv) {i j : Nat} {p r : Ptr} (hp : m.target i = some p)
    (hji : j ≠ i) (hr : m.target j = some r) : r ≠ p := by
  rintro rfl; exact hji (hi.unique j i r hr hp)

theorem Memory.KindInv.newItem (hi : m.KindInv) : m.newItem.KindInv :=
  hi.detach (i := m.items) (fun _ _ _ _ => rfl) le_rfl (fun j hj => by simp [Memory.newItem, hj])
    (by simp only [Memory.newItem])

theorem Memory.KindInv.emplace (hi : m.KindInv) {bufferSize : Nat} {c : Callable} {i f : Nat}
    (ha : m.alive i = true) (hn : m.target i = none) : (m.emplace bufferSize c i f).KindInv := by
  unfold Memory.emplace
  split
  · exact hi.attach ha (hi.free_buffer hn) (fun p hp => Function.update_noteq hp _ _) le_rfl rfl rfl
      (.inl ⟨rfl, f, Function.update_same _ _ _⟩)
  · exact hi.attach ha hi.free_block (fun p hp => Function.update_noteq hp _ _) (Nat.le_succ _) rfl
      rfl (.inr ⟨_, rfl, Nat.lt_succ_self _, f, Function.update_same _ _ _⟩)

theorem Memory.Homed.node_some {i : Nat} {p : Ptr} (h : m.Homed i p) : ∃ n, m.node p = some n := by
  rcases h with ⟨-, f, hf⟩ | ⟨-, -, -, f, hf⟩ <;> exact ⟨_, hf⟩

theorem Memory.KindInv.moveAssign (hi : m.KindInv) {dst src : Nat} (hd : m.alive dst = true)
    (h : m.moveAssign dst src = .ok m') : m'.KindInv := by
  obtain ⟨hdn, p, hp, hne, ⟨f, rfl, -, rfl⟩ | ⟨he, rfl⟩⟩ := Memory.moveAssign_eq_ok h
  · have h₂ : ((m.setTarget src none).setNode (.buffer src) none).KindInv :=
      hi.detach (fun j r hj h => Function.update_noteq (hi.ne_of_target hp hj h) _ _) le_rfl
        (fun _ _ => rfl) rfl
    have hdn₂ : ((m.setTarget src none).setNode (.buffer src) none).target dst = none := by
      simp [Memory.setTarget, Memory.setNode, Function.update_noteq hne, hdn]
    exact h₂.attach hd (h₂.free_buffer hdn₂) (fun q hq => Function.update_noteq hq _ _) le_rfl
      rfl rfl (.inl ⟨rfl, f, Function.update_same _ _ _⟩)
  · have h₁ : (m.setTarget src none).KindInv :=
      hi.detach (fun _ _ _ _ => rfl) le_rfl (fun _ _ => rfl) rfl
    obtain ⟨e, -⟩ | hb := hi.homed src p hp
    · simp [Memory.isEmbedded, hp, e] at he
    refine h₁.attach hd (fun j hj => ?_) (fun _ _ => rfl) le_rfl rfl rfl (.inr hb)
    rcases eq_or_ne j src with rfl | hjs
    · simp [Memory.setTarget] at hj
    · exact hjs (hi.unique j src p (by simpa [Memory.setTarget, hjs] using hj) hp)

theorem Memory.KindInv.moveAssign_error (hi : m.KindInv) {dst src : Nat} {e : String}
    (h : m.moveAssign dst src = .error e) :
    e = "must move to empty work_item" ∨ e = "moved from work_item twice" := by
  rcases Memory.moveAssign_eq_error h with h | h | ⟨p, hp, he, hn⟩
  · exact .inl h
  · exact .inr h
  · rcases hi.homed src p hp with ⟨rfl, f, hf⟩ | ⟨b, rfl, -⟩
    · exact absurd hf (hn f)
    · simp [Memory.isEmbedded, hp] at he

theorem Memory.KindInv.invoke (hi : m.KindInv) {i : Nat} :
    (∀ m', m.invoke i = .ok m' → m'.KindInv) ∧ ∀ e, m.invoke i = .error e → e = "null _target" := by
  unfold Memory.invoke
  split
  · exact ⟨fun _ h => (nomatch h), fun _ h => (Except.error.inj h).symm⟩
  rename_i p hp
  obtain ⟨n, hn⟩ := (hi.homed i p hp).node_some
  simp only [hn]
  exact ⟨fun _ h => by cases h; exact ⟨hi.alive, hi.homed, hi.unique⟩, fun _ h => nomatch h⟩

theorem Memory.KindInv.destroy (hi : m.KindInv) {c : Callable} {i : Nat} :
    ∃ m', m.destroy c i = .ok m' ∧ m'.KindInv := by
  unfold Memory.destroy
  dsimp only
  have hgone : ∀ m' : Memory, m'.alive = m.alive → m'.target = m.target →
      (∀ j r, j ≠ i → m.target j = some r → m'.node r = m.node r) → m.blocks ≤ m'.blocks →
      { m' with alive := Function.update m'.alive i false,
                target := Function.update m'.target i none }.KindInv :=
    fun m' ha ht hn hb => hi.detach hn hb (fun j hj => by simp [ha, Function.update_noteq hj])
      (by rw [ht])
  split
  · exact ⟨_, rfl, hgone m rfl rfl (fun _ _ _ _ => rfl) le_rfl⟩
  rename_i p hp
  have hother : ∀ j r, j ≠ i → m.target j = some r → Function.update m.node p none r = m.node r :=
    fun j r hj h => Function.update_noteq (hi.ne_of_target hp hj h) _ _
  rcases hi.homed i p hp with ⟨rfl, f, hf⟩ | ⟨b, rfl, -, f, hf⟩
  · simp only [Memory.isEmbedded, hp, beq_self_eq_true, ↓reduceIte, Memory.destroyNode, hf,
      Except.map]
    exact ⟨_, rfl, hgone
      { m with node := Function.update m.node (.buffer i) none, liveF := m.liveF - 1 }
      rfl rfl hother le_rfl⟩
  · have he : m.isEmbedded i = false := by simp [Memory.isEmbedded, hp]
    simp only [he, Bool.false_eq_true, ↓reduceIte, Memory.destroyDealloc, hf, Except.map]
    exact ⟨_, rfl, hgone
      { m with
        node := Function.update m.node (.block b) none
        liveF := m.liveF - 1
        bytes := m.bytes - c.nodeSize }
      rfl rfl hother le_rfl⟩

theorem Memory.KindInv.step (hi : m.KindInv) {bufferSize : Nat} {c : Callable} {op : Op} :
    (∀ m', m.step bufferSize c op = some (.ok m') → m'.KindInv) ∧
      ∀ e, m.step bufferSize c op = some (.error e) →
        e = "must move to empty work_item" ∨ e = "moved from work_item twice" ∨ e = "null _target" := by
  have hfresh : m.newItem.alive m.items = true := by simp [Memory.newItem]
  cases op with
  | construct f =>
    refine ⟨fun m' h => ?_, fun _ h => (nomatch h)⟩
    cases h
    exact hi.newItem.emplace hfresh (by simp [Memory.newItem])
  | default => exact ⟨fun _ h => by cases h; exact hi.newItem, fun _ h => (nomatch h)⟩
  | moveConstruct src =>
    simp only [Memory.step, Option.ite_none_right_eq_some, Option.some.injEq]
    exact ⟨fun m' h => hi.newItem.moveAssign hfresh h.2,
      fun e h => (hi.newItem.moveAssign_error h.2).imp_right .inl⟩
  | moveAssign dst src =>
    simp only [Memory.step, Option.ite_none_right_eq_some, Option.some.injEq]
    exact ⟨fun m' h => hi.moveAssign h.1.1 h.2, fun e h => (hi.moveAssign_error h.2).imp_right .inl⟩
  | invoke i =>
    simp only [Memory.step, Option.ite_none_right_eq_some, Option.some.injEq]
    exact ⟨fun m' h => hi.invoke.1 m' h.2, fun e h => .inr (.inr (hi.invoke.2 e h.2))⟩
  | destroy i =>
    simp only [Memory.step, Option.ite_none_right_eq_some, Option.some.injEq]
    obtain ⟨m₁, hd, h₁⟩ := hi.destroy (c := c) (i := i)
    rw [hd]
    exact ⟨fun m' h => Except.ok.inj h.2 ▸ h₁, fun _ h => (nomatch h.2)⟩

theorem Memory.Reachable.kindInv {bufferSize : Nat} (hm : m.Reachable bufferSize) : m.KindInv := by
  induction hm with
  | empty => exact Memory.empty_kindInv
  | step _ _ _ h ih => exact ih.step.1 _ h

theorem embedded_iff_without_alloc {bufferSize : Nat} {m : Memory} (hm : m.Reachable bufferSize) :
    (∀ i p, m.target i = some p → m.alive i = true ∧
      (m.isEmbedded i = true ↔ ∃ f, m.node p = some ⟨.withoutAlloc, f⟩) ∧
      (m.isEmbedded i = false →
        ∃ b, p = .block b ∧ b < m.blocks ∧ ∃ f, m.node p = some ⟨.withAlloc, f⟩)) ∧
    ∀ c op e, m.step bufferSize c op = some (.error e) →
      e = "must move to empty work_item" ∨ e = "moved from work_item twice" ∨ e = "null _target" := by
  have hi := hm.kindInv
  refine ⟨fun i p hp => ⟨hi.alive i p hp, ?_, fun he => ?_⟩, fun _ _ => hi.step.2⟩
  · rcases hi.homed i p hp with ⟨rfl, hf⟩ | ⟨b, rfl, -, f, hf⟩ <;> simp [Memory.isEmbedded, hp, hf]
  · rcases hi.homed i p hp with ⟨rfl, -⟩ | hb
    · simp [Memory.isEmbedded, hp] at he
    · exact hb

theorem embedded_iff_without_alloc_moved :
    ∃ m : Memory, m.Reachable 32 ∧
      ((∀ i p, m.target i = some p → m.alive i = true ∧
        (m.isEmbedded i = true ↔ ∃ f, m.node p = some ⟨.withoutAlloc, f⟩) ∧
        (m.isEmbedded i = false →
          ∃ b, p = .block b ∧ b < m.blocks ∧ ∃ f, m.node p = some ⟨.withAlloc, f⟩)) ∧
      ∀ c op e, m.step 32 c op = some (.error e) →
        e = "must move to empty work_item" ∨ e = "moved from work_item twice" ∨ e = "null _target") :=
  have h : Memory.Reachable 32 _ :=
    .step ⟨64, 72, true⟩ (.moveConstruct 1) (.step ⟨24, 32, true⟩ (.moveConstruct 0)
      (.step ⟨64, 72, true⟩ (.construct 8) (.step ⟨24, 32, true⟩ (.construct 7) .empty rfl) rfl)
      rfl) rfl
  ⟨_, h, embedded_iff_without_alloc h⟩

end Kinds

/-! ### One live `F` per non-empty item -/

section Live

def Memory.nonEmpty (m : Memory) : Nat := (List.range m.items).countP fun i => (m.target i).isSome

variable {m m' : Memory}

theorem countP_range_update_of_le {t : Nat → Option Ptr} {i n : Nat} (hi : n ≤ i) (v : Option Ptr) :
    (List.range n).countP (fun j => (Function.update t i v j).isSome) =
      (List.range n).countP (fun j => (t j).isSome) :=
  List.countP_congr fun j hj => by
    rw [Function.update_noteq (by have := List.mem_range.mp hj; omega)]

theorem countP_range_update {t : Nat → Option Ptr} {i n : Nat} (hi : i < n) (v : Option Ptr) :
    (List.range n).countP (fun j => (Function.update t i v j).isSome) + (t i).isSome.toNat =
      (List.range n).countP (fun j => (t j).isSome) + v.isSome.toNat := by
  induction n with
  | zero => omega
  | succ n ih =>
    simp only [List.range_succ, List.countP_append, List.countP_singleton]
    rcases Nat.lt_succ_iff_lt_or_eq.mp hi with hi | rfl
    · have := ih hi
      rw [Function.update_noteq (Nat.ne_of_gt hi)]
      omega
    · rw [countP_range_update_of_le le_rfl, Function.update_same]
      cases (t i).isSome <;> cases v.isSome <;> rfl

theorem Memory.nonEmpty_update {i : Nat} (hi : i < m.items) {v : Option Ptr}
    (hitems : m'.items = m.items) (ht : m'.target = Function.update m.target i v) :
    m'.nonEmpty + (m.target i).isSome.toNat = m.nonEmpty + v.isSome.toNat := by
  rw [Memory.nonEmpty, hitems, ht]
  exact countP_range_update hi v

structure Memory.CountInv (m : Memory) : Prop where
  fresh : ∀ i, m.items ≤ i → m.alive i = false ∧ m.target i = none
  live : m.liveF = m.nonEmpty

theorem Memory.empty_countInv : Memory.empty.CountInv :=
  ⟨fun _ _ => ⟨rfl, rfl⟩, rfl⟩

theorem Memory.CountInv.lt_items (hi : m.CountInv) {i : Nat} (ha : m.alive i = true) : i < m.items :=
  Nat.lt_of_not_le fun h => by simp [(hi.fresh i h).1] at ha

theorem Memory.CountInv.newItem (hi : m.CountInv) : m.newItem.CountInv := by
  refine ⟨fun i h => ?_, ?_⟩
  · simp only [Memory.newItem] at h ⊢
    rw [Function.update_noteq (by omega), Function.update_noteq (by omega)]
    exact hi.fresh i (by omega)
  · simp only [Memory.nonEmpty, Memory.newItem, List.range_succ, List.countP_append,
      List.countP_singleton, Function.update_same, Option.isSome_none, countP_range_update_of_le le_rfl]
    exact hi.live

theorem Memory.CountInv.emplace (hi : m.CountInv) {bufferSize : Nat} {c : Callable} {i f : Nat}
    (ha : m.alive i = true) (hn : m.target i = none) : (m.emplace bufferSize c i f).CountInv := by
  have hlt := hi.lt_items ha
  -- `emplace` points item `i` at a node, and makes one `F`
  obtain ⟨q, ht, hitems, hlive, halive⟩ : ∃ q, (m.emplace bufferSize c i f).target =
      Function.update m.target i (some q) ∧ (m.emplace bufferSize c i f).items = m.items ∧
      (m.emplace bufferSize c i f).liveF = m.liveF + 1 ∧
      (m.emplace bufferSize c i f).alive = m.alive := by
    unfold Memory.emplace; split <;> exact ⟨_, rfl, rfl, rfl, rfl⟩
  have hcount := Memory.nonEmpty_update hlt hitems ht
  rw [hn] at hcount
  refine ⟨fun j hj => ?_, ?_⟩
  · rw [hitems] at hj
    rw [halive, ht, Function.update_noteq (by omega)]
    exact hi.fresh j hj
  · simp only [Option.isSome_none, Option.isSome_some, Bool.toNat_false, Bool.toNat_true] at hcount
    rw [hlive, hi.live]
    omega

theorem Memory.CountInv.lt_items_of_target (hi : m.CountInv) {i : Nat} (ht : (m.target i).isSome) :
    i < m.items :=
  Nat.lt_of_not_le fun h => by simp [(hi.fresh i h).2] at ht

theorem Memory.CountInv.moveAssign (hi : m.CountInv) {dst src : Nat} (hd : m.alive dst = true)
    (h : m.moveAssign dst src = .ok m') : m'.CountInv := by
  obtain ⟨hdn, p, hp, hne, hcase⟩ := Memory.moveAssign_eq_ok h
  -- the node leaves `src` and arrives at `dst`; no `F` is made or destroyed
  obtain ⟨q, ht, halive, hitems, hlive⟩ : ∃ q, m'.target =
      Function.update (Function.update m.target src none) dst (some q) ∧ m'.alive = m.alive ∧
      m'.items = m.items ∧ m'.liveF = m.liveF := by
    rcases hcase with ⟨_, -, -, rfl⟩ | ⟨-, rfl⟩ <;> exact ⟨_, rfl, rfl, rfl, rfl⟩
  have hdst := hi.lt_items hd
  have hsrc := hi.lt_items_of_target (i := src) (by simp [hp])
  have h₁ := countP_range_update (t := m.target) hsrc none
  have h₂ := countP_range_update (t := Function.update m.target src none) hdst (some q)
  rw [Function.update_noteq hne, hdn] at h₂
  rw [hp] at h₁
  refine ⟨fun j hj => ?_, ?_⟩
  · rw [hitems] at hj
    rw [halive, ht, Function.update_noteq (by omega), Function.update_noteq (by omega)]
    exact hi.fresh j hj
  · simp only [Option.isSome_none, Option.isSome_some, Bool.toNat_false, Bool.toNat_true] at h₁ h₂
    rw [hlive, hi.live, Memory.nonEmpty, Memory.nonEmpty, hitems, ht]
    omega

theorem Memory.CountInv.invoke (hi : m.CountInv) {i : Nat} (h : m.invoke i = .ok m') :
    m'.CountInv := by
  unfold Memory.invoke at h
  split at h
  · cases h
  split at h
  · cases h
  cases h
  exact ⟨hi.fresh, hi.live⟩

theorem Memory.CountInv.destroy (hi : m.CountInv) {c : Callable} {i : Nat} (ha : m.alive i = true)
    (h : m.destroy c i = .ok m') : m'.CountInv := by
  obtain ⟨halive, ht, hitems, hlive⟩ := Memory.destroy_eq_ok h
  have hlt := hi.lt_items ha
  have hcount := Memory.nonEmpty_update hlt hitems ht
  refine ⟨fun j hj => ?_, ?_⟩
  · rw [hitems] at hj
    rw [halive, ht, Function.update_noteq (by omega), Function.update_noteq (by omega)]
    exact hi.fresh j hj
  · simp only [Option.isSome_none, Bool.toNat_false] at hcount
    rw [hlive, hi.live]
    omega

theorem Memory.CountInv.step (hi : m.CountInv) {bufferSize : Nat} {c : Callable} {op : Op}
    (h : m.step bufferSize c op = some (.ok m')) : m'.CountInv := by
  have hfresh : m.newItem.alive m.items = true := by simp [Memory.newItem]
  cases op with
  | construct f =>
    cases h
    exact hi.newItem.emplace hfresh (by simp [Memory.newItem])
  | default => cases h; exact hi.newItem
  | moveConstruct src =>
    simp only [Memory.step, Option.ite_none_right_eq_some, Option.some.injEq] at h
    exact hi.newItem.moveAssign hfresh h.2
  | moveAssign dst src =>
    simp only [Memory.step, Option.ite_none_right_eq_some, Option.some.injEq] at h
    exact hi.moveAssign h.1.1 h.2
  | invoke i =>
    simp only [Memory.step, Option.ite_none_right_eq_some, Option.some.injEq] at h
    exact hi.invoke h.2
  | destroy i =>
    simp only [Memory.step, Option.ite_none_right_eq_some, Option.some.injEq] at h
    exact hi.destroy h.1 h.2

theorem Memory.Reachable.countInv {bufferSize : Nat} (hm : m.Reachable bufferSize) : m.CountInv := by
  induction hm with
  | empty => exact Memory.empty_countInv
  | step _ _ _ h ih => exact ih.step h

theorem live_callables_eq_nonempty_items {bufferSize : Nat} {m : Memory}
    (hm : m.Reachable bufferSize) :
    m.liveF = (List.range m.items).countP (fun i => (m.target i).isSome) ∧
      ((∀ i, m.alive i = false) → m.liveF = 0) := by
  have hi := hm.countInv
  refine ⟨hi.live, fun hdead => ?_⟩
  rw [hi.live, Memory.nonEmpty, List.countP_eq_zero]
  intro i _ hs
  have := hm.kindInv.alive i _ (Option.get_mem hs)
  simp [hdead i] at this

theorem live_callables_eq_nonempty_items_mixed :
    ∃ m : Memory, m.Reachable 32 ∧ m.liveF = 1 ∧
      (m.liveF = (List.range m.items).countP (fun i => (m.target i).isSome) ∧
        ((∀ i, m.alive i = false) → m.liveF = 0)) :=
  have h : Memory.Reachable 32 _ :=
    .step ⟨64, 72, true⟩ (.destroy 1) (.step ⟨24, 32, true⟩ (.moveConstruct 0)
      (.step ⟨64, 72, true⟩ (.construct 8) (.step ⟨24, 32, true⟩ (.construct 7) .empty rfl) rfl)
      rfl) rfl
  ⟨_, h, rfl, live_callables_eq_nonempty_items h⟩

end Live

end WorkItemStorage

end Schedulers
