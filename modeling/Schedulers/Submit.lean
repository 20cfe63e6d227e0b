import Schedulers.ThreadPool
import Schedulers.Looper
import Schedulers.WorkItemStorage
import Schedulers.CCallback

/- Building a scheduler's payload when `allocate` or a constructor of `F` throws
(`utils.hpp:104-126`, `utils.hpp:294-342`, `part_005:113-166`). An `Except` error carries
the state as the exception leaves it. -/

namespace Schedulers

structure Faults where
  allocate : Bool
  construct : Bool
  deriving DecidableEq, Repr

/-- `allocate_unique<T>(alloc, args...)`; `temp` owns the block while `construct` runs. -/
def allocateUnique {σ : Type} (obtain : σ → Nat × σ) (giveBack : Nat → σ → σ) (faults : Faults)
    (s : σ) : Except σ (Nat × σ) :=
  if faults.allocate then .error s
  else
    let (p, s) := obtain s
    if faults.construct then .error (giveBack p s) else .ok (p, s)

section AllocateUnique

variable {σ : Type} {obtain : σ → Nat × σ} {giveBack : Nat → σ → σ} {faults : Faults} {s : σ}

theorem allocateUnique_eq_error {s' : σ} (h : allocateUnique obtain giveBack faults s = .error s') :
    s' = s ∨ s' = giveBack (obtain s).1 (obtain s).2 := by
  obtain ⟨_ | _, _ | _⟩ := faults <;>
    simp only [allocateUnique, Bool.false_eq_true, ↓reduceIte, Except.error.injEq, reduceCtorEq] at h
  · exact .inr h.symm
  all_goals exact .inl h.symm

theorem allocateUnique_ok : allocateUnique obtain giveBack ⟨false, false⟩ s = .ok (obtain s) := rfl

end AllocateUnique

/-! ### `work_item(std::allocator_arg, alloc, f)` -/

namespace WorkItemStorage

/-- `rebound_traits::allocate(real_alloc, 1)`. -/
def Memory.obtain (c : Callable) (m : Memory) : Nat × Memory :=
  (m.blocks, { m with blocks := m.blocks + 1, bytes := m.bytes + c.nodeSize,
                      allocations := m.allocations + 1 })

/-- `rebound_traits::deallocate(real_alloc, p, 1)`. -/
def Memory.giveBack (c : Callable) (_p : Nat) (m : Memory) : Memory :=
  { m with bytes := m.bytes - c.nodeSize }

/-- `work_item(std::allocator_arg, alloc, f)`; `_target` is set only once the node is built. -/
def Memory.tryConstruct (bufferSize : Nat) (c : Callable) (faults : Faults) (m : Memory) (f : Nat) :
    Except Memory Memory :=
  if canEmbed bufferSize c then
    if faults.construct then .error m else .ok (m.newItem.emplace bufferSize c m.items f)
  else
    (allocateUnique (Memory.obtain c) (Memory.giveBack c) faults m).map fun (p, m') =>
      { m'.newItem with
        node := Function.update m'.node (.block p) (some ⟨.withAlloc, f⟩),
        target := Function.update m'.newItem.target m.items (some (.block p)),
        liveF := m'.liveF + 1 }

structure Memory.Restored (m m' : Memory) : Prop where
  alive : m'.alive = m.alive
  target : m'.target = m.target
  node : m'.node = m.node
  bytes : m'.bytes = m.bytes
  liveF : m'.liveF = m.liveF

theorem Memory.giveBack_obtain (c : Callable) (m : Memory) :
    Memory.giveBack c (Memory.obtain c m).1 (Memory.obtain c m).2 =
      { m with blocks := m.blocks + 1, allocations := m.allocations + 1 } := by
  simp only [Memory.giveBack, Memory.obtain, Nat.add_sub_cancel]

theorem Memory.tryConstruct_ok (bufferSize : Nat) (c : Callable) (m : Memory) (f : Nat) :
    m.tryConstruct bufferSize c ⟨false, false⟩ f = .ok (m.newItem.emplace bufferSize c m.items f) := by
  unfold Memory.tryConstruct
  split
  · rfl
  · rw [allocateUnique_ok]
    simp only [Memory.emplace, *, Bool.false_eq_true, ↓reduceIte, Except.map]
    rfl

theorem Memory.tryConstruct_eq_error {bufferSize : Nat} {c : Callable} {faults : Faults}
    {m m' : Memory} {f : Nat} (h : m.tryConstruct bufferSize c faults f = .error m') :
    m' = m ∨ m' = { m with blocks := m.blocks + 1, allocations := m.allocations + 1 } := by
  unfold Memory.tryConstruct at h
  split at h
  · split at h
    · exact .inl (Except.error.inj h).symm
    · cases h
  · rcases allocateUnique_eq_error (except_map_eq_error.mp h) with rfl | rfl
    · exact .inl rfl
    · exact .inr (Memory.giveBack_obtain c m)

theorem Memory.Restored.of_tryConstruct {bufferSize : Nat} {c : Callable} {faults : Faults}
    {m m' : Memory} {f : Nat} (h : m.tryConstruct bufferSize c faults f = .error m') :
    m.Restored m' := by
  rcases Memory.tryConstruct_eq_error h with rfl | rfl <;> exact ⟨rfl, rfl, rfl, rfl, rfl⟩

end WorkItemStorage

/-! ### `package_task_as_c_callback(alloc, f)` -/

namespace CCallback

/-- `package_task_as_c_callback(alloc, f)`; the heap counts `(allocate, deallocate)` calls. -/
def tryPackage (st : Strategy) (faults : Faults) (heap : Nat × Nat) :
    Except (Nat × Nat) (State × (Nat × Nat)) :=
  match st with
  | .allocated =>
    (allocateUnique (fun h => (h.1, (h.1 + 1, h.2))) (fun _ h => (h.1, h.2 + 1)) faults heap).map
      fun (_, heap) => (State.package .allocated, heap)
  | st => .ok (State.package st, heap)

theorem tryPackage_eq_error {st : Strategy} {faults : Faults} {heap heap' : Nat × Nat}
    (h : tryPackage st faults heap = .error heap') :
    heap' = heap ∨ heap' = (heap.1 + 1, heap.2 + 1) := by
  cases st with
  | allocated => exact allocateUnique_eq_error (except_map_eq_error.mp h)
  | elided | reference => cases h

end CCallback

/-! ### The call operators -/

open WorkItemStorage CCallback

/-- Build `work_t{std::allocator_arg, alloc, forward<F>(f)}`, then run `next`. -/
def scheduleWorkItem {σ τ : Type} (next : σ → τ) (bufferSize : Nat) (c : Callable)
    (faults : Faults) (s : σ) (m : Memory) (f : Nat) : Except (σ × Memory) (τ × Memory) :=
  match m.tryConstruct bufferSize c faults f with
  | .error m' => .error (s, m')
  | .ok m' => .ok (next s, m')

/-- `operator()(alloc, f)` of `basic_thread_pool` (`part_004:312-316`, `619-638`). -/
def threadPoolCall {N : Nat} [NeZero N] (bufferSize : Nat) (c : Callable) (faults : Faults)
    (s : Pool N) (m : Memory) (f : Nat) :
    Except (Pool N × Memory) (Option (Except String (Pool N)) × Memory) :=
  scheduleWorkItem (fun s : Pool N => step s .call) bufferSize c faults s m f

/-- `android_main_looper::schedule(alloc, f)` (`part_004:821-826`). -/
def looperCall (bufferSize : Nat) (c : Callable) (faults : Faults) (l : Looper) (m : Memory)
    (f : Nat) : Except (Looper × Memory) (Option (Except String Looper) × Memory) :=
  scheduleWorkItem (fun l : Looper => l.step .schedule) bufferSize c faults l m f

/-- `schedule(alloc, f)` of `libdispatch_queue`, `win32_default_pool` and `emscripten_async`
(`part_004:349-355`, `411-417`, `433-439`). -/
def dispatchCall (st : Strategy) (faults : Faults) (heap : Nat × Nat) (dispatched : Nat) :
    Except ((Nat × Nat) × Nat) (Option State × (Nat × Nat) × Nat) :=
  match tryPackage st faults heap with
  | .error heap' => .error (heap', dispatched)
  | .ok (s, heap') => .ok (s.run [.release 0], heap', dispatched + 1)

theorem scheduleWorkItem_error_restored {σ τ : Type} {next : σ → τ} {bufferSize : Nat}
    {c : Callable} {faults : Faults} {s s' : σ} {m m' : Memory} {f : Nat}
    (h : scheduleWorkItem next bufferSize c faults s m f = .error (s', m')) :
    s' = s ∧ m.Restored m' := by
  unfold scheduleWorkItem at h
  split at h
  · obtain ⟨rfl, rfl⟩ := Prod.mk.inj (Except.error.inj h)
    exact ⟨rfl, .of_tryConstruct ‹_›⟩
  · cases h

theorem dispatchCall_eq_error {st : Strategy} {faults : Faults} {heap heap' : Nat × Nat}
    {dispatched d : Nat} (h : dispatchCall st faults heap dispatched = .error (heap', d)) :
    d = dispatched ∧ tryPackage st faults heap = .error heap' := by
  unfold dispatchCall at h
  split at h
  · obtain ⟨rfl, rfl⟩ := Prod.mk.inj (Except.error.inj h)
    exact ⟨rfl, ‹_›⟩
  · cases h

theorem payload_throw_leaves_no_trace {N : Nat} [NeZero N] (bufferSize : Nat) (c : Callable)
    (faults : Faults) (f : Nat) (m : Memory) (s : Pool N) (l : Looper) (st : Strategy)
    (heap : Nat × Nat) (dispatched : Nat) :
    (∀ s' m', threadPoolCall bufferSize c faults s m f = .error (s', m') →
      s' = s ∧ m.Restored m') ∧
    (∀ l' m', looperCall bufferSize c faults l m f = .error (l', m') → l' = l ∧ m.Restored m') ∧
    (∀ heap' d, dispatchCall st faults heap dispatched = .error (heap', d) →
      d = dispatched ∧ heap'.2 - heap.2 = heap'.1 - heap.1) := by
  refine ⟨fun _ _ => scheduleWorkItem_error_restored, fun _ _ => scheduleWorkItem_error_restored,
    fun heap' d h => ?_⟩
  obtain ⟨rfl, hp⟩ := dispatchCall_eq_error h
  rcases tryPackage_eq_error hp with rfl | rfl <;> exact ⟨rfl, by simp⟩

theorem payload_throw_leaves_no_trace_after_allocate :
    threadPoolCall 24 ⟨32, 40, true⟩ ⟨false, true⟩ (Pool.init 1) Memory.empty 0 =
        .error (Pool.init 1, { Memory.empty with blocks := 1, allocations := 1 }) ∧
      Pool.init 1 = Pool.init 1 ∧
      Memory.empty.Restored { Memory.empty with blocks := 1, allocations := 1 } := by
  have h : threadPoolCall 24 ⟨32, 40, true⟩ ⟨false, true⟩ (Pool.init 1) Memory.empty 0 =
      .error (Pool.init 1, { Memory.empty with blocks := 1, allocations := 1 }) := rfl
  exact ⟨h, (payload_throw_leaves_no_trace 24 _ _ 0 Memory.empty (Pool.init 1) (Looper.init 1)
    .allocated (0, 0) 0).1 _ _ h⟩

end Schedulers
