import Mathlib.Algebra.BigOperators.Group.Finset
import Mathlib.Data.Multiset.OrderedMonoid
import Mathlib.Algebra.Order.Ring.Nat

/- The task queues (`part_003:27-114`) over work items seen from the outside; a locked
section is one step, and whether `try_to_lock` succeeds is an argument. -/

namespace Schedulers

/-- A `detail::work_item`: empty, or holding the task `schedule` accepted as `t`. -/
abbrev WorkItem := Option Nat

namespace WorkItem

/-- `work_item::operator=(work_item&&)` (`utils.hpp:261-277`): the target, then the source. -/
def moveAssign : WorkItem → WorkItem → Except String (WorkItem × WorkItem)
  | some _, _ => .error "must move to empty work_item"
  | none, none => .error "moved from work_item twice"
  | none, some t => .ok (some t, none)

/-- `work_item(work_item&&)`. -/
def moveConstruct (src : WorkItem) : Except String (WorkItem × WorkItem) :=
  moveAssign none src

def held : WorkItem → Multiset Nat
  | none => 0
  | some t => {t}

@[simp] theorem held_none : held none = 0 := rfl
@[simp] theorem held_some (t : Nat) : held (some t) = {t} := rfl

theorem moveAssign_eq_ok {dst src : WorkItem} {r : WorkItem × WorkItem} :
    moveAssign dst src = .ok r ↔ dst = none ∧ ∃ t, src = some t ∧ r = (some t, none) := by
  cases dst <;> cases src <;> simp [moveAssign, eq_comm]

end WorkItem

open WorkItem

def queued (l : List WorkItem) : Multiset Nat := (l.map held).sum

@[simp] theorem queued_nil : queued [] = 0 := rfl
@[simp] theorem queued_cons (x : WorkItem) (l : List WorkItem) :
    queued (x :: l) = held x + queued l := by simp [queued]
@[simp] theorem queued_append (l l' : List WorkItem) :
    queued (l ++ l') = queued l + queued l' := by simp [queued]

theorem mem_queued {x : Nat} {l : List WorkItem} : x ∈ queued l ↔ some x ∈ l := by
  induction l with
  | nil => simp
  | cons y l ih => cases y <;> simp [ih, eq_comm]

theorem except_map_eq_ok {ε α β : Type} {g : α → β} {x : Except ε α} {r : β} :
    x.map g = .ok r ↔ ∃ a, x = .ok a ∧ g a = r := by
  cases x <;> simp [Except.map]

/-- `f = move(_queue.front()); _queue.pop_front();` -/
def takeFront (f front : WorkItem) (rest : List WorkItem) :
    Except String (WorkItem × List WorkItem) :=
  (moveAssign f front).map fun (f, _) => (f, rest)

/-- `_queue.emplace_back(move(f))`. -/
def emplaceBack (queue : List WorkItem) (f : WorkItem) :
    Except String (WorkItem × List WorkItem) :=
  (moveConstruct f).map fun (x, f) => (f, queue ++ [x])

theorem except_map_eq_error {ε α β : Type} {g : α → β} {x : Except ε α} {e : ε} :
    x.map g = .error e ↔ x = .error e := by
  cases x <;> simp [Except.map]

theorem takeFront_eq_ok {f front f' : WorkItem} {rest l : List WorkItem} :
    takeFront f front rest = .ok (f', l) ↔
      f = none ∧ ∃ t, front = some t ∧ f' = some t ∧ l = rest := by
  cases f <;> cases front <;> simp [takeFront, moveAssign, Except.map, eq_comm]

theorem emplaceBack_eq_ok {l l' : List WorkItem} {f f' : WorkItem} :
    emplaceBack l f = .ok (f', l') ↔ ∃ t, f = some t ∧ f' = none ∧ l' = l ++ [some t] := by
  cases f <;>
    simp [emplaceBack, moveConstruct, moveAssign, Except.map, eq_comm]

theorem takeFront_ne_error {front : WorkItem} (hx : front ≠ none) (rest : List WorkItem)
    (e : String) : takeFront none front rest ≠ .error e := by
  cases front <;> simp_all [takeFront, moveAssign, except_map_eq_error]

theorem emplaceBack_ne_error {f : WorkItem} (hf : f ≠ none) (l : List WorkItem) (e : String) :
    emplaceBack l f ≠ .error e := by
  cases f <;> simp_all [emplaceBack, moveConstruct, moveAssign, except_map_eq_error]

/-! ### `thread_pool_task_queue` -/

/-- `thread_pool_task_queue`; its mutex and `_ready` are the interleaving itself. -/
structure ThreadPoolTaskQueue where
  queue : List WorkItem
  done : Bool
  deriving DecidableEq, Repr

namespace ThreadPoolTaskQueue

def empty : ThreadPoolTaskQueue := ⟨[], false⟩

/-- `done()`. -/
def setDone (q : ThreadPoolTaskQueue) : ThreadPoolTaskQueue := { q with done := true }

/-- `try_pop(f)`: the result, the caller's `f` and the queue. -/
def tryPop (q : ThreadPoolTaskQueue) (locked : Bool) (f : WorkItem) :
    Except String (Bool × WorkItem × ThreadPoolTaskQueue) :=
  match locked, q.queue with
  | false, _ => .ok (false, f, q)
  | true, [] => .ok (false, f, q)
  | true, front :: rest =>
    (takeFront f front rest).map fun (f, rest) => (true, f, { q with queue := rest })

/-- `try_push(f)`. -/
def tryPush (q : ThreadPoolTaskQueue) (locked : Bool) (f : WorkItem) :
    Except String (Bool × WorkItem × ThreadPoolTaskQueue) :=
  if locked then (emplaceBack q.queue f).map fun (f, queue) => (true, f, { q with queue })
  else .ok (false, f, q)

/-- `pop(f)`: `none` while the caller waits on `_ready`. -/
def pop (q : ThreadPoolTaskQueue) (f : WorkItem) :
    Option (Except String (Bool × WorkItem × ThreadPoolTaskQueue)) :=
  match q.queue with
  | [] => if q.done then some (.ok (false, f, q)) else none
  | front :: rest =>
    some ((takeFront f front rest).map fun (f, rest) => (true, f, { q with queue := rest }))

/-- `push(f)`. -/
def push (q : ThreadPoolTaskQueue) (f : WorkItem) :
    Except String (WorkItem × ThreadPoolTaskQueue) :=
  (emplaceBack q.queue f).map fun (f, queue) => (f, { q with queue })

end ThreadPoolTaskQueue

/-- A queue operation moves items between `f` and the deque, all non-empty, and keeps `_done`. -/
structure Transfer (f : WorkItem) (q : ThreadPoolTaskQueue) (f' : WorkItem)
    (q' : ThreadPoolTaskQueue) : Prop where
  tasks : held f' + queued q'.queue = held f + queued q.queue
  filled : none ∉ q.queue → none ∉ q'.queue
  done : q'.done = q.done

theorem Transfer.refl (f : WorkItem) (q : ThreadPoolTaskQueue) : Transfer f q f q :=
  ⟨rfl, id, rfl⟩

theorem takeFront_transfer {q : ThreadPoolTaskQueue} {f front f' : WorkItem}
    {rest l : List WorkItem} (hq : q.queue = front :: rest) (h : takeFront f front rest = .ok (f', l)) :
    Transfer f q f' { q with queue := l } := by
  obtain ⟨rfl, t, rfl, rfl, rfl⟩ := takeFront_eq_ok.mp h
  exact ⟨by simp [hq, add_comm], fun h' => by simp_all, rfl⟩

theorem emplaceBack_transfer {q : ThreadPoolTaskQueue} {f f' : WorkItem} {l : List WorkItem}
    (h : emplaceBack q.queue f = .ok (f', l)) : Transfer f q f' { q with queue := l } := by
  obtain ⟨t, rfl, rfl, rfl⟩ := emplaceBack_eq_ok.mp h
  exact ⟨by simp [add_comm], by simp, rfl⟩

namespace ThreadPoolTaskQueue

variable {q q' : ThreadPoolTaskQueue} {f f' : WorkItem} {locked b : Bool}

theorem tryPop_spec (h : tryPop q locked f = .ok (b, f', q')) :
    Transfer f q f' q' ∧ (b = true → f' ≠ none) ∧ (b = false → f' = f ∧ q' = q) := by
  unfold tryPop at h
  split at h
  · cases h; exact ⟨.refl _ _, by simp, fun _ => ⟨rfl, rfl⟩⟩
  · cases h; exact ⟨.refl _ _, by simp, fun _ => ⟨rfl, rfl⟩⟩
  · rename_i front rest hq
    obtain ⟨⟨f₁, l⟩, ht, h⟩ := except_map_eq_ok.mp h
    cases h
    obtain ⟨-, t, -, rfl, -⟩ := takeFront_eq_ok.mp ht
    exact ⟨takeFront_transfer hq ht, by simp, by simp⟩

theorem tryPush_spec (h : tryPush q locked f = .ok (b, f', q')) :
    Transfer f q f' q' ∧ (b = true → f' = none) ∧ (b = false → f' = f ∧ q' = q) := by
  unfold tryPush at h
  split at h
  · obtain ⟨⟨f₁, l⟩, he, h⟩ := except_map_eq_ok.mp h
    cases h
    obtain ⟨t, -, rfl, -⟩ := emplaceBack_eq_ok.mp he
    exact ⟨emplaceBack_transfer he, fun _ => rfl, by simp⟩
  · cases h; exact ⟨.refl _ _, by simp, fun _ => ⟨rfl, rfl⟩⟩

theorem pop_spec (h : pop q f = some (.ok (b, f', q'))) :
    Transfer f q f' q' ∧ (b = true → f' ≠ none) ∧
      (b = false → q.queue = [] ∧ q.done = true ∧ f' = f ∧ q' = q) := by
  unfold pop at h
  split at h
  · rename_i hq
    split at h
    · cases h; exact ⟨.refl _ _, by simp, fun _ => ⟨hq, by assumption, rfl, rfl⟩⟩
    · cases h
  · rename_i front rest hq
    obtain ⟨⟨f₁, l⟩, ht, h⟩ := except_map_eq_ok.mp (Option.some.inj h)
    cases h
    obtain ⟨-, t, -, rfl, -⟩ := takeFront_eq_ok.mp ht
    exact ⟨takeFront_transfer hq ht, by simp, by simp⟩

theorem push_spec (h : push q f = .ok (f', q')) : Transfer f q f' q' ∧ f' = none := by
  obtain ⟨⟨f₁, l⟩, he, h⟩ := except_map_eq_ok.mp h
  cases h
  exact ⟨emplaceBack_transfer he, (emplaceBack_eq_ok.mp he).choose_spec.2.1⟩

theorem tryPop_ne_error (hq : none ∉ q.queue) (locked : Bool) (e : String) :
    tryPop q locked none ≠ .error e := by
  unfold tryPop
  split
  · simp
  · simp
  · rename_i front rest h
    rw [Ne, except_map_eq_error]
    exact takeFront_ne_error (fun hx => hq (by simp [h, hx])) rest e

theorem tryPush_ne_error (hf : f ≠ none) (locked : Bool) (e : String) :
    tryPush q locked f ≠ .error e := by
  unfold tryPush
  split
  · rw [Ne, except_map_eq_error]; exact emplaceBack_ne_error hf _ e
  · simp

theorem pop_ne_error (hq : none ∉ q.queue) (e : String) : pop q none ≠ some (.error e) := by
  unfold pop
  split
  · split <;> simp
  · rename_i front rest h
    rw [Ne, Option.some.injEq, except_map_eq_error]
    exact takeFront_ne_error (fun hx => hq (by simp [h, hx])) rest e

theorem push_ne_error (hf : f ≠ none) (e : String) : push q f ≠ .error e := by
  rw [push, Ne, except_map_eq_error]; exact emplaceBack_ne_error hf _ e

theorem tryPop_queue (h : tryPop q locked f = .ok (b, f', q')) :
    q'.queue = q.queue ∨ q.queue = f' :: q'.queue := by
  unfold tryPop at h
  split at h
  · cases h; exact .inl rfl
  · cases h; exact .inl rfl
  · rename_i front rest hq
    obtain ⟨⟨f₁, l⟩, ht, h⟩ := except_map_eq_ok.mp h
    cases h
    obtain ⟨-, t, rfl, rfl, rfl⟩ := takeFront_eq_ok.mp ht
    exact .inr hq

theorem pop_queue (h : pop q f = some (.ok (b, f', q'))) :
    q'.queue = q.queue ∨ q.queue = f' :: q'.queue := by
  unfold pop at h
  split at h
  · split at h <;> cases h
    exact .inl rfl
  · rename_i front rest hq
    obtain ⟨⟨f₁, l⟩, ht, h⟩ := except_map_eq_ok.mp (Option.some.inj h)
    cases h
    obtain ⟨-, t, rfl, rfl, rfl⟩ := takeFront_eq_ok.mp ht
    exact .inr hq

theorem tryPush_queue (h : tryPush q locked f = .ok (b, f', q')) :
    q'.queue = q.queue ∨ q'.queue = q.queue ++ [f] := by
  unfold tryPush at h
  split at h
  · obtain ⟨⟨f₁, l⟩, he, h⟩ := except_map_eq_ok.mp h
    cases h
    obtain ⟨t, rfl, -, rfl⟩ := emplaceBack_eq_ok.mp he
    exact .inr rfl
  · cases h; exact .inl rfl

theorem push_queue (h : push q f = .ok (f', q')) : q'.queue = q.queue ++ [f] := by
  obtain ⟨⟨f₁, l⟩, he, h⟩ := except_map_eq_ok.mp h
  cases h
  obtain ⟨t, rfl, -, rfl⟩ := emplaceBack_eq_ok.mp he
  rfl

end ThreadPoolTaskQueue

/-! ### `main_thread_task_queue` -/

/-- `main_thread_task_queue`. -/
structure MainThreadTaskQueue where
  queue : List WorkItem
  deriving DecidableEq, Repr

namespace MainThreadTaskQueue

/-- `clear()`. -/
def clear (_ : MainThreadTaskQueue) : MainThreadTaskQueue := ⟨[]⟩

def push (q : MainThreadTaskQueue) (f : WorkItem) :
    Except String (WorkItem × MainThreadTaskQueue) :=
  (emplaceBack q.queue f).map fun (f, queue) => (f, ⟨queue⟩)

/-- `try_pop(f)`. -/
def tryPop (q : MainThreadTaskQueue) (f : WorkItem) :
    Except String (Bool × WorkItem × MainThreadTaskQueue) :=
  match q.queue with
  | [] => .ok (false, f, q)
  | front :: rest => (takeFront f front rest).map fun (f, rest) => (true, f, ⟨rest⟩)

end MainThreadTaskQueue

end Schedulers
