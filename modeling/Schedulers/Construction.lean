import Schedulers.TaskQueue

/- The pool constructors (`part_004:577-617`, `part_003:128-130`, `schedulers.hpp:399-417`).
A factory that throws leaves the constructor body, so `_threads` is destroyed holding
joinable threads. -/

namespace Schedulers

/-- `_num_threads`, the queues, and `_threads` by index. -/
structure Members where
  numThreads : Nat
  queues : List ThreadPoolTaskQueue
  threads : List Nat
  deriving DecidableEq, Repr

inductive Construction
  | constructed (m : Members)
  | propagated (m : Members)
  | terminated (m : Members)
  deriving DecidableEq, Repr

/-- `_threads.emplace_back(f(i, _queues[i], ...))`; `factory i = false` when it throws. -/
def emplaceThread (factory : Nat → Bool) (threads : List Nat) (i : Nat) :
    Except (List Nat) (List Nat) :=
  if factory i then .ok (threads ++ [i]) else .error threads

/-- `start` (`part_004:604-617`). -/
def start (factory : Nat → Bool) : Nat → Except (List Nat) (List Nat)
  | 0 => .ok []
  | n + 1 => (start factory n).bind fun threads => emplaceThread factory threads n

/-- Unwinding out of a constructor body: `~thread()` of a joinable thread terminates. -/
def unwind (m : Members) : Construction :=
  if m.threads = [] then .propagated m else .terminated m

def construct (factory : Nat → Bool) (numThreads : Nat) : Construction :=
  let m : Members := ⟨numThreads, List.replicate numThreads .empty, []⟩
  match start factory numThreads with
  | .ok threads => .constructed { m with threads }
  | .error threads => unwind { m with threads }

/-- `basic_thread_pool(ThreadFactory f, unsigned num_threads)`. -/
def basicThreadPool (factory : Nat → Bool) (numThreads : Nat) : Construction :=
  construct factory (max 1 numThreads)

/-- `thread_pool(int num_threads) : basic_thread_pool(make_thread)`. -/
def threadPool (factory : Nat → Bool) (hardwareConcurrency : Nat) (_numThreads : Int) :
    Construction :=
  basicThreadPool factory hardwareConcurrency

/-- The old `thread_pool(F thread_factory, unsigned num_threads)`. -/
def oldThreadPool (factory : Nat → Bool) (numThreads : Nat) : Construction :=
  construct factory numThreads

/-! ### The loop that starts the threads -/

section Start

variable {factory : Nat → Bool}

theorem start_of_started {n : Nat} (h : ∀ i < n, factory i = true) :
    start factory n = .ok (List.range n) := by
  induction n with
  | zero => rfl
  | succ n ih =>
    rw [start, ih fun i hi => h i (by omega), List.range_succ]
    simp [Except.bind, emplaceThread, h n (by omega)]

theorem start_of_throw {k n : Nat} (hk : ∀ i < k, factory i = true) (hthrow : factory k = false)
    (hkn : k < n) : start factory n = .error (List.range k) := by
  induction n with
  | zero => omega
  | succ n ih =>
    rw [start]
    rcases Nat.lt_succ_iff_lt_or_eq.mp hkn with hlt | rfl
    · rw [ih hlt]; rfl
    · simp [start_of_started hk, Except.bind, emplaceThread, hthrow]

end Start

/-! ### What the constructors leave -/

theorem construct_of_started {factory : Nat → Bool} {n : Nat} (h : ∀ i < n, factory i = true) :
    construct factory n = .constructed ⟨n, List.replicate n .empty, List.range n⟩ := by
  simp only [construct, start_of_started h]

theorem construct_of_throw {factory : Nat → Bool} {k n : Nat} (hk : ∀ i < k, factory i = true)
    (hthrow : factory k = false) (hkn : k < n) :
    construct factory n = unwind ⟨n, List.replicate n .empty, List.range k⟩ := by
  simp only [construct, start_of_throw hk hthrow hkn]

theorem construct_of_throw_after_start {factory : Nat → Bool} {k n : Nat}
    (hk : ∀ i < k, factory i = true) (hthrow : factory k = false) (hpos : 0 < k) (hkn : k < n) :
    construct factory n = .terminated ⟨n, List.replicate n .empty, List.range k⟩ := by
  rw [construct_of_throw hk hthrow hkn, unwind, if_neg]
  simpa using Nat.pos_iff_ne_zero.mp hpos

theorem factory_throw_destroys_joinable_thread :
    basicThreadPool (fun i => decide (i < 1)) 2 =
        .terminated ⟨2, List.replicate 2 .empty, [0]⟩ ∧
      oldThreadPool (fun i => decide (i < 1)) 2 =
        .terminated ⟨2, List.replicate 2 .empty, [0]⟩ :=
  have h := @construct_of_throw_after_start (fun i => decide (i < 1)) 1 2
    (fun i hi => by simpa using hi) rfl Nat.one_pos (by decide)
  ⟨h, h⟩

/-! ### The thread count -/

theorem basicThreadPool_of_started {factory : Nat → Bool} {n : Nat}
    (h : ∀ i < max 1 n, factory i = true) :
    basicThreadPool factory n =
      .constructed ⟨max 1 n, List.replicate (max 1 n) .empty, List.range (max 1 n)⟩ ∧
      0 < max 1 n :=
  ⟨construct_of_started h, by omega⟩

theorem threadPool_of_started {factory : Nat → Bool} {hw : Nat} (h : ∀ i < max 1 hw, factory i = true)
    (n : Int) :
    threadPool factory hw n =
      .constructed ⟨max 1 hw, List.replicate (max 1 hw) .empty, List.range (max 1 hw)⟩ :=
  (basicThreadPool_of_started h).1

theorem thread_pool_count_not_forwarded :
    threadPool (fun _ => true) 4 2 = .constructed ⟨4, List.replicate 4 .empty, [0, 1, 2, 3]⟩ ∧
      oldThreadPool (fun _ => true) 0 = .constructed ⟨0, [], []⟩ :=
  ⟨@threadPool_of_started (fun _ => true) 4 (fun _ _ => rfl) 2, construct_of_started (n := 0) nofun⟩

end Schedulers
