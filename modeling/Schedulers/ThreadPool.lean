import Schedulers.TaskQueue
import Schedulers.Dispatch

/- `basic_thread_pool` (`part_004:571-701`) with `N` queues and every thread running its
code: the workers, the callers of `schedule`, and the destructor. An interleaving is a
sequence of `step`s; tasks are numbered in the order `schedule` accepted them. -/

namespace Schedulers

open WorkItem

/-- `rounds` in `run`. -/
def rounds : Nat := 8

/-- A call of `schedule(work_t&& f)` in progress: `f`, `thread` and the loop counter `i`. -/
structure Schedule where
  f : WorkItem
  thread : Nat
  i : Nat
  deriving DecidableEq, Repr

inductive RunPc
  | top
  | steal (i : Nat)
  | check
  | call
  | task
  | schedule (c : Schedule)
  | exited
  deriving DecidableEq, Repr

structure Worker where
  pc : RunPc
  f : WorkItem
  deriving DecidableEq, Repr

inductive Teardown
  | running
  | done (i : Nat)
  | join (i : Nat)
  | destroyed
  deriving DecidableEq, Repr

structure Pool (N : Nat) where
  queues : Fin N → ThreadPoolTaskQueue
  workers : Fin N → Worker
  callers : Multiset Schedule
  nextThread : Nat
  teardown : Teardown
  accepted : Nat
  invoked : List Nat
  dropped : Multiset Nat

inductive Action (N : Nat)
  | call
  | caller (c : Schedule) (locked : Bool)
  | worker (k : Fin N) (locked : Bool)
  | spawn (k : Fin N)
  | teardown

variable {N : Nat} [NeZero N]

/-- The pool as the constructor leaves it. -/
def Pool.init (N : Nat) : Pool N where
  queues _ := .empty
  workers _ := ⟨.top, none⟩
  callers := 0
  nextThread := 0
  teardown := .running
  accepted := 0
  invoked := []
  dropped := 0

/-- A new call of `schedule`: `auto thread = _next_thread++;`. -/
def Pool.newCall (s : Pool N) : Schedule := ⟨some s.accepted, s.nextThread, 0⟩

/-- One step of `schedule(work_t&& f)`; the call is `none` once it has returned. -/
def scheduleStep (qs : Fin N → ThreadPoolTaskQueue) (c : Schedule) (locked : Bool) :
    Except String (Option Schedule × (Fin N → ThreadPoolTaskQueue)) :=
  if c.i < N then
    let j : Fin N := ⟨attemptQueue N c.thread c.i, attemptQueue_lt (Nat.pos_of_neZero N) _ _⟩
    match (qs j).tryPush locked c.f with
    | .error e => .error e
    | .ok (true, _, q) => .ok (none, Function.update qs j q)
    | .ok (false, f, q) => .ok (some { c with f, i := c.i + 1 }, Function.update qs j q)
  else
    let j : Fin N := ⟨fallbackQueue N c.thread, fallbackQueue_lt (Nat.pos_of_neZero N) _⟩
    match (qs j).push c.f with
    | .error e => .error e
    | .ok (_, q) => .ok (none, Function.update qs j q)

/-- `(index + i) % _num_threads`. -/
def stealQueue (k : Fin N) (i : Nat) : Fin N :=
  ⟨(k.val + i) % N, Nat.mod_lt _ (Nat.pos_of_neZero N)⟩

/-- One step of `run(k)`: the worker, the queues and the task it invoked. -/
def runStep (k : Fin N) (qs : Fin N → ThreadPoolTaskQueue) (w : Worker) (locked : Bool) :
    Option (Except String (Worker × (Fin N → ThreadPoolTaskQueue) × Option Nat)) :=
  match w.pc with
  | .top => some (.ok (⟨.steal 0, none⟩, qs, none))
  | .steal i =>
    if i < N * rounds then
      let j := stealQueue k i
      some <| match (qs j).tryPop locked w.f with
        | .error e => .error e
        | .ok (true, f, q) => .ok (⟨.check, f⟩, Function.update qs j q, none)
        | .ok (false, f, q) => .ok (⟨.steal (i + 1), f⟩, Function.update qs j q, none)
    else some (.ok (⟨.check, w.f⟩, qs, none))
  | .check =>
    match w.f with
    | some t => some (.ok (⟨.call, some t⟩, qs, none))
    | none => ((qs k).pop none).map fun
      | .error e => .error e
      | .ok (true, f, q) => .ok (⟨.call, f⟩, Function.update qs k q, none)
      | .ok (false, f, q) => .ok (⟨.exited, f⟩, Function.update qs k q, none)
  | .call =>
    match w.f with
    | none => some (.error "null _target")
    | some t => some (.ok (⟨.task, none⟩, qs, some t))
  | .task => some (.ok (⟨.top, none⟩, qs, none))
  | .schedule c =>
    some <| match scheduleStep qs c locked with
      | .error e => .error e
      | .ok (none, qs) => .ok (⟨.task, w.f⟩, qs, none)
      | .ok (some c, qs) => .ok (⟨.schedule c, w.f⟩, qs, none)
  | .exited => none

def queuedAll (qs : Fin N → ThreadPoolTaskQueue) : Multiset Nat := ∑ i, queued (qs i).queue

/-- One step of `~basic_thread_pool` (`part_004:591-602`), once no outside call is in progress. -/
def teardownStep (s : Pool N) : Option (Pool N) :=
  match s.teardown with
  | .running => if s.callers = 0 then some { s with teardown := .done 0 } else none
  | .done i =>
    if h : i < N then
      some { s with queues := Function.update s.queues ⟨i, h⟩ (s.queues ⟨i, h⟩).setDone,
                    teardown := .done (i + 1) }
    else some { s with teardown := .join 0 }
  | .join i =>
    if h : i < N then
      if (s.workers ⟨i, h⟩).pc = .exited then some { s with teardown := .join (i + 1) } else none
    else
      some { s with queues := fun j => { s.queues j with queue := [] },
                    teardown := .destroyed, dropped := s.dropped + queuedAll s.queues }
  | .destroyed => none

def replaceCall (m : Multiset Schedule) (c : Schedule) : Option Schedule → Multiset Schedule
  | none => m.erase c
  | some d => d ::ₘ m.erase c

/-- One step of a thread; an error is a `work_item` assertion that fires. -/
def step (s : Pool N) : Action N → Option (Except String (Pool N))
  | .call =>
    if s.teardown = .running then
      some (.ok { s with callers := s.newCall ::ₘ s.callers, accepted := s.accepted + 1,
                         nextThread := nextThreadAfter s.nextThread })
    else none
  | .caller c locked =>
    if c ∈ s.callers then
      some <| (scheduleStep s.queues c locked).map fun (c', qs) =>
        { s with queues := qs, callers := replaceCall s.callers c c' }
    else none
  | .worker k locked =>
    (runStep k s.queues (s.workers k) locked).map fun r => r.map fun (w, qs, t) =>
      { s with workers := Function.update s.workers k w, queues := qs,
               invoked := s.invoked ++ t.toList }
  | .spawn k =>
    if (s.workers k).pc = .task then
      some (.ok { s with workers := Function.update s.workers k ⟨.schedule s.newCall, (s.workers k).f⟩,
                         accepted := s.accepted + 1, nextThread := nextThreadAfter s.nextThread })
    else none
  | .teardown => (teardownStep s).map .ok

def runActions (s : Pool N) : List (Action N) → Option (Pool N)
  | [] => some s
  | a :: acts =>
    match step s a with
    | some (.ok t) => runActions t acts
    | _ => none

inductive Reachable : Pool N → Prop
  | init : Reachable (Pool.init N)
  | step {s t : Pool N} (a : Action N) : Reachable s → step s a = some (.ok t) → Reachable t

theorem runActions_cons {s t : Pool N} {a : Action N} {acts : List (Action N)}
    (h : runActions s (a :: acts) = some t) :
    ∃ u, step s a = some (.ok u) ∧ runActions u acts = some t := by
  simp only [runActions] at h
  split at h
  · exact ⟨_, ‹_›, h⟩
  · cases h

theorem Reachable.runActions {s t : Pool N} (hs : Reachable s) {acts : List (Action N)}
    (h : runActions s acts = some t) : Reachable t := by
  induction acts generalizing s with
  | nil => cases h; exact hs
  | cons a acts ih =>
    obtain ⟨u, hu, h⟩ := runActions_cons h
    exact ih (hs.step a hu) h

end Schedulers
