import Schedulers.PoolInvariant

/- What the pool is for: a bag of tasks accepted in order, each invoked or destroyed once.
Every step of the pool is a step of the bag or leaves it as it is. -/

namespace Schedulers

structure TaskBag where
  accepted : Nat
  invoked : List Nat
  dropped : Multiset Nat
  destroyed : Bool

namespace TaskBag

def pending (b : TaskBag) : Multiset Nat := Multiset.range b.accepted - ↑b.invoked - b.dropped

inductive Step : TaskBag → TaskBag → Prop
  | accept {b : TaskBag} : b.destroyed = false → Step b { b with accepted := b.accepted + 1 }
  | invoke {b : TaskBag} {x : Nat} : x ∈ b.pending → Step b { b with invoked := b.invoked ++ [x] }
  | destroy {b : TaskBag} : b.destroyed = false →
      Step b { b with dropped := b.dropped + b.pending, destroyed := true }

def init : TaskBag := ⟨0, [], 0, false⟩

inductive Reachable : TaskBag → Prop
  | init : Reachable init
  | step {b b' : TaskBag} : Reachable b → Step b b' → Reachable b'

/-- Each accepted task is invoked or destroyed at most once, and once destroyed, exactly once. -/
structure Inv (b : TaskBag) : Prop where
  once : ↑b.invoked + b.dropped ≤ Multiset.range b.accepted
  closed : b.destroyed = true → ↑b.invoked + b.dropped = Multiset.range b.accepted

theorem pending_eq (b : TaskBag) :
    b.pending = Multiset.range b.accepted - (↑b.invoked + b.dropped) :=
  tsub_tsub _ _ _

theorem Inv.step {b b' : TaskBag} (hi : b.Inv) (h : Step b b') : b'.Inv := by
  cases h with
  | accept hd =>
    exact ⟨hi.once.trans (Multiset.range_le.mpr (Nat.le_succ _)), fun h => by simp [hd] at h⟩
  | @invoke x hx =>
    rw [pending_eq] at hx
    have hle := (le_tsub_iff_left hi.once).mp (Multiset.singleton_le.mpr hx)
    refine ⟨?_, fun hd => ?_⟩
    · rwa [← Multiset.coe_add, Multiset.coe_singleton, add_right_comm]
    · rw [hi.closed hd, tsub_self] at hx
      exact absurd hx (Multiset.not_mem_zero x)
  | destroy hd =>
    have h : ↑b.invoked + (b.dropped + b.pending) = Multiset.range b.accepted := by
      rw [← add_assoc, pending_eq, add_tsub_cancel_of_le hi.once]
    exact ⟨h.le, fun _ => h⟩

theorem Reachable.inv {b : TaskBag} (hb : b.Reachable) : b.Inv := by
  induction hb with
  | init => exact ⟨le_refl _, fun h => nomatch h⟩
  | step _ h ih => exact ih.step h

end TaskBag

variable {N : Nat}

/-- The bag of a pool: its record of tasks, destroyed once the members are. -/
def Pool.bag (s : Pool N) : TaskBag :=
  ⟨s.accepted, s.invoked, s.dropped, decide (s.teardown = .destroyed)⟩

variable [NeZero N] {s t : Pool N}

omit [NeZero N] in
theorem Pool.Inv.pending_eq (hi : s.Inv) :
    s.bag.pending = queuedAll s.queues + ∑ k, (s.workers k).tasks + callersTasks s.callers := by
  rw [TaskBag.pending, Pool.bag]
  dsimp only
  rw [← hi.places, Pool.places, tsub_tsub, add_assoc _ (s.invoked : Multiset Nat),
    add_tsub_cancel_right]

theorem Pool.Inv.invoked_pending (hi : s.Inv) {k : Fin N} {l : Bool} {w' : Worker}
    {qs' : Fin N → ThreadPoolTaskQueue} {x : Nat}
    (hrun : runStep k s.queues (s.workers k) l = some (.ok (w', qs', some x))) :
    x ∈ s.bag.pending := by
  have ht := (runStep_ok hrun (hi.workers k)).2.1.tasks
  have hx : x ∈ queuedAll s.queues + (s.workers k).tasks := by
    rw [← ht]; simp
  rw [hi.pending_eq]
  rcases Multiset.mem_add.mp hx with hx | hx
  · exact Multiset.mem_add.mpr (.inl (Multiset.mem_add.mpr (.inl hx)))
  · exact Multiset.mem_add.mpr (.inl (Multiset.mem_add.mpr
      (.inr (Multiset.mem_sum.mpr ⟨k, Finset.mem_univ k, hx⟩))))

omit [NeZero N] in
theorem Pool.Inv.pending_of_joined (hi : s.Inv) {i : Nat} (hN : N ≤ i)
    (hj : s.teardown = .join i) : s.bag.pending = queuedAll s.queues := by
  have hworkers : ∀ k, (s.workers k).tasks = 0 := fun k => by
    have hx := hi.joined i k hj (by omega)
    have := hi.workers k
    simp_all [Worker.Ok, Worker.tasks]
  rw [hi.pending_eq, hi.quiet (by simp [hj])]
  simp [hworkers, callersTasks]

theorem Pool.Inv.bag_step (hi : s.Inv) {a : Action N} (h : step s a = some (.ok t)) :
    t.bag = s.bag ∨ TaskBag.Step s.bag t.bag := by
  cases a with
  | call =>
    simp only [step, Option.ite_none_right_eq_some, Option.some.injEq, Except.ok.injEq] at h
    obtain ⟨hr, rfl⟩ := h
    exact .inr (.accept (by simp [Pool.bag, hr]))
  | caller c l =>
    obtain ⟨-, c', qs', -, rfl⟩ := step_caller_ok h
    exact .inl rfl
  | worker k l =>
    obtain ⟨w', qs', o, hrun, rfl⟩ := step_worker_ok h
    cases o with
    | none => exact .inl (by simp [Pool.bag])
    | some x => exact .inr (.invoke (hi.invoked_pending hrun))
  | spawn k =>
    simp only [step, Option.ite_none_right_eq_some, Option.some.injEq, Except.ok.injEq] at h
    obtain ⟨hk, rfl⟩ := h
    have hd : s.teardown ≠ .destroyed := fun hd => by simp [(hi.destroyed hd).1 k] at hk
    exact .inr (.accept (by simp [Pool.bag, hd]))
  | teardown =>
    rcases teardownStep_cases h with ⟨hr, -, rfl⟩ | ⟨i, -, hd, rfl⟩ | ⟨i, -, hd, rfl⟩ |
      ⟨i, -, hd, -, rfl⟩ | ⟨i, hN, hd, rfl⟩
    · exact .inl (by simp [Pool.bag, hr])
    · exact .inl (by simp [Pool.bag, hd])
    · exact .inl (by simp [Pool.bag, hd])
    · exact .inl (by simp [Pool.bag, hd])
    · have hstep := @TaskBag.Step.destroy s.bag (by simp [Pool.bag, hd])
      rw [hi.pending_of_joined hN hd] at hstep
      exact .inr hstep

theorem Reachable.bag (hs : Reachable s) : s.bag.Reachable := by
  induction hs with
  | init => exact .init
  | step _ hs hst ih =>
    rcases hs.inv.bag_step hst with e | e
    · exact e ▸ ih
    · exact .step ih e

theorem pool_refines_task_bag (hs : Reachable s) {a : Action N} (h : step s a = some (.ok t)) :
    (t.bag = s.bag ∨ TaskBag.Step s.bag t.bag) ∧ t.bag.Reachable :=
  ⟨hs.inv.bag_step h, (hs.step a h).bag⟩

theorem pool_refines_task_bag_invoke :
    ∃ s t : Pool 1, Reachable s ∧ step s (.worker 0 true) = some (.ok t) ∧ t.invoked = [0] ∧
      ((t.bag = s.bag ∨ TaskBag.Step s.bag t.bag) ∧ t.bag.Reachable) := by
  have hs := Reachable.init.runActions (show runActions (Pool.init 1)
    [.call, .caller ⟨some 0, 0, 0⟩ true, .worker 0 true, .worker 0 true, .worker 0 true] =
      some _ from rfl)
  exact ⟨_, _, hs, rfl, rfl, @pool_refines_task_bag 1 _ _ _ hs (.worker 0 true) rfl⟩

end Schedulers
