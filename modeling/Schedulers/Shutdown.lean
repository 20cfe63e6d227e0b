import Schedulers.PoolInvariant

/- Shutdown (`part_004:591-602`): once every queue is done and no task calls the pool, every
step lowers `Pool.measure`, and a stuck state has every thread finished. -/

namespace Schedulers

open WorkItem

variable {N : Nat}

/-- A step that submits no task. -/
def Action.Quiet : Action N → Prop
  | .call => False
  | .spawn _ => False
  | _ => True

instance (a : Action N) : Decidable a.Quiet :=
  match a with
  | .call => isFalse id
  | .spawn _ => isFalse id
  | .caller _ _ => isTrue trivial
  | .worker _ _ => isTrue trivial
  | .teardown => isTrue trivial

/-- More than the steps of one iteration of `run`. -/
def taskWeight (N : Nat) : Nat := N * rounds + 5

def RunPc.rank (N : Nat) : RunPc → Nat
  | .top => N * rounds + 3
  | .steal i => (N * rounds - i) + 2
  | .check => 1
  | .call => 0
  | .task => N * rounds + 4
  | .schedule c => N * rounds + 4 + (N - c.i) + 1
  | .exited => 0

def Schedule.rank (N : Nat) (c : Schedule) : Nat := (N - c.i) + 1

def Teardown.rank (N : Nat) : Teardown → Nat
  | .running => 2 * N + 4
  | .done i => (N - i) + N + 3
  | .join i => (N - i) + 1
  | .destroyed => 0

def Pool.live (s : Pool N) : Multiset Nat :=
  queuedAll s.queues + ∑ k, (s.workers k).tasks + callersTasks s.callers

/-- The shutdown measure. -/
def Pool.measure (s : Pool N) : Nat :=
  taskWeight N * Multiset.card s.live + ∑ k, (s.workers k).pc.rank N +
    (s.callers.map (Schedule.rank N)).sum + s.teardown.rank N

theorem RunPc.Edge.rank_lt {p p' : RunPc} {o : Option Nat} (h : RunPc.Edge N p p' o) :
    p'.rank N < p.rank N + taskWeight N * o.toList.length := by
  cases h <;> simp [RunPc.rank, taskWeight] <;> omega

theorem measure_lt_of {W x y o r r' c c' d d' : Nat} (hy : y = x + o)
    (h : r' + c' + d' < r + c + d + W * o) : W * x + r' + c' + d' < W * y + r + c + d := by
  subst hy; rw [Nat.mul_add]; omega

variable [NeZero N] {s t : Pool N}

theorem Pool.Inv.measure_worker (hi : s.Inv) {k : Fin N} {l : Bool}
    (h : step s (.worker k l) = some (.ok t)) : t.measure < s.measure := by
  obtain ⟨w', qs', o, hr, rfl⟩ := step_worker_ok h
  obtain ⟨-, hq, he⟩ := runStep_ok hr (hi.workers k)
  have h1 := congrArg Multiset.card hq.tasks
  have h2 := congrArg Multiset.card (sum_update_add s.workers Worker.tasks k w')
  have h3 := sum_update_add s.workers (fun w => w.pc.rank N) k w'
  have h4 := he.rank_lt
  simp only [Multiset.card_add, Multiset.coe_card] at h1 h2
  refine measure_lt_of (o := o.toList.length) ?_ (by simp only at h3 ⊢; omega)
  simp only [Pool.live, Multiset.card_add]
  omega

theorem Pool.Inv.measure_caller {c : Schedule} {l : Bool}
    (h : step s (.caller c l) = some (.ok t)) : t.measure < s.measure := by
  obtain ⟨hc, c', qs', hs, rfl⟩ := step_caller_ok h
  obtain ⟨hq, hd⟩ := scheduleStep_ok hs
  have h1 := congrArg Multiset.card hq.tasks
  have h2 := congrArg Multiset.card (callersTasks_replaceCall hc c')
  have h3 := sum_map_replaceCall (Schedule.rank N) hc c'
  have h4 : c'.elim 0 (Schedule.rank N) < c.rank N := by
    cases c' with
    | none => simp [Schedule.rank]
    | some d => obtain ⟨rfl, hd⟩ := hd d rfl; simp [Schedule.rank]; omega
  simp only [Multiset.card_add] at h1 h2
  refine measure_lt_of (o := 0) ?_ (by simp only at h3 ⊢; omega)
  simp only [Pool.live, Multiset.card_add]
  omega

theorem Pool.Inv.measure_teardown (h : step s .teardown = some (.ok t)) :
    t.measure < s.measure := by
  rcases teardownStep_cases h with ⟨hr, -, rfl⟩ | ⟨i, hN, hd, rfl⟩ | ⟨i, hN, hd, rfl⟩ |
    ⟨i, hN, hd, -, rfl⟩ | ⟨i, hN, hd, rfl⟩
  · exact measure_lt_of (o := 0) rfl (by simp only [Teardown.rank, *]; omega)
  · exact measure_lt_of (o := 0) (by simp [Pool.live, queuedAll_setDone])
      (by simp only [Teardown.rank, *]; omega)
  · exact measure_lt_of (o := 0) rfl (by simp only [Teardown.rank, *]; omega)
  · exact measure_lt_of (o := 0) rfl (by simp only [Teardown.rank, *]; omega)
  · refine measure_lt_of (o := Multiset.card (queuedAll s.queues)) ?_
      (by simp only [Teardown.rank, *]; omega)
    simp [Pool.live, queuedAll]
    omega

theorem Pool.Inv.measure_lt (hi : s.Inv) {a : Action N} (ha : a.Quiet)
    (h : step s a = some (.ok t)) : t.measure < s.measure := by
  cases a with
  | call => exact ha.elim
  | spawn k => exact ha.elim
  | caller c l => exact Pool.Inv.measure_caller h
  | worker k l => exact hi.measure_worker h
  | teardown => exact Pool.Inv.measure_teardown h

/-! ### Progress -/

theorem Pool.Inv.done_mono (hi : s.Inv) {a : Action N} (h : step s a = some (.ok t)) (i : Fin N)
    (hd : (s.queues i).done = true) : (t.queues i).done = true := by
  cases a with
  | caller c l =>
    obtain ⟨-, c', qs', hs, rfl⟩ := step_caller_ok h
    exact ((scheduleStep_ok hs).1.done i).trans hd
  | worker k l =>
    obtain ⟨w', qs', o, hr, rfl⟩ := step_worker_ok h
    exact ((runStep_ok hr (hi.workers k)).2.1.done i).trans hd
  | teardown =>
    rcases teardownStep_cases h with ⟨-, -, rfl⟩ | ⟨j, hN, -, rfl⟩ | ⟨-, -, -, rfl⟩ |
      ⟨-, -, -, -, rfl⟩ | ⟨-, -, -, rfl⟩
    all_goals try exact hd
    rcases eq_or_ne i ⟨j, hN⟩ with rfl | hij
    · simp [ThreadPoolTaskQueue.setDone]
    · simpa [hij] using hd
  | call => simp only [step] at h; split at h <;> cases h; exact hd
  | spawn k => simp only [step] at h; split at h <;> cases h; exact hd

theorem runStep_isSome {k : Fin N} {qs : Fin N → ThreadPoolTaskQueue} {w : Worker}
    (hd : (qs k).done = true) (hne : w.pc ≠ .exited) (locked : Bool) :
    (runStep k qs w locked).isSome := by
  obtain ⟨pc, f⟩ := w
  cases pc with
  | steal i => simp only [runStep]; split <;> rfl
  | check =>
    cases f with
    | some t => rfl
    | none =>
      simp only [runStep, ThreadPoolTaskQueue.pop, Option.isSome_map']
      split <;> simp [hd]
  | call => cases f <;> rfl
  | exited => exact absurd rfl hne
  | _ => rfl

theorem Pool.Inv.worker_moves (hi : s.Inv) {k : Fin N} (hd : (s.queues k).done = true)
    (hne : (s.workers k).pc ≠ .exited) : ∃ t, step s (.worker k false) = some (.ok t) := by
  obtain ⟨r, hr⟩ := Option.isSome_iff_exists.mp (runStep_isSome hd hne false)
  rcases r with e | ⟨w', qs', o⟩
  · exact absurd hr (runStep_ne_error (hi.workers k) hi.filled false e)
  · exact ⟨_, by simp [step, hr, Except.map]; rfl⟩

theorem Pool.Inv.caller_moves (hi : s.Inv) {c : Schedule} (hc : c ∈ s.callers) :
    ∃ t, step s (.caller c false) = some (.ok t) := by
  cases hs : scheduleStep s.queues c false with
  | error e => exact absurd hs (scheduleStep_ne_error (hi.callers c hc) _ _ _)
  | ok r => exact ⟨_, by simp [step, hc, hs, Except.map]; rfl⟩

theorem Pool.Inv.can_move (hi : s.Inv) (hdone : ∀ i, (s.queues i).done = true)
    (hend : ¬((∀ k, (s.workers k).pc = .exited) ∧ s.teardown = .destroyed)) :
    ∃ a t, a.Quiet ∧ step s a = some (.ok t) := by
  by_cases hw : ∀ k, (s.workers k).pc = .exited
  · have hne : s.teardown ≠ .destroyed := fun h => hend ⟨hw, h⟩
    by_cases hc : s.callers = 0
    · suffices (teardownStep s).isSome by
        obtain ⟨t, ht⟩ := Option.isSome_iff_exists.mp this
        exact ⟨.teardown, t, trivial, by simp [step, ht]⟩
      unfold teardownStep
      split
      · simp [hc]
      · split <;> rfl
      · split
        · simp [hw]
        · rfl
      · exact absurd ‹_› hne
    · obtain ⟨c, hmem⟩ := Multiset.exists_mem_of_ne_zero hc
      obtain ⟨t, ht⟩ := hi.caller_moves hmem
      exact ⟨.caller c false, t, trivial, ht⟩
  · push_neg at hw
    obtain ⟨k, hk⟩ := hw
    obtain ⟨t, ht⟩ := hi.worker_moves (hdone k) hk
    exact ⟨.worker k false, t, trivial, ht⟩

theorem shutdown_terminates {s : Pool N} (hs : Reachable s) (hdone : ∀ i, (s.queues i).done = true)
    {acts : List (Action N)} {t : Pool N} (hq : ∀ a ∈ acts, a.Quiet)
    (h : runActions s acts = some t) :
    acts.length ≤ s.measure ∧
      ((∀ a : Action N, a.Quiet → step t a = none) →
        (∀ k, (t.workers k).pc = .exited) ∧ t.teardown = .destroyed) := by
  induction acts generalizing s with
  | nil =>
    cases h
    refine ⟨Nat.zero_le _, fun hstop => ?_⟩
    by_contra hend
    obtain ⟨a, t, ha, ht⟩ := hs.inv.can_move hdone hend
    simp [hstop a ha] at ht
  | cons a acts ih =>
    obtain ⟨u, hu, h⟩ := runActions_cons h
    have hlt := hs.inv.measure_lt (hq a (List.mem_cons_self _ _)) hu
    obtain ⟨hlen, hend⟩ := ih (hs.step a hu) (fun i => hs.inv.done_mono hu i (hdone i))
      (fun b hb => hq b (List.mem_cons_of_mem _ hb)) h
    exact ⟨by simp only [List.length_cons]; omega, hend⟩

theorem shutdown_terminates_one_worker :
    ∃ s t : Pool 1, Reachable s ∧ (∀ i, (s.queues i).done = true) ∧
      runActions s (List.replicate 16 (Action.worker (0 : Fin 1) true) ++ List.replicate 3 Action.teardown) = some t ∧
      ((List.replicate 16 (Action.worker (0 : Fin 1) true) ++ List.replicate 3 Action.teardown).length ≤ s.measure ∧
        ((∀ a : Action 1, a.Quiet → step t a = none) →
          (∀ k, (t.workers k).pc = .exited) ∧ t.teardown = .destroyed)) := by
  have hs := Reachable.init.runActions (show runActions (Pool.init 1)
    [.call, .caller ⟨some 0, 0, 0⟩ true, .teardown, .teardown] = some _ from rfl)
  refine ⟨_, _, hs, ?_, rfl, shutdown_terminates hs ?_ (by decide) rfl⟩
  all_goals decide

/-! ### What `done()` leaves to the workers -/

theorem queued_task_invoked_after_done :
    ThreadPoolTaskQueue.tryPop ⟨[some 0], true⟩ true none = .ok (true, some 0, ⟨[], true⟩) ∧
    ∃ s t : Pool 1, Reachable s ∧ (∀ i, (s.queues i).done = true) ∧ 0 ∈ queuedAll s.queues ∧
      runActions s [.worker 0 true, .worker 0 true, .worker 0 true, .worker 0 true] = some t ∧
      0 ∈ t.invoked := by
  refine ⟨rfl, _, _, Reachable.init.runActions (show runActions (Pool.init 1)
    [.call, .caller ⟨some 0, 0, 0⟩ true, .teardown, .teardown] = some _ from rfl), ?_, ?_, rfl, ?_⟩
  all_goals decide

end Schedulers
