import Schedulers.ThreadPool

/- Over every interleaving of the pool's threads, each accepted task is in exactly one place,
and every queued item is non-empty: both are parts of `Pool.Inv`. -/

namespace Schedulers

open WorkItem

variable {N : Nat}

/-! ### Where tasks are -/

def Worker.tasks (w : Worker) : Multiset Nat :=
  held w.f + match w.pc with
    | .schedule c => held c.f
    | _ => 0

def callTasks : Option Schedule → Multiset Nat
  | none => 0
  | some c => held c.f

def callersTasks (m : Multiset Schedule) : Multiset Nat := (m.map fun c => held c.f).sum

/-- Every place a task can be, with multiplicity. -/
def Pool.places (s : Pool N) : Multiset Nat :=
  queuedAll s.queues + ∑ k, (s.workers k).tasks + callersTasks s.callers + ↑s.invoked + s.dropped

def Worker.Ok (w : Worker) : Prop :=
  match w.pc with
  | .check => True
  | .call => w.f ≠ none
  | .schedule c => w.f = none ∧ c.f ≠ none
  | _ => w.f = none

theorem sum_update_add {α M : Type} [AddCommMonoid M] (F : Fin N → α) (g : α → M) (j : Fin N)
    (x : α) : ∑ i, g (Function.update F j x i) + g (F j) = ∑ i, g (F i) + g x := by
  have h : ∀ i, g (Function.update F j x i) = Function.update (fun i => g (F i)) j (g x) i :=
    Function.apply_update (fun _ => g) F j x
  simp only [h, Finset.sum_update_of_mem (Finset.mem_univ j)]
  rw [← Finset.add_sum_erase _ _ (Finset.mem_univ j), Finset.sdiff_singleton_eq_erase]
  ac_rfl

structure QueuesTransfer (qs : Fin N → ThreadPoolTaskQueue) (f : Multiset Nat)
    (qs' : Fin N → ThreadPoolTaskQueue) (f' : Multiset Nat) : Prop where
  tasks : queuedAll qs' + f' = queuedAll qs + f
  filled : (∀ i, none ∉ (qs i).queue) → ∀ i, none ∉ (qs' i).queue
  done : ∀ i, (qs' i).done = (qs i).done

theorem QueuesTransfer.refl (qs : Fin N → ThreadPoolTaskQueue) (f : Multiset Nat) :
    QueuesTransfer qs f qs f :=
  ⟨rfl, id, fun _ => rfl⟩

theorem QueuesTransfer.of_eq {qs qs' : Fin N → ThreadPoolTaskQueue} {f f' : Multiset Nat}
    (hq : qs' = qs) (hf : f' = f) : QueuesTransfer qs f qs' f' := by
  subst hq hf; exact .refl _ _

theorem Transfer.update {qs : Fin N → ThreadPoolTaskQueue} {j : Fin N} {f f' : WorkItem}
    {q' : ThreadPoolTaskQueue} (h : Transfer f (qs j) f' q') :
    QueuesTransfer qs (held f) (Function.update qs j q') (held f') where
  tasks := by
    have hs := sum_update_add qs (fun q => queued q.queue) j q'
    apply add_right_cancel (b := queued (qs j).queue)
    calc queuedAll (Function.update qs j q') + held f' + queued (qs j).queue
        = queuedAll qs + (held f' + queued q'.queue) := by
          unfold queuedAll; rw [add_right_comm, hs, add_assoc, add_comm (queued _)]
      _ = queuedAll qs + held f + queued (qs j).queue := by rw [h.tasks, add_assoc]
  filled hq i := by
    rcases eq_or_ne i j with rfl | hi
    · simpa using h.filled (hq i)
    · simpa [hi] using hq i
  done i := by
    rcases eq_or_ne i j with rfl | hi
    · simpa using h.done
    · simp [hi]

theorem QueuesTransfer.add_right {qs qs' : Fin N → ThreadPoolTaskQueue} {f f' : Multiset Nat}
    (h : QueuesTransfer qs f qs' f') (m : Multiset Nat) : QueuesTransfer qs (f + m) qs' (f' + m) :=
  ⟨by rw [← add_assoc, h.tasks, add_assoc], h.filled, h.done⟩

/-! ### One step of `schedule` and of `run` -/

variable [NeZero N]

theorem scheduleStep_ok {qs qs' : Fin N → ThreadPoolTaskQueue} {c : Schedule}
    {c' : Option Schedule} {locked : Bool} (h : scheduleStep qs c locked = .ok (c', qs')) :
    QueuesTransfer qs (held c.f) qs' (callTasks c') ∧
      ∀ d ∈ c', d = { c with i := c.i + 1 } ∧ c.i < N := by
  unfold scheduleStep at h
  dsimp only at h
  split at h
  · rename_i hi
    split at h
    · cases h
    · rename_i f₁ q hp
      cases h
      exact ⟨by simpa [callTasks, (ThreadPoolTaskQueue.tryPush_spec hp).2.1 rfl] using
        (ThreadPoolTaskQueue.tryPush_spec hp).1.update, by simp⟩
    · rename_i f₁ q hp
      cases h
      obtain ⟨ht, -, hf⟩ := ThreadPoolTaskQueue.tryPush_spec hp
      obtain ⟨rfl, rfl⟩ := hf rfl
      exact ⟨by simpa [callTasks] using ht.update, by simp [hi]⟩
  · split at h
    · cases h
    · rename_i f₁ q hp
      cases h
      obtain ⟨ht, rfl⟩ := ThreadPoolTaskQueue.push_spec hp
      exact ⟨by simpa [callTasks] using ht.update, by simp⟩

/-- The control flow of `run`, with the task a step invokes. -/
inductive RunPc.Edge (N : Nat) : RunPc → RunPc → Option Nat → Prop
  | start : Edge N .top (.steal 0) none
  | miss {i : Nat} : i < N * rounds → Edge N (.steal i) (.steal (i + 1)) none
  | hit {i : Nat} : i < N * rounds → Edge N (.steal i) .check none
  | exhausted {i : Nat} : N * rounds ≤ i → Edge N (.steal i) .check none
  | popped : Edge N .check .call none
  | quit : Edge N .check .exited none
  | invoke (t : Nat) : Edge N .call .task (some t)
  | finish : Edge N .task .top none
  | retry {c : Schedule} : c.i < N → Edge N (.schedule c) (.schedule { c with i := c.i + 1 }) none
  | returned (c : Schedule) : Edge N (.schedule c) .task none

theorem runStep_ok {k : Fin N} {qs qs' : Fin N → ThreadPoolTaskQueue} {w w' : Worker}
    {locked : Bool} {o : Option Nat} (h : runStep k qs w locked = some (.ok (w', qs', o)))
    (hw : w.Ok) :
    w'.Ok ∧ QueuesTransfer qs w.tasks qs' (w'.tasks + ↑o.toList) ∧ RunPc.Edge N w.pc w'.pc o := by
  obtain ⟨pc, f⟩ := w
  unfold runStep at h
  cases pc with
  | top =>
    cases h
    exact ⟨rfl, .of_eq rfl (by simp [Worker.tasks, show f = none from hw]), .start⟩
  | steal i =>
    simp only at h
    split at h
    · simp only [Option.some.injEq] at h
      split at h
      · cases h
      · rename_i f₁ q hp
        cases h
        obtain ⟨ht, hb, -⟩ := ThreadPoolTaskQueue.tryPop_spec hp
        exact ⟨trivial, by simpa [Worker.tasks] using ht.update, .hit ‹_›⟩
      · rename_i f₁ q hp
        cases h
        obtain ⟨ht, -, hb⟩ := ThreadPoolTaskQueue.tryPop_spec hp
        obtain ⟨rfl, rfl⟩ := hb rfl
        exact ⟨hw, by simpa [Worker.tasks] using ht.update, .miss ‹_›⟩
    · cases h
      exact ⟨trivial, .of_eq rfl (by simp [Worker.tasks]), .exhausted (by omega)⟩
  | check =>
    simp only at h
    split at h
    · cases h
      exact ⟨by simp [Worker.Ok], .of_eq rfl (by simp [Worker.tasks]), .popped⟩
    · obtain ⟨r, hp, hr⟩ := Option.map_eq_some'.mp h
      rcases r with e | ⟨_ | _, f₁, q⟩ <;> cases hr
      · obtain ⟨ht, -, hb⟩ := ThreadPoolTaskQueue.pop_spec hp
        obtain ⟨-, -, rfl, rfl⟩ := hb rfl
        exact ⟨rfl, by simpa [Worker.tasks] using ht.update, .quit⟩
      · obtain ⟨ht, hb, -⟩ := ThreadPoolTaskQueue.pop_spec hp
        exact ⟨hb rfl, by simpa [Worker.tasks] using ht.update, .popped⟩
  | call =>
    simp only at h
    split at h
    · cases h
    · cases h
      exact ⟨rfl, .of_eq rfl (by simp [Worker.tasks]), .invoke _⟩
  | task =>
    cases h
    exact ⟨rfl, .of_eq rfl (by simp [Worker.tasks, show f = none from hw]), .finish⟩
  | schedule c =>
    obtain ⟨rfl, hc⟩ := hw
    simp only [Option.some.injEq] at h
    split at h
    · cases h
    · rename_i qs₁ hs
      cases h
      exact ⟨rfl, by simpa [Worker.tasks, callTasks] using (scheduleStep_ok hs).1, .returned c⟩
    · rename_i d qs₁ hs
      cases h
      obtain ⟨hq, hd⟩ := scheduleStep_ok hs
      obtain ⟨rfl, hi⟩ := hd d rfl
      exact ⟨⟨rfl, hc⟩, by simpa [Worker.tasks, callTasks] using hq, .retry hi⟩
  | exited => cases h

/-! ### The invariant -/

structure Pool.Inv (s : Pool N) : Prop where
  places : s.places = Multiset.range s.accepted
  filled : ∀ i, none ∉ (s.queues i).queue
  workers : ∀ k, (s.workers k).Ok
  callers : ∀ c ∈ s.callers, c.f ≠ none
  quiet : s.teardown ≠ .running → s.callers = 0
  joined : ∀ i (k : Fin N), s.teardown = .join i → k.val < i → (s.workers k).pc = .exited
  destroyed : s.teardown = .destroyed →
    (∀ k, (s.workers k).pc = .exited) ∧ ∀ i, (s.queues i).queue = []
  notStarted : s.teardown = .running → ∀ i, (s.queues i).done = false

omit [NeZero N] in
theorem Pool.init_inv : (Pool.init N).Inv where
  places := by
    simp [Pool.places, Pool.init, queuedAll, callersTasks, ThreadPoolTaskQueue.empty, Worker.tasks]
  filled _ := by simp [Pool.init, ThreadPoolTaskQueue.empty]
  workers _ := rfl
  callers := by simp [Pool.init]
  quiet h := absurd rfl h
  joined _ _ h := by simp [Pool.init] at h
  destroyed h := by simp [Pool.init] at h
  notStarted _ _ := rfl

section Steps

variable {s t : Pool N}

theorem step_caller_ok {c : Schedule} {l : Bool} (h : step s (.caller c l) = some (.ok t)) :
    c ∈ s.callers ∧ ∃ c' qs', scheduleStep s.queues c l = .ok (c', qs') ∧
      t = { s with queues := qs', callers := replaceCall s.callers c c' } := by
  simp only [step] at h
  split at h
  · obtain ⟨⟨c', qs'⟩, hs, rfl⟩ := except_map_eq_ok.mp (Option.some.inj h)
    exact ⟨‹_›, c', qs', hs, rfl⟩
  · cases h

theorem step_worker_ok {k : Fin N} {l : Bool} (h : step s (.worker k l) = some (.ok t)) :
    ∃ w' qs' o, runStep k s.queues (s.workers k) l = some (.ok (w', qs', o)) ∧
      t = { s with workers := Function.update s.workers k w', queues := qs',
                   invoked := s.invoked ++ o.toList } := by
  simp only [step] at h
  obtain ⟨r, hr, h⟩ := Option.map_eq_some'.mp h
  obtain ⟨⟨w', qs', o⟩, rfl, rfl⟩ := except_map_eq_ok.mp h
  exact ⟨w', qs', o, hr, rfl⟩

theorem Pool.Inv.call (hi : s.Inv) (h : step s .call = some (.ok t)) : t.Inv := by
  simp only [step, Option.ite_none_right_eq_some, Option.some.injEq, Except.ok.injEq] at h
  obtain ⟨hr, rfl⟩ := h
  refine ⟨?_, hi.filled, hi.workers, ?_, fun h' => absurd hr h', ?_, ?_, hi.notStarted⟩
  · have := hi.places
    simp only [Pool.places, Pool.newCall, callersTasks, Multiset.map_cons, Multiset.sum_cons,
      held_some, Multiset.range_succ] at this ⊢
    rw [← this]; simp only [← Multiset.singleton_add]; ac_rfl
  · simpa [Pool.newCall] using hi.callers
  · intro i k h'; simp [hr] at h'
  · intro h'; simp [hr] at h'

theorem sum_map_replaceCall {M : Type} [AddCommMonoid M] (g : Schedule → M)
    {m : Multiset Schedule} {c : Schedule} (hc : c ∈ m) (c' : Option Schedule) :
    ((replaceCall m c c').map g).sum + g c = (m.map g).sum + c'.elim 0 g := by
  conv_rhs => rw [← Multiset.cons_erase hc]
  cases c' <;> simp [replaceCall] <;> ac_rfl

theorem callersTasks_replaceCall {m : Multiset Schedule} {c : Schedule} (hc : c ∈ m)
    (c' : Option Schedule) :
    callersTasks (replaceCall m c c') + held c.f = callersTasks m + callTasks c' := by
  cases c' <;> exact sum_map_replaceCall (fun c => held c.f) hc _

theorem Pool.Inv.caller (hi : s.Inv) {c : Schedule} {l : Bool}
    (h : step s (.caller c l) = some (.ok t)) : t.Inv := by
  obtain ⟨hc, c', qs', hs, rfl⟩ := step_caller_ok h
  obtain ⟨hq, hd⟩ := scheduleStep_ok hs
  have hrun : s.teardown = .running := by
    by_contra hne; simp [hi.quiet hne] at hc
  refine ⟨?_, hq.filled hi.filled, hi.workers, ?_, fun h' => absurd hrun h',
    fun i k h' => by simp [hrun] at h', fun h' => by simp [hrun] at h',
    fun hr i => (hq.done i).trans (hi.notStarted hr i)⟩
  · rw [← hi.places]
    ext x
    have h1 := congrArg (Multiset.count x) hq.tasks
    have h2 := congrArg (Multiset.count x) (callersTasks_replaceCall hc c')
    simp only [Pool.places, Multiset.count_add] at h1 h2 ⊢
    omega
  · intro d hd'
    cases c' with
    | none => exact hi.callers d (Multiset.mem_of_mem_erase hd')
    | some c' =>
      rcases Multiset.mem_cons.mp hd' with rfl | hd'
      · rw [(hd _ rfl).1]; exact hi.callers c hc
      · exact hi.callers d (Multiset.mem_of_mem_erase hd')

theorem Pool.Inv.worker (hi : s.Inv) {k : Fin N} {l : Bool}
    (h : step s (.worker k l) = some (.ok t)) : t.Inv := by
  obtain ⟨w', qs', o, hr, rfl⟩ := step_worker_ok h
  obtain ⟨hw', hq, -⟩ := runStep_ok hr (hi.workers k)
  have hne : (s.workers k).pc ≠ .exited := fun he => by simp [runStep, he] at hr
  refine ⟨?_, hq.filled hi.filled, fun k' => ?_, hi.callers, hi.quiet, fun i k' ht hk => ?_,
    fun ht => absurd ((hi.destroyed ht).1 k) hne, fun hr i => (hq.done i).trans (hi.notStarted hr i)⟩
  · rw [← hi.places]
    ext x
    have h1 := congrArg (Multiset.count x) hq.tasks
    have h2 := congrArg (Multiset.count x) (sum_update_add s.workers Worker.tasks k w')
    simp only [Pool.places, Multiset.count_add, ← Multiset.coe_add] at h1 h2 ⊢
    omega
  · rcases eq_or_ne k' k with rfl | hk
    · simpa using hw'
    · simpa [hk] using hi.workers k'
  · rcases eq_or_ne k' k with rfl | hkk
    · exact absurd (hi.joined i k' ht hk) hne
    · simpa [hkk] using hi.joined i k' ht hk

theorem Pool.Inv.spawn (hi : s.Inv) {k : Fin N} (h : step s (.spawn k) = some (.ok t)) :
    t.Inv := by
  simp only [step, Option.ite_none_right_eq_some, Option.some.injEq, Except.ok.injEq] at h
  obtain ⟨ht, rfl⟩ := h
  have hf : (s.workers k).f = none := by simpa [Worker.Ok, ht] using hi.workers k
  have hne : (s.workers k).pc ≠ .exited := by simp [ht]
  refine ⟨?_, hi.filled, fun k' => ?_, hi.callers, hi.quiet, fun i k' ht' hk => ?_,
    fun ht' => absurd ((hi.destroyed ht').1 k) hne, hi.notStarted⟩
  · rw [Multiset.range_succ, ← hi.places]
    ext x
    have h2 := sum_update_add s.workers Worker.tasks k ⟨.schedule s.newCall, (s.workers k).f⟩
    rw [show (s.workers k).tasks = 0 by simp [Worker.tasks, hf, ht],
      show Worker.tasks ⟨.schedule s.newCall, (s.workers k).f⟩ = s.accepted ::ₘ 0 by
        simp [Worker.tasks, hf, Pool.newCall]] at h2
    have h3 := congrArg (Multiset.count x) h2
    simp only [Pool.places, Multiset.count_add, Multiset.count_cons, Multiset.count_zero] at h3 ⊢
    omega
  · rcases eq_or_ne k' k with rfl | hk
    · simpa [Worker.Ok, Pool.newCall] using hf
    · simpa [hk] using hi.workers k'
  · rcases eq_or_ne k' k with rfl | hkk
    · exact absurd (hi.joined i k' ht' hk) hne
    · simpa [hkk] using hi.joined i k' ht' hk

omit [NeZero N] in
theorem queuedAll_setDone (qs : Fin N → ThreadPoolTaskQueue) (j : Fin N) :
    queuedAll (Function.update qs j (qs j).setDone) = queuedAll qs :=
  Finset.sum_congr rfl fun i _ => by
    rcases eq_or_ne i j with rfl | h <;> simp [*, ThreadPoolTaskQueue.setDone]

theorem teardownStep_cases (h : step s .teardown = some (.ok t)) :
    (s.teardown = .running ∧ s.callers = 0 ∧ t = { s with teardown := .done 0 }) ∨
    (∃ i, ∃ hi : i < N, s.teardown = .done i ∧
      t = { s with queues := Function.update s.queues ⟨i, hi⟩ (s.queues ⟨i, hi⟩).setDone,
                   teardown := .done (i + 1) }) ∨
    (∃ i, N ≤ i ∧ s.teardown = .done i ∧ t = { s with teardown := .join 0 }) ∨
    (∃ i, ∃ hi : i < N, s.teardown = .join i ∧ (s.workers ⟨i, hi⟩).pc = .exited ∧
      t = { s with teardown := .join (i + 1) }) ∨
    (∃ i, N ≤ i ∧ s.teardown = .join i ∧
      t = { s with queues := fun j => { s.queues j with queue := [] }, teardown := .destroyed,
                   dropped := s.dropped + queuedAll s.queues }) := by
  simp only [step] at h
  obtain ⟨t', ht, h⟩ := Option.map_eq_some'.mp h
  cases h
  unfold teardownStep at ht
  split at ht
  · split at ht <;> cases ht
    exact .inl ⟨‹_›, ‹_›, rfl⟩
  · split at ht <;> cases ht
    · exact .inr <| .inl ⟨_, ‹_›, ‹_›, rfl⟩
    · exact .inr <| .inr <| .inl ⟨_, Nat.not_lt.mp ‹_›, ‹_›, rfl⟩
  · split at ht
    · split at ht <;> cases ht
      exact .inr <| .inr <| .inr <| .inl ⟨_, ‹_›, ‹_›, ‹_›, rfl⟩
    · cases ht
      exact .inr <| .inr <| .inr <| .inr ⟨_, Nat.not_lt.mp ‹_›, ‹_›, rfl⟩
  · cases ht

theorem Pool.Inv.teardown (hi : s.Inv) (h : step s .teardown = some (.ok t)) : t.Inv := by
  rcases teardownStep_cases h with ⟨-, h0, rfl⟩ | ⟨i, hN, hd, rfl⟩ | ⟨i, hN, hd, rfl⟩ |
    ⟨i, hN, hd, hx, rfl⟩ | ⟨i, hN, hd, rfl⟩
  · -- the destructor starts
    exact ⟨hi.places, hi.filled, hi.workers, hi.callers, fun _ => h0, fun _ _ h => (nomatch h),
      fun h => (nomatch h), fun h => (nomatch h)⟩
  · -- `q.done()` on queue `i`
    refine ⟨by simpa [Pool.places, queuedAll_setDone] using hi.places, fun j => ?_, hi.workers,
      hi.callers, fun _ => hi.quiet (by simp [hd]), fun _ _ h => (nomatch h), fun h => (nomatch h),
      fun h => (nomatch h)⟩
    rcases eq_or_ne j ⟨i, hN⟩ with rfl | hj
    · simpa [ThreadPoolTaskQueue.setDone] using hi.filled _
    · simpa [hj] using hi.filled j
  · -- every queue is `done()`: the threads are joined next
    exact ⟨hi.places, hi.filled, hi.workers, hi.callers, fun _ => hi.quiet (by simp [hd]),
      fun _ _ h hk => by cases h; omega, fun h => (nomatch h), fun h => (nomatch h)⟩
  · -- `t.join()` on thread `i`
    refine ⟨hi.places, hi.filled, hi.workers, hi.callers, fun _ => hi.quiet (by simp [hd]),
      fun i' k h hk => ?_, fun h => (nomatch h), fun h => (nomatch h)⟩
    cases h
    rcases Nat.lt_succ_iff_lt_or_eq.mp hk with hk | hk
    · exact hi.joined i k hd hk
    · exact (Fin.ext hk : k = ⟨i, hN⟩) ▸ hx
  · -- the members are destroyed
    refine ⟨?_, fun _ => by simp, hi.workers, hi.callers, fun _ => hi.quiet (by simp [hd]),
      fun _ _ h => (nomatch h), fun _ => ⟨fun k => hi.joined i k hd (by omega), fun _ => rfl⟩,
      fun h => (nomatch h)⟩
    rw [← hi.places]
    simp [Pool.places, queuedAll]
    ac_rfl

theorem Pool.Inv.next (hi : s.Inv) {a : Action N} (h : step s a = some (.ok t)) : t.Inv := by
  cases a with
  | call => exact hi.call h
  | caller c l => exact hi.caller h
  | worker k l => exact hi.worker h
  | spawn k => exact hi.spawn h
  | teardown => exact hi.teardown h

end Steps

theorem Reachable.inv {s : Pool N} (h : Reachable s) : s.Inv := by
  induction h with
  | init => exact Pool.init_inv
  | step a _ hst ih => exact ih.next hst

/-! ### No assertion fires -/

theorem scheduleStep_ne_error {c : Schedule} (hc : c.f ≠ none) (qs : Fin N → ThreadPoolTaskQueue)
    (locked : Bool) (e : String) : scheduleStep qs c locked ≠ .error e := by
  unfold scheduleStep
  dsimp only
  split
  · split
    · exact absurd ‹_› (ThreadPoolTaskQueue.tryPush_ne_error hc _ _)
    all_goals simp
  · split
    · exact absurd ‹_› (ThreadPoolTaskQueue.push_ne_error hc _)
    · simp

theorem runStep_ne_error {k : Fin N} {qs : Fin N → ThreadPoolTaskQueue} {w : Worker}
    (hw : w.Ok) (hq : ∀ i, none ∉ (qs i).queue) (locked : Bool) (e : String) :
    runStep k qs w locked ≠ some (.error e) := by
  obtain ⟨pc, f⟩ := w
  unfold runStep
  cases pc with
  | steal i =>
    cases (show f = none from hw)
    simp only
    split
    · rw [Ne, Option.some.injEq]
      split
      · exact absurd ‹_› (ThreadPoolTaskQueue.tryPop_ne_error (hq _) _ _)
      all_goals simp
    · simp
  | check =>
    simp only
    split
    · simp
    · intro h
      obtain ⟨r, hp, hr⟩ := Option.map_eq_some'.mp h
      rcases r with e' | ⟨_ | _, f₁, q⟩
      · exact ThreadPoolTaskQueue.pop_ne_error (hq k) e' hp
      all_goals cases hr
  | call =>
    obtain ⟨t, rfl⟩ := Option.ne_none_iff_exists'.mp (show f ≠ none from hw)
    simp
  | schedule c =>
    simp only [Ne, Option.some.injEq]
    split
    · exact absurd ‹_› (scheduleStep_ne_error hw.2 _ _ _)
    all_goals simp
  | _ => simp

theorem Pool.Inv.step_ne_error {s : Pool N} (hi : s.Inv) (a : Action N) (e : String) :
    step s a ≠ some (.error e) := by
  cases a with
  | caller c l =>
    simp only [step]
    split
    · rw [Ne, Option.some.injEq, except_map_eq_error]
      exact scheduleStep_ne_error (hi.callers c ‹_›) _ _ _
    · simp
  | worker k l =>
    simp only [step]
    intro h
    obtain ⟨r, hr, h⟩ := Option.map_eq_some'.mp h
    exact runStep_ne_error (hi.workers k) hi.filled l _ (hr.trans (congrArg some
      (except_map_eq_error.mp h)))
  | teardown => simp [step]
  | call => simp only [step]; split <;> simp
  | spawn k => simp only [step]; split <;> simp

/-! ### Exactly once -/

theorem count_range (t n : Nat) : (Multiset.range n).count t = if t < n then 1 else 0 := by
  split
  · exact Multiset.count_eq_one_of_mem (Multiset.nodup_range n) (Multiset.mem_range.mpr ‹_›)
  · exact Multiset.count_eq_zero.mpr (by simpa using Nat.le_of_not_lt ‹_›)

omit [NeZero N] in
theorem Pool.Inv.places_destroyed {s : Pool N} (hi : s.Inv) (hd : s.teardown = .destroyed) :
    s.places = ↑s.invoked + s.dropped := by
  obtain ⟨hw, hq⟩ := hi.destroyed hd
  have hworkers : ∀ k, (s.workers k).tasks = 0 := fun k => by
    have := hi.workers k
    simp_all [Worker.Ok, Worker.tasks]
  simp [Pool.places, queuedAll, hq, hworkers, hi.quiet (by simp [hd]), callersTasks]

theorem accepted_task_in_one_place {s : Pool N} (hs : Reachable s) (t : Nat) :
    s.places.count t = (if t < s.accepted then 1 else 0) ∧
      (s.teardown = .destroyed → t < s.accepted →
        (s.invoked.count t = 1 ∧ t ∉ s.dropped) ∨ (s.dropped.count t = 1 ∧ t ∉ s.invoked)) := by
  have hi := hs.inv
  refine ⟨by rw [hi.places, count_range], fun hd ht => ?_⟩
  have h := congrArg (Multiset.count t) ((hi.places_destroyed hd).symm.trans hi.places)
  rw [Multiset.count_add, Multiset.coe_count, count_range, if_pos ht] at h
  rcases Nat.eq_zero_or_pos (s.dropped.count t) with h0 | h0
  · exact .inl ⟨by omega, Multiset.count_eq_zero.mp h0⟩
  · exact .inr ⟨by omega, fun hm => by have := List.count_pos_iff.mpr hm; omega⟩

theorem accepted_task_in_one_place_destroyed :
    ∃ s : Pool 1, Reachable s ∧ s.accepted = 1 ∧ s.teardown = .destroyed ∧ s.invoked = [0] ∧
      (s.places.count 0 = (if 0 < s.accepted then 1 else 0) ∧
        (s.teardown = .destroyed → 0 < s.accepted →
          (s.invoked.count 0 = 1 ∧ 0 ∉ s.dropped) ∨ (s.dropped.count 0 = 1 ∧ 0 ∉ s.invoked))) := by
  have hs := Reachable.init.runActions (show runActions (Pool.init 1)
    ([.call, .caller ⟨some 0, 0, 0⟩ true, .teardown, .teardown, .teardown] ++
      List.replicate 16 (.worker 0 true) ++ [.teardown, .teardown]) = some _ from rfl)
  exact ⟨_, hs, rfl, rfl, rfl, accepted_task_in_one_place hs 0⟩

end Schedulers
