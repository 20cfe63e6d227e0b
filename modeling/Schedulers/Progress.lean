import Schedulers.Shutdown

/- Every pending task runs (`part_004:591-701`): a worker reaches each task of its own queue,
and a pool destroyed while nothing calls it invokes every task it accepted. -/

namespace Schedulers

open WorkItem

variable {N : Nat} [NeZero N]

/-! ### What one step does to each deque -/

omit [NeZero N] in
theorem update_queue {P : List WorkItem → List WorkItem → Prop} (hP : ∀ l, P l l)
    {qs : Fin N → ThreadPoolTaskQueue} {j : Fin N} {q : ThreadPoolTaskQueue}
    (hj : P (qs j).queue q.queue) (i : Fin N) : P (qs i).queue (Function.update qs j q i).queue := by
  rcases eq_or_ne i j with rfl | hij
  · rwa [Function.update_same]
  · rw [Function.update_noteq hij]; exact hP _

theorem scheduleStep_queue {qs qs' : Fin N → ThreadPoolTaskQueue} {c : Schedule}
    {c' : Option Schedule} {l : Bool} (h : scheduleStep qs c l = .ok (c', qs')) (i : Fin N) :
    (qs' i).queue = (qs i).queue ∨ (qs' i).queue = (qs i).queue ++ [c.f] := by
  unfold scheduleStep at h
  dsimp only at h
  split at h
  · split at h
    · cases h
    all_goals
      rename_i hp
      cases h
      exact update_queue (P := fun l l' => l' = l ∨ l' = l ++ [c.f]) (fun _ => .inl rfl)
        (ThreadPoolTaskQueue.tryPush_queue hp) i
  · split at h
    · cases h
    · rename_i hp
      cases h
      exact update_queue (P := fun l l' => l' = l ∨ l' = l ++ [c.f]) (fun _ => .inl rfl)
        (.inr (ThreadPoolTaskQueue.push_queue hp)) i

theorem runStep_local {k : Fin N} {qs qs' : Fin N → ThreadPoolTaskQueue} {w w' : Worker}
    {l : Bool} {o : Option Nat} (h : runStep k qs w l = some (.ok (w', qs', o))) (hw : w.Ok) :
    (∀ i, (qs' i).queue = (qs i).queue ∨ (qs i).queue = w'.f :: (qs' i).queue ∨
      ∃ c, w.pc = .schedule c ∧ (qs' i).queue = (qs i).queue ++ [c.f]) ∧
    (∀ y, w.f = some y → w'.f = some y ∨ o = some y) ∧
    (w'.pc = .exited → (qs k).queue = [] ∧ (qs k).done = true ∧ w.f = none ∧ qs' = qs) := by
  obtain ⟨pc, f⟩ := w
  unfold runStep at h
  cases pc with
  | top =>
    cases h
    exact ⟨fun _ => .inl rfl, fun y hy => by simp [show f = none from hw] at hy,
      fun h => (nomatch h)⟩
  | steal i =>
    cases (show f = none from hw)
    simp only at h
    split at h
    · simp only [Option.some.injEq] at h
      split at h
      · cases h
      all_goals
        rename_i hp
        cases h
        exact ⟨fun i' => (update_queue (P := fun l l' => l' = l ∨ l = _ :: l') (fun _ => .inl rfl)
          (ThreadPoolTaskQueue.tryPop_queue hp) i').imp id .inl, fun y hy => (nomatch hy),
          fun h => (nomatch h)⟩
    · cases h
      exact ⟨fun _ => .inl rfl, fun y hy => (nomatch hy), fun h => (nomatch h)⟩
  | check =>
    simp only at h
    split at h
    · cases h
      exact ⟨fun _ => .inl rfl, fun y hy => .inl hy, fun h => (nomatch h)⟩
    · obtain ⟨r, hp, hr⟩ := Option.map_eq_some'.mp h
      rcases r with e | ⟨_ | _, f₁, q⟩ <;> cases hr
      · obtain ⟨-, -, hb⟩ := ThreadPoolTaskQueue.pop_spec hp
        obtain ⟨hq, hd, rfl, rfl⟩ := hb rfl
        exact ⟨fun _ => .inl (by simp), fun y hy => .inl hy,
          fun _ => ⟨hq, hd, rfl, Function.update_eq_self _ _⟩⟩
      · exact ⟨fun i' => (update_queue (P := fun l l' => l' = l ∨ l = _ :: l') (fun _ => .inl rfl)
          (ThreadPoolTaskQueue.pop_queue hp) i').imp id .inl, fun y hy => (nomatch hy),
          fun h => (nomatch h)⟩
  | call =>
    simp only at h
    split at h
    · cases h
    · cases h
      exact ⟨fun _ => .inl rfl, fun y hy => .inr (by cases hy; rfl), fun h => (nomatch h)⟩
  | task =>
    cases h
    exact ⟨fun _ => .inl rfl, fun y hy => by simp [show f = none from hw] at hy,
      fun h => (nomatch h)⟩
  | schedule c =>
    simp only [Option.some.injEq] at h
    split at h
    · cases h
    all_goals
      rename_i hs
      cases h
      exact ⟨fun i => (scheduleStep_queue hs i).imp id fun h => .inr ⟨c, rfl, h⟩,
        fun y hy => .inl hy, fun h => (nomatch h)⟩
  | exited => cases h

theorem runStep_isSome_of_work {k : Fin N} {qs : Fin N → ThreadPoolTaskQueue} {w : Worker}
    (hne : w.pc ≠ .exited) (hwork : (qs k).queue ≠ [] ∨ w.f ≠ none) (locked : Bool) :
    (runStep k qs w locked).isSome := by
  obtain ⟨pc, f⟩ := w
  cases pc with
  | steal i => simp only [runStep]; split <;> rfl
  | check =>
    cases f with
    | some t => rfl
    | none =>
      obtain ⟨front, rest, hq⟩ := List.exists_cons_of_ne_nil (hwork.resolve_right (by simp))
      simp [runStep, ThreadPoolTaskQueue.pop, hq]
  | call => cases f <;> rfl
  | exited => exact absurd rfl hne
  | _ => rfl

/-! ### The stealing pass -/

theorem stealQueue_add_mul (k : Fin N) (m i : Nat) : stealQueue k (N * m + i) = stealQueue k i :=
  Fin.ext (by simp only [stealQueue]; rw [Nat.add_left_comm, Nat.mul_add_mod])

theorem stealQueue_sweep (k j : Fin N) : ((List.range N).map (stealQueue k)).count j = 1 := by
  have hinj : Function.Injective fun i : Fin N => stealQueue k i := fun a b hab => Fin.ext <| by
    have := Nat.ModEq.add_left_cancel' k.val (congrArg Fin.val hab)
    rwa [Nat.ModEq, Nat.mod_eq_of_lt a.isLt, Nat.mod_eq_of_lt b.isLt] at this
  obtain ⟨i, rfl⟩ := Finite.injective_iff_surjective.mp hinj j
  refine List.count_eq_one_of_mem ((List.nodup_range N).map_on fun a ha b hb hab => ?_)
    (List.mem_map.mpr ⟨i, List.mem_range.mpr i.isLt, rfl⟩)
  exact congrArg Fin.val (@hinj ⟨a, List.mem_range.mp ha⟩ ⟨b, List.mem_range.mp hb⟩ hab)

theorem stealQueue_count (k j : Fin N) (m : Nat) :
    ((List.range (N * m)).map (stealQueue k)).count j = m := by
  induction m with
  | zero => simp
  | succ m ih =>
    have hsweep : (List.range N).map (fun i => stealQueue k (N * m + i)) =
        (List.range N).map (stealQueue k) := by simp only [stealQueue_add_mul]
    rw [Nat.mul_succ, List.range_add, List.map_append, List.count_append, List.map_map,
      Function.comp_def, hsweep, stealQueue_sweep, ih]

theorem steal_pass_tries_each_queue (k : Fin N) :
    stealQueue k 0 = k ∧ ∀ j, ((List.range (N * rounds)).map (stealQueue k)).count j = rounds :=
  ⟨Fin.ext (by simp [stealQueue, Nat.mod_eq_of_lt k.isLt]), fun j => stealQueue_count k j rounds⟩

theorem steal_pass_tries_each_queue_three_threads :
    stealQueue (1 : Fin 3) 0 = 1 ∧
      ∀ j, ((List.range (3 * rounds)).map (stealQueue (1 : Fin 3))).count j = rounds :=
  steal_pass_tries_each_queue 1

/-! ### A worker reaches the tasks of its own queue -/

/-- Worker `j` can still reach task `x`, or it was invoked. -/
def Pool.Reaches (s : Pool N) (j : Fin N) (x : Nat) : Prop :=
  x ∈ s.invoked ∨
    ((some x ∈ (s.queues j).queue ∨ (s.workers j).f = some x) ∧ (s.workers j).pc ≠ .exited)

section Reaches

variable {s t : Pool N} {j : Fin N} {x : Nat}

theorem Pool.Inv.reaches_step (hi : s.Inv) (hr : s.Reaches j x) {l : Bool}
    (h : step s (.worker j l) = some (.ok t)) : t.Reaches j x := by
  obtain ⟨w', qs', o, hrun, rfl⟩ := step_worker_ok h
  obtain ⟨hq, hf, hx⟩ := runStep_local hrun (hi.workers j)
  simp only [Pool.Reaches, List.mem_append, Function.update_same] at hr ⊢
  rcases hr with hr | ⟨hr, -⟩
  · exact .inl (.inl hr)
  by_cases ho : o = some x
  · exact .inl (.inr (by simp [ho]))
  right
  refine ⟨?_, fun he => ?_⟩
  · rcases hr with hr | hr
    · rcases hq j with hq | hq | ⟨c, -, hq⟩
      · exact .inl (hq ▸ hr)
      · rw [hq] at hr
        rcases List.mem_cons.mp hr with hr | hr
        · exact .inr hr.symm
        · exact .inl hr
      · exact .inl (hq ▸ List.mem_append_left _ hr)
    · exact .inr ((hf x hr).resolve_right ho)
  · obtain ⟨hempty, -, hnone, -⟩ := hx he
    rcases hr with hr | hr
    · simp [hempty] at hr
    · simp [hnone] at hr

theorem Pool.Reaches.run (hs : Reachable s) (hr : s.Reaches j x) {ls : List Bool}
    (h : runActions s (ls.map (Action.worker j)) = some t) :
    t.Reaches j x ∧ ls.length + t.measure ≤ s.measure := by
  induction ls generalizing s with
  | nil => cases h; exact ⟨hr, by simp⟩
  | cons l ls ih =>
    obtain ⟨u, hu, h⟩ := runActions_cons h
    have hlt := hs.inv.measure_worker hu
    obtain ⟨ht, hlen⟩ := ih (hs.step _ hu) (hs.inv.reaches_step hr hu) h
    exact ⟨ht, by simp only [List.length_cons]; omega⟩

end Reaches

theorem owner_invokes_queued_task {s t : Pool N} (hs : Reachable s) {j : Fin N} {x : Nat}
    (hx : some x ∈ (s.queues j).queue) (hj : (s.workers j).pc ≠ .exited) {ls : List Bool}
    (h : runActions s (ls.map (Action.worker j)) = some t) :
    ls.length ≤ s.measure ∧ ((∀ l, step t (.worker j l) = none) → x ∈ t.invoked) := by
  obtain ⟨hr, hlen⟩ := Pool.Reaches.run hs (.inr ⟨.inl hx, hj⟩) h
  refine ⟨by omega, fun hstop => hr.resolve_right fun ⟨hw, hne⟩ => ?_⟩
  have hwork : (t.queues j).queue ≠ [] ∨ (t.workers j).f ≠ none := by
    rcases hw with hw | hw
    · exact .inl (List.ne_nil_of_mem hw)
    · exact .inr (by simp [hw])
  obtain ⟨r, hrun⟩ := Option.isSome_iff_exists.mp (runStep_isSome_of_work hne hwork false)
  have := hstop false
  simp [step, hrun] at this

theorem owner_invokes_queued_task_one_worker :
    ∃ s t : Pool 1, Reachable s ∧ some 0 ∈ (s.queues 0).queue ∧ (s.workers 0).pc ≠ .exited ∧
      runActions s ([true, true, true, true].map (Action.worker 0)) = some t ∧
      ([true, true, true, true].length ≤ s.measure ∧
        ((∀ l, step t (.worker 0 l) = none) → 0 ∈ t.invoked)) := by
  have hs := Reachable.init.runActions (show runActions (Pool.init 1)
    [.call, .caller ⟨some 0, 0, 0⟩ true] = some _ from rfl)
  exact ⟨_, _, hs, by decide, by decide, rfl, owner_invokes_queued_task hs (by decide) (by decide) rfl⟩

/-! ### Shutdown with nothing submitted -/

structure Pool.ExitInv (s : Pool N) : Prop where
  exited : ∀ k, (s.workers k).pc = .exited → (s.queues k).done = true
  dropped : s.teardown ≠ .destroyed → s.dropped = 0

omit [NeZero N] in
theorem Pool.init_exitInv : (Pool.init N).ExitInv :=
  ⟨fun _ h => by simp [Pool.init] at h, fun _ => rfl⟩

omit [NeZero N] in
theorem RunPc.Edge.of_schedule {p : RunPc} {c : Schedule} {o : Option Nat}
    (h : RunPc.Edge N p (.schedule c) o) : ∃ d, p = .schedule d := by
  cases h; exact ⟨_, rfl⟩

section Drain

variable {s t : Pool N}

theorem Pool.Inv.exitInv_step (hi : s.Inv) (he : s.ExitInv) {a : Action N}
    (h : step s a = some (.ok t)) : t.ExitInv := by
  suffices hex : (∀ k, (t.workers k).pc = .exited → (s.queues k).done = true) ∧
      (t.teardown ≠ .destroyed → t.dropped = s.dropped ∧ s.teardown ≠ .destroyed) from
    ⟨fun k hk => hi.done_mono h k (hex.1 k hk),
      fun hd => (hex.2 hd).1.trans (he.dropped (hex.2 hd).2)⟩
  cases a with
  | call =>
    simp only [step, Option.ite_none_right_eq_some, Option.some.injEq, Except.ok.injEq] at h
    obtain ⟨-, rfl⟩ := h
    exact ⟨he.exited, fun hd => ⟨rfl, hd⟩⟩
  | caller c l =>
    obtain ⟨-, c', qs', -, rfl⟩ := step_caller_ok h
    exact ⟨he.exited, fun hd => ⟨rfl, hd⟩⟩
  | worker k' l =>
    obtain ⟨w', qs', o, hrun, rfl⟩ := step_worker_ok h
    refine ⟨fun k hk => ?_, fun hd => ⟨rfl, hd⟩⟩
    rcases eq_or_ne k k' with rfl | hkk
    · exact ((runStep_local hrun (hi.workers k)).2.2 (by simpa using hk)).2.1
    · exact he.exited k (by simpa [hkk] using hk)
  | spawn k' =>
    simp only [step, Option.ite_none_right_eq_some, Option.some.injEq, Except.ok.injEq] at h
    obtain ⟨-, rfl⟩ := h
    refine ⟨fun k hk => ?_, fun hd => ⟨rfl, hd⟩⟩
    rcases eq_or_ne k k' with rfl | hkk
    · simp at hk
    · exact he.exited k (by simpa [hkk] using hk)
  | teardown =>
    rcases teardownStep_cases h with ⟨hr, -, rfl⟩ | ⟨i, -, hd, rfl⟩ | ⟨i, -, hd, rfl⟩ |
      ⟨i, -, hd, -, rfl⟩ | ⟨-, -, -, rfl⟩
    · exact ⟨he.exited, fun _ => ⟨rfl, by simp [hr]⟩⟩
    · exact ⟨he.exited, fun _ => ⟨rfl, by simp [hd]⟩⟩
    · exact ⟨he.exited, fun _ => ⟨rfl, by simp [hd]⟩⟩
    · exact ⟨he.exited, fun _ => ⟨rfl, by simp [hd]⟩⟩
    · exact ⟨he.exited, fun hd => absurd rfl hd⟩

theorem Reachable.exitInv (hs : Reachable s) : s.ExitInv := by
  induction hs with
  | init => exact Pool.init_exitInv
  | step a hs hst ih => exact hs.inv.exitInv_step ih hst

/-- Nothing calls the pool, and a worker returned from `run` left its own queue empty. -/
structure Pool.Draining (s : Pool N) : Prop where
  callers : s.callers = 0
  noCall : ∀ k c, (s.workers k).pc ≠ .schedule c
  exited : ∀ k, (s.workers k).pc = .exited → (s.queues k).queue = []
  dropped : s.dropped = 0

theorem Pool.Inv.draining_step (hi : s.Inv) (hd : s.Draining) {a : Action N} (ha : a.Quiet)
    (h : step s a = some (.ok t)) : t.Draining ∧ t.accepted = s.accepted := by
  cases a with
  | call => exact ha.elim
  | spawn k => exact ha.elim
  | caller c l =>
    obtain ⟨hc, -⟩ := step_caller_ok h
    simp [hd.callers] at hc
  | worker k l =>
    obtain ⟨w', qs', o, hrun, rfl⟩ := step_worker_ok h
    obtain ⟨hq, -, hx⟩ := runStep_local hrun (hi.workers k)
    have hedge := (runStep_ok hrun (hi.workers k)).2.2
    refine ⟨⟨hd.callers, fun k' c hc => ?_, fun k' hk' => ?_, hd.dropped⟩, rfl⟩
    · rcases eq_or_ne k' k with rfl | hkk
      · simp only [Function.update_same] at hc
        obtain ⟨d, hd'⟩ := (hc ▸ hedge).of_schedule
        exact hd.noCall _ _ hd'
      · exact hd.noCall k' c (by simpa [hkk] using hc)
    · rcases eq_or_ne k' k with rfl | hkk
      · obtain ⟨hempty, -, -, rfl⟩ := hx (by simpa using hk')
        exact hempty
      · have hold := hd.exited k' (by simpa [hkk] using hk')
        rcases hq k' with hq | hq | ⟨c, hc, -⟩
        · rw [hq, hold]
        · simp [hold] at hq
        · exact absurd hc (hd.noCall k c)
  | teardown =>
    rcases teardownStep_cases h with ⟨-, -, rfl⟩ | ⟨i, hN, -, rfl⟩ | ⟨-, -, -, rfl⟩ |
      ⟨-, -, -, -, rfl⟩ | ⟨i, hN, hj, rfl⟩
    · exact ⟨⟨hd.callers, hd.noCall, hd.exited, hd.dropped⟩, rfl⟩
    · refine ⟨⟨hd.callers, hd.noCall, fun k hk => ?_, hd.dropped⟩, rfl⟩
      rcases eq_or_ne k ⟨i, hN⟩ with rfl | hk'
      · simpa [ThreadPoolTaskQueue.setDone] using hd.exited _ hk
      · simpa [hk'] using hd.exited k hk
    · exact ⟨⟨hd.callers, hd.noCall, hd.exited, hd.dropped⟩, rfl⟩
    · exact ⟨⟨hd.callers, hd.noCall, hd.exited, hd.dropped⟩, rfl⟩
    · have hall : ∀ k, (s.queues k).queue = [] := fun k =>
        hd.exited k (hi.joined i k hj (by omega))
      exact ⟨⟨hd.callers, hd.noCall, fun _ _ => rfl, by simp [queuedAll, hall, hd.dropped]⟩, rfl⟩

theorem Pool.Draining.run (hs : Reachable s) (hd : s.Draining) {acts : List (Action N)}
    (hq : ∀ a ∈ acts, a.Quiet) (h : runActions s acts = some t) :
    Reachable t ∧ t.Draining ∧ t.accepted = s.accepted := by
  induction acts generalizing s with
  | nil => cases h; exact ⟨hs, hd, rfl⟩
  | cons a acts ih =>
    obtain ⟨u, hu, h⟩ := runActions_cons h
    obtain ⟨hdu, hacc⟩ := hs.inv.draining_step hd (hq a (List.mem_cons_self _ _)) hu
    obtain ⟨ht, hdt, hacc'⟩ := ih (hs.step a hu) hdu (fun b hb => hq b (List.mem_cons_of_mem _ hb)) h
    exact ⟨ht, hdt, hacc'.trans hacc⟩

end Drain

theorem shutdown_invokes_every_task {s t : Pool N} (hs : Reachable s)
    (hrun : s.teardown = .running) (hc : s.callers = 0) (hw : ∀ k c, (s.workers k).pc ≠ .schedule c)
    {acts : List (Action N)} (hq : ∀ a ∈ acts, a.Quiet) (h : runActions s acts = some t)
    (hd : t.teardown = .destroyed) :
    t.dropped = 0 ∧ (t.invoked : Multiset Nat) = Multiset.range s.accepted := by
  have hdr : s.Draining := ⟨hc, hw,
    fun k hk => absurd (hs.exitInv.exited k hk) (by simp [hs.inv.notStarted hrun k]),
    hs.exitInv.dropped (by simp [hrun])⟩
  obtain ⟨ht, htd, hacc⟩ := hdr.run hs hq h
  refine ⟨htd.dropped, ?_⟩
  have := (ht.inv.places_destroyed hd).symm.trans ht.inv.places
  rwa [htd.dropped, add_zero, hacc] at this

theorem shutdown_invokes_every_task_one_worker :
    ∃ s t : Pool 1, Reachable s ∧ s.teardown = .running ∧ s.callers = 0 ∧
      (∀ k c, (s.workers k).pc ≠ .schedule c) ∧
      (∀ a ∈ [.teardown, .teardown, .teardown] ++ List.replicate 16 (Action.worker (0 : Fin 1) true) ++
        [.teardown, .teardown], a.Quiet) ∧
      runActions s ([.teardown, .teardown, .teardown] ++ List.replicate 16 (Action.worker (0 : Fin 1) true) ++
        [.teardown, .teardown]) = some t ∧ t.teardown = .destroyed ∧
      (t.dropped = 0 ∧ (t.invoked : Multiset Nat) = Multiset.range s.accepted) := by
  have hs := Reachable.init.runActions (show runActions (Pool.init 1)
    [.call, .caller ⟨some 0, 0, 0⟩ true] = some _ from rfl)
  have hw : ∀ (k : Fin 1) c, ((Pool.init 1).workers k).pc ≠ .schedule c := fun _ _ h => nomatch h
  have hq : ∀ a ∈ [.teardown, .teardown, .teardown] ++
      List.replicate 16 (Action.worker (0 : Fin 1) true) ++ [.teardown, .teardown], a.Quiet := by
    decide
  exact ⟨_, _, hs, rfl, by decide, hw, hq, rfl, rfl,
    shutdown_invokes_every_task hs rfl (by decide) hw hq rfl rfl⟩

end Schedulers
