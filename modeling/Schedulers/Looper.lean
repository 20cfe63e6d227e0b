import Mathlib.Data.List.ReduceOption
import Schedulers.PoolInvariant

/- `android_main_looper` (`schedulers-android.cpp:25-80`, `part_004:805-834`): `schedule`
pushes, then `post()` writes a byte to a non-blocking pipe; `looper_callback` reads one
and runs one task. Each locked section, `write` and callback is one step. -/

namespace Schedulers

open WorkItem

/-! ### The pipe -/

def sizeTRange : Nat := 2 ^ 64

/-- `write(_write_fd, &byte, sizeof(byte))`: `-1` (`EAGAIN`) on a full pipe. -/
def write (capacity pipe : Nat) : Int × Nat :=
  if pipe < capacity then (1, pipe + 1) else (-1, pipe)

/-- `read(fd, &byte, sizeof(byte))`. -/
def read : Nat → Int × Nat
  | 0 => (-1, 0)
  | pipe + 1 => (1, pipe)

/-- The `ssize_t` to `size_t` conversion in `write(...) < sizeof(byte)`. -/
def toSizeT (r : Int) : Nat := (r % sizeTRange).toNat

/-- `android_main_looper::post()`. -/
def post (capacity pipe : Nat) : Except String Nat :=
  let (written, pipe) := write capacity pipe
  if toSizeT written < 1 then .error "ALooper buffer overflow." else .ok pipe

@[simp] theorem post_eq (capacity pipe : Nat) :
    post capacity pipe = .ok (if pipe < capacity then pipe + 1 else pipe) := by
  by_cases h : pipe < capacity <;> simp only [post, write, h, ↓reduceIte] <;> rfl

/-! ### The looper and its callback -/

/-- The queue, the pipe and the calls of `schedule` between `push` and `post()`. -/
structure Looper where
  queue : MainThreadTaskQueue
  capacity : Nat
  pipe : Nat
  posting : Multiset Nat
  accepted : Nat
  invoked : List Nat
  cleared : Multiset Nat
  failed : Multiset Nat
  missed : Nat
  deriving DecidableEq

inductive LooperAction
  | schedule
  | post (t : Nat)
  | callback
  | clear

namespace Looper

def init (capacity : Nat) : Looper :=
  ⟨⟨[]⟩, capacity, 0, 0, 0, [], 0, 0, 0⟩

def step (s : Looper) : LooperAction → Option (Except String Looper)
  | .schedule =>
    some <| (s.queue.push (some s.accepted)).map fun (_, queue) =>
      { s with queue, posting := s.accepted ::ₘ s.posting, accepted := s.accepted + 1 }
  | .post t =>
    if t ∈ s.posting then
      let s' := { s with posting := s.posting.erase t,
                         missed := if s.pipe < s.capacity then s.missed else s.missed + 1 }
      some <| .ok <| match post s.capacity s.pipe with
        | .ok pipe => { s' with pipe }
        | .error _ => { s' with failed := t ::ₘ s.failed }
    else none
  | .callback =>
    let (r, pipe) := read s.pipe
    if 0 < r then
      some <| match s.queue.tryPop none with
        | .error e => .error e
        | .ok (false, _, queue) => .ok { s with pipe, queue }
        | .ok (true, none, _) => .error "null _target"
        | .ok (true, some t, queue) => .ok { s with pipe, queue, invoked := s.invoked ++ [t] }
    else some (.ok s)
  | .clear =>
    some (.ok { s with queue := s.queue.clear, cleared := s.cleared + queued s.queue.queue })

def runActions (s : Looper) : List LooperAction → Option Looper
  | [] => some s
  | a :: acts =>
    match s.step a with
    | some (.ok t) => runActions t acts
    | _ => none

inductive Reachable : Looper → Prop
  | init (capacity : Nat) : Reachable (init capacity)
  | step {s t : Looper} (a : LooperAction) : Reachable s → s.step a = some (.ok t) → Reachable t

theorem Reachable.runActions {s t : Looper} (hs : s.Reachable) {acts : List LooperAction}
    (h : s.runActions acts = some t) : t.Reachable := by
  induction acts generalizing s with
  | nil => cases h; exact hs
  | cons a acts ih =>
    simp only [Looper.runActions] at h
    split at h
    · exact ih (hs.step a ‹_›) h
    · cases h

/-! ### What one step does -/

variable {s t : Looper}

theorem step_schedule (h : s.step .schedule = some (.ok t)) :
    t = { s with queue := ⟨s.queue.queue ++ [some s.accepted]⟩,
                 posting := s.accepted ::ₘ s.posting, accepted := s.accepted + 1 } := by
  simp only [step, MainThreadTaskQueue.push, emplaceBack, moveConstruct, moveAssign, Except.map,
    Option.some.injEq, Except.ok.injEq] at h
  exact h.symm

theorem step_post {n : Nat} (h : s.step (.post n) = some (.ok t)) :
    n ∈ s.posting ∧
      t = { s with pipe := if s.pipe < s.capacity then s.pipe + 1 else s.pipe,
                   posting := s.posting.erase n,
                   missed := if s.pipe < s.capacity then s.missed else s.missed + 1 } := by
  simp only [step, post_eq] at h
  split at h
  · exact ⟨‹_›, (Except.ok.inj (Option.some.inj h)).symm⟩
  · cases h

theorem step_callback (h : s.step .callback = some (.ok t)) :
    (s.pipe = 0 ∧ t = s) ∨
      ∃ pipe, s.pipe = pipe + 1 ∧
        ((s.queue.queue = [] ∧ t = { s with pipe }) ∨
          ∃ x rest, s.queue.queue = some x :: rest ∧
            t = { s with pipe, queue := ⟨rest⟩, invoked := s.invoked ++ [x] }) := by
  rcases hp : s.pipe with _ | pipe
  · simp only [step, hp, read] at h
    exact .inl ⟨rfl, (Except.ok.inj (Option.some.inj h)).symm⟩
  · refine .inr ⟨pipe, rfl, ?_⟩
    simp only [step, hp, read, Int.reduceLT, ↓reduceIte, MainThreadTaskQueue.tryPop,
      Option.some.injEq] at h
    rcases hq : s.queue.queue with _ | ⟨_ | y, rest⟩ <;> simp only [hq] at h
    · exact .inl ⟨rfl, (Except.ok.inj h).symm⟩
    · cases h
    · exact .inr ⟨y, rest, rfl, (Except.ok.inj h).symm⟩

theorem step_clear (h : s.step .clear = some (.ok t)) :
    t = { s with queue := ⟨[]⟩, cleared := s.cleared + queued s.queue.queue } :=
  (Except.ok.inj (Option.some.inj h)).symm

/-! ### The invariant -/

structure Inv (s : Looper) : Prop where
  places : queued s.queue.queue + ↑s.invoked + s.cleared = Multiset.range s.accepted
  filled : none ∉ s.queue.queue
  order : (s.invoked ++ s.queue.queue.reduceOption).Pairwise (· < ·)
  failed : s.failed = 0
  signals : s.queue.queue.length ≤ s.pipe + Multiset.card s.posting + s.missed

theorem init_inv (capacity : Nat) : (init capacity).Inv :=
  ⟨rfl, by simp [init], by simp [init], rfl, by simp [init]⟩

theorem Inv.lt_accepted (hi : s.Inv) {x : Nat} (hx : x ∈ s.invoked ++ s.queue.queue.reduceOption) :
    x < s.accepted := by
  have hx' : x ∈ queued s.queue.queue + ↑s.invoked + s.cleared := by
    rcases List.mem_append.mp hx with h | h
    · exact Multiset.mem_add.mpr (.inl (Multiset.mem_add.mpr (.inr h)))
    · exact Multiset.mem_add.mpr
        (.inl (Multiset.mem_add.mpr (.inl (mem_queued.mpr (List.reduceOption_mem_iff.mp h)))))
  simpa [hi.places] using hx'

theorem Inv.schedule (hi : s.Inv) (h : s.step .schedule = some (.ok t)) : t.Inv := by
  obtain rfl := step_schedule h
  have hs := hi.signals
  refine ⟨?_, by simpa using hi.filled, ?_, hi.failed, ?_⟩ <;> dsimp only
  · rw [queued_append, Multiset.range_succ, ← hi.places]
    simp only [queued_cons, queued_nil, held_some, add_zero, ← Multiset.singleton_add]
    ac_rfl
  · rw [List.reduceOption_append, ← List.append_assoc, List.pairwise_append]
    refine ⟨hi.order, by simp, fun x hx y hy => ?_⟩
    simp only [List.reduceOption_singleton, Option.toList_some, List.mem_singleton] at hy
    exact hy ▸ hi.lt_accepted hx
  · simp only [List.length_append, List.length_singleton, Multiset.card_cons]
    omega

theorem Inv.post {n : Nat} (hi : s.Inv) (h : s.step (.post n) = some (.ok t)) : t.Inv := by
  obtain ⟨hn, rfl⟩ := step_post h
  refine ⟨hi.places, hi.filled, hi.order, hi.failed, ?_⟩
  have := hi.signals
  have := Multiset.card_erase_add_one hn
  dsimp only
  split_ifs <;> omega

theorem Inv.callback (hi : s.Inv) (h : s.step .callback = some (.ok t)) : t.Inv := by
  rcases step_callback h with ⟨-, rfl⟩ | ⟨pipe, hp, ⟨hq, rfl⟩ | ⟨x, rest, hq, rfl⟩⟩
  · exact hi
  · exact ⟨hi.places, hi.filled, hi.order, hi.failed, by simp [hq]⟩
  · have hs := hi.signals
    rw [hq, hp, List.length_cons] at hs
    refine ⟨?_, fun hr => hi.filled (by simp [hq, hr]), ?_, hi.failed, by dsimp only; omega⟩
    · rw [← hi.places, hq]
      simp only [queued_cons, held_some, Multiset.coe_add, ← Multiset.singleton_add]
      simp only [← Multiset.coe_add, Multiset.coe_singleton]
      ac_rfl
    · simpa [hq, List.reduceOption_cons_of_some] using hi.order

theorem Inv.clear (hi : s.Inv) (h : s.step .clear = some (.ok t)) : t.Inv := by
  obtain rfl := step_clear h
  refine ⟨?_, by simp, ?_, hi.failed, by simp⟩
  · rw [← hi.places]
    simp only [queued_nil, zero_add]
    ac_rfl
  · simpa using hi.order.sublist (List.sublist_append_left _ _)

theorem Inv.next (hi : s.Inv) {a : LooperAction} (h : s.step a = some (.ok t)) : t.Inv := by
  cases a with
  | schedule => exact hi.schedule h
  | post n => exact hi.post h
  | callback => exact hi.callback h
  | clear => exact hi.clear h

theorem Reachable.inv (h : s.Reachable) : s.Inv := by
  induction h with
  | init capacity => exact init_inv capacity
  | step a _ hst ih => exact ih.next hst

/-! ### What the callbacks deliver -/

theorem Inv.step_ne_error (hi : s.Inv) (a : LooperAction) (e : String) :
    s.step a ≠ some (.error e) := by
  cases a with
  | schedule => simp [step, MainThreadTaskQueue.push, emplaceBack, moveConstruct, moveAssign,
      Except.map]
  | post n => simp only [step]; split <;> simp
  | callback =>
    rcases hp : s.pipe with _ | pipe
    · simp [step, hp, read]
    · rcases hq : s.queue.queue with _ | ⟨_ | y, rest⟩
      · simp [step, hp, read, hq, MainThreadTaskQueue.tryPop]
      · exact absurd (hq ▸ List.mem_cons_self _ _) hi.filled
      · simp [step, hp, read, hq, MainThreadTaskQueue.tryPop, takeFront, moveAssign, Except.map]
  | clear => simp [step]

theorem full_pipe_strands_task :
    post 1 1 = .ok 1 ∧
      ∃ s : Looper, s.Reachable ∧ s.posting = 0 ∧ s.failed = 0 ∧ s.pipe = 0 ∧
        s.queue.queue = [some 1] ∧ s.invoked = [0] ∧ s.step .callback = some (.ok s) :=
  ⟨rfl, _, (Reachable.init 1).runActions (show (init 1).runActions
    [.schedule, .post 0, .schedule, .post 1, .callback] = some _ from rfl),
    rfl, rfl, rfl, rfl, rfl, rfl⟩

/-! ### What the bytes deliver -/

theorem Inv.callback_ok (hi : s.Inv) : ∃ t, s.step .callback = some (.ok t) := by
  obtain ⟨r, hr⟩ : ∃ r, s.step .callback = some r := by
    simp only [step]
    split <;> exact ⟨_, rfl⟩
  cases r with
  | error e => exact absurd hr (hi.step_ne_error _ e)
  | ok t => exact ⟨t, hr⟩

theorem callback_of_byte {pipe : Nat} (h : s.step .callback = some (.ok t))
    (hp : s.pipe = pipe + 1) :
    t.pipe = pipe ∧ t.queue.queue = s.queue.queue.drop 1 ∧
      t.invoked = s.invoked ++ (s.queue.queue.take 1).reduceOption ∧
      t.posting = s.posting ∧ t.missed = s.missed := by
  rcases step_callback h with ⟨h0, -⟩ | ⟨pipe', hp', ⟨hq, rfl⟩ | ⟨x, rest, hq, rfl⟩⟩
  · omega
  · obtain rfl : pipe' = pipe := by omega
    simp [hq]
  · obtain rfl : pipe' = pipe := by omega
    simp [hq]

theorem Inv.callbacks (hi : s.Inv) (n : Nat) (hn : s.pipe = n) :
    ∃ t, s.runActions (List.replicate n .callback) = some t ∧ t.Inv ∧ t.pipe = 0 ∧
      t.queue.queue = s.queue.queue.drop n ∧
      t.invoked = s.invoked ++ (s.queue.queue.take n).reduceOption ∧
      t.posting = s.posting ∧ t.missed = s.missed := by
  induction n generalizing s with
  | zero => exact ⟨s, rfl, hi, hn, rfl, by simp, rfl, rfl⟩
  | succ n ih =>
    obtain ⟨u, hu⟩ := hi.callback_ok
    obtain ⟨hup, huq, hui, hpost, hmiss⟩ := callback_of_byte hu hn
    obtain ⟨t, ht, hti, htp, htq, htinv, htpost, htmiss⟩ := ih (hi.next hu) hup
    refine ⟨t, ?_, hti, htp, ?_, ?_, htpost.trans hpost, htmiss.trans hmiss⟩
    · simp only [List.replicate_succ, runActions, hu, ht]
    · rw [htq, huq, List.drop_drop, Nat.add_comm]
    · rw [htinv, hui, huq, Nat.add_comm, List.take_add, List.reduceOption_append,
        List.append_assoc]

theorem callbacks_deliver_queued_tasks (hs : s.Reachable) (hp : s.posting = 0) :
    ∃ t, s.runActions (List.replicate s.pipe .callback) = some t ∧ t.pipe = 0 ∧
      t.invoked = s.invoked ++ (s.queue.queue.take s.pipe).reduceOption ∧
      t.queue.queue = s.queue.queue.drop s.pipe ∧ t.queue.queue.length ≤ s.missed := by
  obtain ⟨t, ht, -, htp, htq, hti, -, -⟩ := hs.inv.callbacks s.pipe rfl
  have hsig := hs.inv.signals
  rw [hp, Multiset.card_zero] at hsig
  exact ⟨t, ht, htp, hti, htq, by rw [htq, List.length_drop]; omega⟩

theorem callbacks_deliver_queued_tasks_full_pipe :
    ∃ s : Looper, s.Reachable ∧ s.posting = 0 ∧ s.missed = 1 ∧ s.pipe = 1 ∧
      s.queue.queue = [some 0, some 1] ∧
      ∃ t, s.runActions (List.replicate s.pipe .callback) = some t ∧ t.pipe = 0 ∧
        t.invoked = s.invoked ++ (s.queue.queue.take s.pipe).reduceOption ∧
        t.queue.queue = s.queue.queue.drop s.pipe ∧ t.queue.queue.length ≤ s.missed := by
  have hs := (Reachable.init 1).runActions (show (init 1).runActions
    [.schedule, .post 0, .schedule, .post 1] = some _ from rfl)
  exact ⟨_, hs, rfl, rfl, rfl, rfl, callbacks_deliver_queued_tasks hs rfl⟩

end Looper

/-! ### No `work_item` assertion fires -/

theorem queued_work_items_nonempty {N : Nat} [NeZero N] {s : Pool N} {l : Looper}
    (hs : Reachable s) (hl : l.Reachable) :
    (∀ i, none ∉ (s.queues i).queue) ∧ (∀ a e, step s a ≠ some (.error e)) ∧
      none ∉ l.queue.queue ∧ ∀ a e, l.step a ≠ some (.error e) :=
  ⟨hs.inv.filled, hs.inv.step_ne_error, hl.inv.filled, hl.inv.step_ne_error⟩

theorem queued_work_items_nonempty_queued :
    ∃ (s : Pool 1) (l : Looper), Reachable s ∧ l.Reachable ∧ (s.queues 0).queue = [some 0] ∧
      l.queue.queue = [some 0] ∧
      ((∀ i, none ∉ (s.queues i).queue) ∧ (∀ a e, step s a ≠ some (.error e)) ∧
        none ∉ l.queue.queue ∧ ∀ a e, l.step a ≠ some (.error e)) := by
  have hs := Reachable.init.runActions (show runActions (Pool.init 1)
    [.call, .caller ⟨some 0, 0, 0⟩ true] = some _ from rfl)
  have hl := (Looper.Reachable.init 1).runActions (show (Looper.init 1).runActions
    [.schedule, .post 0] = some _ from rfl)
  exact ⟨_, _, hs, hl, rfl, rfl, queued_work_items_nonempty hs hl⟩

end Schedulers
