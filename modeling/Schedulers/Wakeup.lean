import Schedulers.TaskQueue

/- The condition variable of `pop` (`part_003:56-114`): only the queue's owner waits on
`_ready`, and `push`, `try_push` and `done()` notify after releasing the lock. -/

namespace Schedulers

open WorkItem

inductive PopPc
  | outside
  | waiting
  | woken
  deriving DecidableEq, Repr

/-- One queue, its owner, and the notifications under way. -/
structure Monitor where
  q : ThreadPoolTaskQueue
  owner : PopPc
  notifying : Nat

inductive MonitorOp
  | pop
  | wake
  | spurious
  | push (f : WorkItem)
  | tryPush (f : WorkItem) (locked : Bool)
  | tryPop (locked : Bool)
  | done
  | notify
  deriving DecidableEq, Repr

namespace Monitor

def init : Monitor := ⟨.empty, .outside, 0⟩

/-- `while(_queue.empty() && !_done) _ready.wait(lock);` under the lock. -/
def test (m : Monitor) : Except String Monitor :=
  match m.q.pop none with
  | none => .ok { m with owner := .waiting }
  | some r => r.map fun (_, _, q) => { m with q, owner := .outside }

def step (m : Monitor) : MonitorOp → Option (Except String Monitor)
  | .pop => if m.owner = .outside then some m.test else none
  | .wake => if m.owner = .woken then some m.test else none
  | .spurious => if m.owner = .waiting then some (.ok { m with owner := .woken }) else none
  | .push f => some <| (m.q.push f).map fun (_, q) => { m with q, notifying := m.notifying + 1 }
  | .tryPush f locked => some <| (m.q.tryPush locked f).map fun (b, _, q) =>
      { m with q, notifying := if b then m.notifying + 1 else m.notifying }
  | .tryPop locked => some <| (m.q.tryPop locked none).map fun (_, _, q) => { m with q }
  | .done => some (.ok { m with q := m.q.setDone, notifying := m.notifying + 1 })
  | .notify =>
    if 0 < m.notifying then
      some (.ok { m with notifying := m.notifying - 1,
                         owner := if m.owner = .waiting then .woken else m.owner })
    else none

inductive Reachable : Monitor → Prop
  | init : Reachable init
  | step {m m' : Monitor} (op : MonitorOp) : Reachable m → m.step op = some (.ok m') →
      Reachable m'

/-- The owner waits only while `pop` would, or while a notification is under way. -/
def Awaited (m : Monitor) : Prop :=
  m.owner = .waiting → (m.q.queue = [] ∧ m.q.done = false) ∨ 0 < m.notifying

variable {m m' : Monitor}

theorem test_awaited (h : m.test = .ok m') : m'.Awaited := fun hw => by
  unfold test at h
  split at h
  · rename_i hp
    cases h
    unfold ThreadPoolTaskQueue.pop at hp
    split at hp
    · rename_i hq
      split at hp
      · cases hp
      · exact .inl ⟨hq, Bool.eq_false_iff.mpr ‹_›⟩
    · cases hp
  · obtain ⟨_, -, rfl⟩ := except_map_eq_ok.mp h
    cases hw

theorem Awaited.of_q (ha : m.Awaited) {q : ThreadPoolTaskQueue} (hq : q.done = m.q.done)
    (hempty : m.q.queue = [] → q.queue = []) : ({ m with q } : Monitor).Awaited := fun hw => by
  rcases ha hw with ⟨he, hd⟩ | hn
  · exact .inl ⟨hempty he, hq.trans hd⟩
  · exact .inr hn

theorem Awaited.step (ha : m.Awaited) {op : MonitorOp} (h : m.step op = some (.ok m')) :
    m'.Awaited := by
  cases op with
  | pop | wake =>
    simp only [Monitor.step, Option.ite_none_right_eq_some, Option.some.injEq] at h
    exact test_awaited h.2
  | spurious =>
    simp only [Monitor.step, Option.ite_none_right_eq_some, Option.some.injEq,
      Except.ok.injEq] at h
    obtain ⟨-, rfl⟩ := h
    exact fun hw => nomatch hw
  | push f =>
    obtain ⟨_, -, rfl⟩ := except_map_eq_ok.mp (Option.some.inj h)
    exact fun _ => .inr (Nat.succ_pos _)
  | tryPush f locked =>
    obtain ⟨⟨b, f', q⟩, hp, rfl⟩ := except_map_eq_ok.mp (Option.some.inj h)
    cases b
    · obtain ⟨-, rfl⟩ := (ThreadPoolTaskQueue.tryPush_spec hp).2.2 rfl
      exact ha
    · exact fun _ => .inr (Nat.succ_pos _)
  | tryPop locked =>
    obtain ⟨⟨b, f', q⟩, hp, rfl⟩ := except_map_eq_ok.mp (Option.some.inj h)
    refine ha.of_q (ThreadPoolTaskQueue.tryPop_spec hp).1.done fun he => ?_
    cases b
    · rw [((ThreadPoolTaskQueue.tryPop_spec hp).2.2 rfl).2]; exact he
    · unfold ThreadPoolTaskQueue.tryPop at hp
      split at hp <;> simp_all
  | done =>
    cases h
    exact fun _ => .inr (Nat.succ_pos _)
  | notify =>
    simp only [Monitor.step, Option.ite_none_right_eq_some, Option.some.injEq,
      Except.ok.injEq] at h
    obtain ⟨-, rfl⟩ := h
    intro hw
    split at hw <;> simp_all

theorem Reachable.awaited (hm : m.Reachable) : m.Awaited := by
  induction hm with
  | init => exact fun hw => nomatch hw
  | step _ _ h ih => exact ih.step h

theorem pop_wakeup_not_lost (hm : m.Reachable) (hw : m.owner = .waiting)
    (hready : m.q.queue ≠ [] ∨ m.q.done = true) :
    0 < m.notifying ∧ ∃ m', m.step .notify = some (.ok m') ∧ m'.owner = .woken := by
  have hn : 0 < m.notifying := (hm.awaited hw).resolve_left fun ⟨he, hd⟩ => by
    rcases hready with h | h
    · exact h he
    · simp [hd] at h
  exact ⟨hn, { m with notifying := m.notifying - 1, owner := .woken },
    by simp [Monitor.step, hn, hw], rfl⟩

theorem pop_wakeup_not_lost_after_push :
    ∃ m : Monitor, m.Reachable ∧ m.owner = .waiting ∧ m.q.queue = [some 0] ∧
      (0 < m.notifying ∧ ∃ m', m.step .notify = some (.ok m') ∧ m'.owner = .woken) := by
  have hm : Reachable _ := .step (.push (some 0)) (.step .pop .init rfl) rfl
  exact ⟨_, hm, rfl, rfl, pop_wakeup_not_lost hm rfl (.inl (List.cons_ne_nil _ _))⟩

end Monitor

end Schedulers
