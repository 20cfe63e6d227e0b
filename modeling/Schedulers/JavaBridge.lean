import Mathlib.Logic.Function.Basic
import Mathlib.Order.Basic

/- `SharedNativeThreadPoolExecutor.java` and its natives (`part_003:279-344`): the `F`
objects owning JNI global references, and `shutdown()` deleting the native handle. -/

namespace Schedulers

namespace JavaBridge

/-! ### Global references and the `F` objects -/

/-- JNI's global references, numbered in the order `NewGlobalRef` created them. -/
structure GlobalRefs where
  next : Nat
  referent : Nat → Nat
  deleted : Nat → Bool

/-- `NewGlobalRef`: `NULL` when the JVM is out of memory (`granted = false`). -/
def GlobalRefs.create (g : GlobalRefs) (o : Nat) (granted : Bool) : Option Nat × GlobalRefs :=
  if granted then
    (some g.next, { next := g.next + 1, referent := Function.update g.referent g.next o,
                    deleted := Function.update g.deleted g.next false })
  else (none, g)

structure Wrappers where
  refs : GlobalRefs
  obj : Nat → Option (Option Nat)
  objs : Nat
  ran : List Nat

inductive WrapperOp
  | make (runnable : Option Nat) (granted : Bool)
  | copy (src : Nat) (granted : Bool)
  | move (src : Nat)
  | call (i : Nat)
  | destroy (i : Nat)
  deriving DecidableEq, Repr

namespace Wrappers

def empty : Wrappers := ⟨⟨0, fun _ => 0, fun _ => false⟩, fun _ => none, 0, []⟩

def add (s : Wrappers) (r : Option Nat) : Wrappers :=
  { s with obj := Function.update s.obj s.objs (some r), objs := s.objs + 1 }

/-- `F(JNIEnv* jniEnv, jobject runnable)`. -/
def make (s : Wrappers) (runnable : Option Nat) (granted : Bool) : Wrappers :=
  match runnable with
  | none => s.add none
  | some o =>
    let (r, refs) := s.refs.create o granted
    { s with refs }.add r

/-- `F(const F& other)`; a deleted global reference may not be used. -/
def copy (s : Wrappers) (r : Option Nat) (granted : Bool) : Except String Wrappers :=
  match r with
  | none => .ok (s.add none)
  | some r =>
    if s.refs.deleted r then .error "deleted global reference"
    else
      let (r', refs) := s.refs.create (s.refs.referent r) granted
      .ok ({ s with refs }.add r')

/-- `F(F&& other)`. -/
def move (s : Wrappers) (src : Nat) (r : Option Nat) : Wrappers :=
  { s with obj := Function.update s.obj src (some none) }.add r

/-- `F::operator()`. -/
def call (s : Wrappers) (r : Option Nat) : Except String Wrappers :=
  match r with
  | none => .error "lost runnable reference"
  | some r =>
    if s.refs.deleted r then .error "deleted global reference"
    else .ok { s with ran := s.ran ++ [s.refs.referent r] }

/-- `~F()`. -/
def destroy (s : Wrappers) (i : Nat) (r : Option Nat) : Except String Wrappers :=
  let gone := { s with obj := Function.update s.obj i none }
  match r with
  | none => .ok gone
  | some r =>
    if s.refs.deleted r then .error "deleted global reference"
    else .ok { gone with refs := { s.refs with deleted := Function.update s.refs.deleted r true } }

theorem destroy_eq_ok {s t : Wrappers} {i : Nat} {r : Option Nat} (h : s.destroy i r = .ok t) :
    t.obj = Function.update s.obj i none ∧ t.objs = s.objs ∧ t.refs.next = s.refs.next ∧
      ∀ ρ, t.refs.deleted ρ = (decide (r = some ρ) || s.refs.deleted ρ) := by
  cases r with
  | none => cases h; simp
  | some ρ₀ =>
    simp only [destroy] at h
    split at h
    · cases h
    · cases h
      refine ⟨rfl, rfl, rfl, fun ρ => ?_⟩
      by_cases e : ρ = ρ₀
      · subst e; simp
      · simp [Function.update_noteq e, Ne.symm e]

def step (s : Wrappers) : WrapperOp → Option (Except String Wrappers)
  | .make runnable granted => some (.ok (s.make runnable granted))
  | .copy src granted => (s.obj src).map fun r => s.copy r granted
  | .move src => (s.obj src).map fun r => .ok (s.move src r)
  | .call i => (s.obj i).map s.call
  | .destroy i => (s.obj i).map (s.destroy i)

inductive Reachable : Wrappers → Prop
  | empty : Reachable empty
  | step {s t : Wrappers} (op : WrapperOp) : Reachable s → s.step op = some (.ok t) → Reachable t

/-! ### Every global reference has exactly one owner -/

structure RefInv (s : Wrappers) : Prop where
  fresh : ∀ i, s.objs ≤ i → s.obj i = none
  live : ∀ i r, s.obj i = some (some r) → r < s.refs.next ∧ s.refs.deleted r = false
  unique : ∀ i j r, s.obj i = some (some r) → s.obj j = some (some r) → i = j
  held : ∀ r, r < s.refs.next → s.refs.deleted r = false → ∃ i, s.obj i = some (some r)

namespace RefInv

variable {s : Wrappers}

theorem empty : Wrappers.empty.RefInv :=
  ⟨fun _ _ => rfl, fun _ _ h => (nomatch h), fun _ _ _ h => (nomatch h),
    fun _ h => absurd h (Nat.not_lt_zero _)⟩

theorem ne_objs (hi : s.RefInv) {i : Nat} {r : Option Nat} (h : s.obj i = some r) : i ≠ s.objs :=
  fun e => by simp [hi.fresh i (Nat.le_of_eq e.symm)] at h

theorem add (hi : s.RefInv) {g : GlobalRefs} {r₀ : Option Nat}
    (hg : ∀ r, r < s.refs.next → r < g.next ∧ g.deleted r = s.refs.deleted r)
    (hnew : ∀ r ∈ r₀, r < g.next ∧ g.deleted r = false ∧ ∀ i, s.obj i ≠ some (some r))
    (hheld : ∀ r, r < g.next → ¬r < s.refs.next → r₀ = some r) :
    ({ s with refs := g }.add r₀).RefInv := by
  have hobj : ∀ i r, ({ s with refs := g }.add r₀).obj i = some (some r) →
      (i = s.objs ∧ r₀ = some r) ∨ s.obj i = some (some r) := fun i r h => by
    rcases eq_or_ne i s.objs with rfl | hi'
    · exact .inl ⟨rfl, by simpa [Wrappers.add] using h⟩
    · exact .inr (by simpa [Wrappers.add, hi'] using h)
  have hkeep : ∀ i r, s.obj i = some r → ({ s with refs := g }.add r₀).obj i = some r :=
    fun i r h => by simp [Wrappers.add, hi.ne_objs h, h]
  refine ⟨fun i h => ?_, fun i r h => ?_, fun i j r h₁ h₂ => ?_, fun r hr hd => ?_⟩
  · simp only [Wrappers.add] at h ⊢
    rw [Function.update_noteq (by omega), hi.fresh i (by omega)]
  · rcases hobj i r h with ⟨-, rfl⟩ | h
    · exact ⟨(hnew r rfl).1, (hnew r rfl).2.1⟩
    · have := hi.live i r h
      exact ⟨(hg r this.1).1, (hg r this.1).2.trans this.2⟩
  · rcases hobj i r h₁ with ⟨rfl, rfl⟩ | h₁ <;>
      rcases hobj j r h₂ with ⟨rfl, hr⟩ | h₂
    · rfl
    · exact absurd h₂ ((hnew r rfl).2.2 j)
    · exact absurd h₁ ((hnew r (hr ▸ rfl)).2.2 i)
    · exact hi.unique i j r h₁ h₂
  · by_cases hr' : r < s.refs.next
    · obtain ⟨i, h⟩ := hi.held r hr' ((hg r hr').2 ▸ hd)
      exact ⟨i, hkeep i _ h⟩
    · exact ⟨s.objs, by simp [Wrappers.add, hheld r hr hr']⟩

theorem add_none (hi : s.RefInv) : (s.add none).RefInv :=
  hi.add (fun _ hr => ⟨hr, rfl⟩) (fun _ h => nomatch h) (fun _ hr hr' => absurd hr hr')

theorem create_add (hi : s.RefInv) (o : Nat) (granted : Bool) :
    ({ s with refs := (s.refs.create o granted).2 }.add (s.refs.create o granted).1).RefInv := by
  cases granted
  · exact hi.add_none
  · refine hi.add (fun r hr => ⟨by simp [GlobalRefs.create]; omega, ?_⟩) (fun r hr => ?_)
      (fun r hr hr' => ?_)
    · simp [GlobalRefs.create, Function.update_noteq (Nat.ne_of_lt hr)]
    · cases hr
      exact ⟨by simp [GlobalRefs.create], by simp [GlobalRefs.create],
        fun i h => absurd (hi.live i _ h).1 (Nat.lt_irrefl _)⟩
    · simp [GlobalRefs.create] at hr ⊢; omega

theorem make (hi : s.RefInv) (runnable : Option Nat) (granted : Bool) :
    (s.make runnable granted).RefInv := by
  cases runnable with
  | none => exact hi.add_none
  | some o => exact hi.create_add o granted

theorem move (hi : s.RefInv) {src : Nat} {r : Option Nat} (hsrc : s.obj src = some r) :
    (s.move src r).RefInv := by
  have hlt : src < s.objs := Nat.lt_of_not_le fun h => by simp [hi.fresh src h] at hsrc
  have hobj : ∀ i, (s.move src r).obj i =
      if i = s.objs then some r else if i = src then some none else s.obj i := fun i => by
    simp only [Wrappers.move, Wrappers.add, Function.update_apply]
  -- a live `F` after the move held its reference before it, at the same
  -- address or, for the new one, at the source's
  have horig : ∀ k ρ, (s.move src r).obj k = some (some ρ) →
      k ≠ src ∧ s.obj (if k = s.objs then src else k) = some (some ρ) := fun k ρ h => by
    rw [hobj] at h
    split_ifs at h ⊢ with h₁ h₂
    · exact ⟨by omega, hsrc.trans h⟩
    · cases h
    · exact ⟨h₂, h⟩
  refine ⟨fun i h => ?_, fun i ρ h => hi.live _ ρ (horig i ρ h).2, fun i j ρ h₁ h₂ => ?_,
    fun ρ hρ hd => ?_⟩
  · have h : s.objs + 1 ≤ i := h
    rw [hobj, if_neg (by omega), if_neg (by omega), hi.fresh i (by omega)]
  · obtain ⟨hi₁, h₁⟩ := horig i ρ h₁
    obtain ⟨hj₁, h₂⟩ := horig j ρ h₂
    have := hi.unique _ _ ρ h₁ h₂
    split_ifs at this <;> omega
  · obtain ⟨i, h⟩ := hi.held ρ hρ hd
    by_cases his : i = src
    · subst his
      exact ⟨s.objs, by rw [hobj, if_pos rfl, ← Option.some.inj (hsrc.symm.trans h)]⟩
    · exact ⟨i, by rw [hobj, if_neg (hi.ne_objs h), if_neg his, h]⟩

theorem destroy (hi : s.RefInv) {i : Nat} {r : Option Nat} (hs : s.obj i = some r) {t : Wrappers}
    (h : s.destroy i r = .ok t) : t.RefInv := by
  obtain ⟨hobj, hobjs, hnext, hdel⟩ := destroy_eq_ok h
  have hne : ∀ j ρ, s.obj j = some (some ρ) → j ≠ i → r ≠ some ρ :=
    fun j ρ hj hji hr => hji (hi.unique j i ρ hj (hr ▸ hs))
  have hlive : ∀ j ρ, t.obj j = some (some ρ) → j ≠ i ∧ s.obj j = some (some ρ) :=
    fun j ρ h => by
      rw [hobj, Function.update_apply] at h
      split_ifs at h with hji
      exact ⟨hji, h⟩
  refine ⟨fun j hj => ?_, fun j ρ h => ?_, fun j k ρ h₁ h₂ => ?_, fun ρ hρ hd => ?_⟩
  · rw [hobj, Function.update_apply, hi.fresh j (hobjs ▸ hj), ite_self]
  · obtain ⟨hji, h⟩ := hlive j ρ h
    rw [hnext, hdel, decide_eq_false (hne j ρ h hji), Bool.false_or]
    exact hi.live j ρ h
  · exact hi.unique j k ρ (hlive j ρ h₁).2 (hlive k ρ h₂).2
  · rw [hdel, Bool.or_eq_false_iff, decide_eq_false_iff_not] at hd
    obtain ⟨j, hj⟩ := hi.held ρ (hnext ▸ hρ) hd.2
    have hji : j ≠ i := by rintro rfl; exact hd.1 (Option.some.inj (hs.symm.trans hj))
    exact ⟨j, by rw [hobj, Function.update_noteq hji, hj]⟩

theorem copy (hi : s.RefInv) {r : Option Nat} {granted : Bool} {t : Wrappers}
    (h : s.copy r granted = .ok t) : t.RefInv := by
  cases r with
  | none => cases h; exact hi.add_none
  | some ρ =>
    simp only [Wrappers.copy] at h
    split at h
    · cases h
    · cases h; exact hi.create_add _ granted

theorem call (hi : s.RefInv) {r : Option Nat} {t : Wrappers} (h : s.call r = .ok t) :
    t.RefInv := by
  cases r with
  | none => cases h
  | some ρ =>
    simp only [Wrappers.call] at h
    split at h
    · cases h
    · cases h; exact ⟨hi.fresh, hi.live, hi.unique, hi.held⟩

theorem step (hi : s.RefInv) {op : WrapperOp} {t : Wrappers} (h : s.step op = some (.ok t)) :
    t.RefInv := by
  cases op with
  | make runnable granted => cases h; exact hi.make runnable granted
  | copy src granted =>
    obtain ⟨r, -, h⟩ := Option.map_eq_some'.mp h
    exact hi.copy h
  | move src =>
    obtain ⟨r, hr, h⟩ := Option.map_eq_some'.mp h
    cases h; exact hi.move hr
  | call i =>
    obtain ⟨r, -, h⟩ := Option.map_eq_some'.mp h
    exact hi.call h
  | destroy i =>
    obtain ⟨r, hr, h⟩ := Option.map_eq_some'.mp h
    exact hi.destroy hr h

theorem step_error (hi : s.RefInv) {op : WrapperOp} {e : String}
    (h : s.step op = some (.error e)) : e = "lost runnable reference" := by
  have hlive : ∀ i ρ, s.obj i = some (some ρ) → s.refs.deleted ρ = false := fun i ρ h =>
    (hi.live i ρ h).2
  cases op with
  | make => cases h
  | move => obtain ⟨r, -, h⟩ := Option.map_eq_some'.mp h; cases h
  | copy i _ | call i | destroy i =>
    obtain ⟨r, hr, h⟩ := Option.map_eq_some'.mp h
    cases r with
    | none => cases h <;> rfl
    | some ρ =>
      simp only [Wrappers.copy, Wrappers.call, Wrappers.destroy, hlive i ρ hr] at h
      cases h

end RefInv

theorem Reachable.refInv {s : Wrappers} (hs : s.Reachable) : s.RefInv := by
  induction hs with
  | empty => exact RefInv.empty
  | step _ _ h ih => exact ih.step h

theorem global_refs_owned {s : Wrappers} (hs : s.Reachable) :
    (∀ r, r < s.refs.next → (s.refs.deleted r = false ↔ ∃ i, s.obj i = some (some r))) ∧
    (∀ i j r, s.obj i = some (some r) → s.obj j = some (some r) → i = j) ∧
    ∀ op e, s.step op = some (.error e) → e = "lost runnable reference" := by
  have hi := hs.refInv
  exact ⟨fun r hr => ⟨hi.held r hr, fun ⟨i, h⟩ => (hi.live i r h).2⟩, hi.unique,
    fun _ _ => hi.step_error⟩

theorem global_refs_owned_copy_move_destroy :
    ∃ s : Wrappers, s.Reachable ∧ s.refs.next = 2 ∧
      ((∀ r, r < s.refs.next → (s.refs.deleted r = false ↔ ∃ i, s.obj i = some (some r))) ∧
      (∀ i j r, s.obj i = some (some r) → s.obj j = some (some r) → i = j) ∧
      ∀ op e, s.step op = some (.error e) → e = "lost runnable reference") := by
  have hs : Reachable _ := .step (.destroy 0) (.step (.move 1) (.step (.copy 0 true)
    (.step (.make (some 5) true) .empty rfl) rfl) rfl) rfl
  exact ⟨_, hs, rfl, global_refs_owned hs⟩

end Wrappers

/-! ### `shutdown()` deletes the native pool once -/

inductive ExecutorPc
  | idle
  | shutdown
  | execute
  | loaded
  deriving DecidableEq, Repr

structure Executor where
  destroyed : Bool
  deleted : Bool
  pc : Nat → ExecutorPc

inductive ExecutorOp
  | shutdown (t : Nat)
  | nativeShutdown (t : Nat)
  | execute (t : Nat) (assertions : Bool)
  | loadRef (t : Nat)
  | callRef (t : Nat)
  deriving DecidableEq, Repr

namespace Executor

def init : Executor := ⟨false, false, fun _ => .idle⟩

/-- One atomic step of thread `t`; a deleted handle, or a `ref` into one, may not be used. -/
def step (e : Executor) : ExecutorOp → Option (Except String Executor)
  | .shutdown t =>
    if e.pc t = .idle then
      some (.ok { e with destroyed := true,
                         pc := Function.update e.pc t (if e.destroyed then .idle else .shutdown) })
    else none
  | .nativeShutdown t =>
    if e.pc t = .shutdown then
      some (if e.deleted then .error "deleted native handle"
        else .ok { e with deleted := true, pc := Function.update e.pc t .idle })
    else none
  | .execute t assertions =>
    if e.pc t = .idle then
      some (if assertions && e.destroyed then .error "trying to use a destroyed object"
        else .ok { e with pc := Function.update e.pc t .execute })
    else none
  | .loadRef t =>
    if e.pc t = .execute then
      some (if e.deleted then .error "deleted native handle"
        else .ok { e with pc := Function.update e.pc t .loaded })
    else none
  | .callRef t =>
    if e.pc t = .loaded then
      some (if e.deleted then .error "deleted native handle"
        else .ok { e with pc := Function.update e.pc t .idle })
    else none

theorem step_eq_ok {e e' : Executor} {op : ExecutorOp} (h : e.step op = some (.ok e')) :
    (∃ t, op = .shutdown t ∧ e.pc t = .idle ∧
      e' = { e with destroyed := true,
                    pc := Function.update e.pc t (if e.destroyed then .idle else .shutdown) }) ∨
    (∃ t, op = .nativeShutdown t ∧ e.pc t = .shutdown ∧ e.deleted = false ∧
      e' = { e with deleted := true, pc := Function.update e.pc t .idle }) ∨
    (∃ t a, op = .execute t a ∧ e.pc t = .idle ∧ (a && e.destroyed) = false ∧
      e' = { e with pc := Function.update e.pc t .execute }) ∨
    (∃ t, op = .loadRef t ∧ e.pc t = .execute ∧ e.deleted = false ∧
      e' = { e with pc := Function.update e.pc t .loaded }) ∨
    (∃ t, op = .callRef t ∧ e.pc t = .loaded ∧ e.deleted = false ∧
      e' = { e with pc := Function.update e.pc t .idle }) := by
  cases op with
  | shutdown t =>
    by_cases ht : e.pc t = .idle
    · simp only [step, if_pos ht, Option.some.injEq, Except.ok.injEq] at h
      exact .inl ⟨t, rfl, ht, h.symm⟩
    · simp [step, ht] at h
  | nativeShutdown t =>
    by_cases ht : e.pc t = .shutdown
    · cases hd : e.deleted <;> simp [step, ht, hd] at h
      exact .inr (.inl ⟨t, rfl, ht, rfl, h.symm⟩)
    · simp [step, ht] at h
  | execute t a =>
    by_cases ht : e.pc t = .idle
    · cases hd : (a && e.destroyed) <;> simp [step, ht, hd] at h
      exact .inr (.inr (.inl ⟨t, a, rfl, ht, hd, h.symm⟩))
    · simp [step, ht] at h
  | loadRef t =>
    by_cases ht : e.pc t = .execute
    · cases hd : e.deleted <;> simp [step, ht, hd] at h
      exact .inr (.inr (.inr (.inl ⟨t, rfl, ht, rfl, h.symm⟩)))
    · simp [step, ht] at h
  | callRef t =>
    by_cases ht : e.pc t = .loaded
    · cases hd : e.deleted <;> simp [step, ht, hd] at h
      exact .inr (.inr (.inr (.inr ⟨t, rfl, ht, rfl, h.symm⟩)))
    · simp [step, ht] at h

inductive Reachable : Executor → Prop
  | init : Reachable init
  | step {e e' : Executor} (op : ExecutorOp) : Reachable e → e.step op = some (.ok e') →
      Reachable e'

structure ShutdownInv (e : Executor) : Prop where
  one : ∀ t u, e.pc t = .shutdown → e.pc u = .shutdown → t = u
  pending : ∀ t, e.pc t = .shutdown → e.destroyed = true ∧ e.deleted = false
  flag : e.deleted = true → e.destroyed = true
  owner : e.destroyed = true → e.deleted = true ∨ ∃ t, e.pc t = .shutdown

theorem update_pc_eq {pc : Nat → ExecutorPc} {t u : Nat} {p q : ExecutorPc} :
    Function.update pc t p u = q ↔ (u = t ∧ p = q) ∨ (u ≠ t ∧ pc u = q) := by
  by_cases h : u = t
  · subst h; simp
  · simp [h]

namespace ShutdownInv

variable {e : Executor}

theorem init : Executor.init.ShutdownInv :=
  ⟨fun _ _ h => (nomatch h), fun _ h => (nomatch h), fun h => (nomatch h), fun h => (nomatch h)⟩

theorem of_same (hi : e.ShutdownInv) {e' : Executor} (hd : e'.destroyed = e.destroyed)
    (hh : e'.deleted = e.deleted) (hp : ∀ u, e'.pc u = .shutdown ↔ e.pc u = .shutdown) :
    e'.ShutdownInv := by
  refine ⟨fun t u ht hu => hi.one t u ((hp t).mp ht) ((hp u).mp hu), fun t ht => ?_,
    fun h => ?_, fun h => ?_⟩
  · rw [hd, hh]; exact hi.pending t ((hp t).mp ht)
  · rw [hd]; exact hi.flag (hh ▸ h)
  · rcases hi.owner (hd ▸ h) with h | ⟨t, ht⟩
    · exact .inl (hh ▸ h)
    · exact .inr ⟨t, (hp t).mpr ht⟩

theorem shutdown (hi : e.ShutdownInv) {t : Nat} (ht : e.pc t = .idle) :
    ({ e with destroyed := true,
               pc := Function.update e.pc t (if e.destroyed then .idle else .shutdown) } :
      Executor).ShutdownInv := by
  cases hd : e.destroyed with
  | true =>
    refine ⟨fun u v hu hv => ?_, fun u hu => ?_, fun _ => rfl, fun _ => ?_⟩
    · simp only [hd, update_pc_eq] at hu hv
      exact hi.one u v (hu.resolve_left (by simp)).2 (hv.resolve_left (by simp)).2
    · simp only [hd, update_pc_eq] at hu
      exact ⟨rfl, (hi.pending u (hu.resolve_left (by simp)).2).2⟩
    · rcases hi.owner hd with h | ⟨u, hu⟩
      · exact .inl h
      · have hut : u ≠ t := fun e => by rw [e, ht] at hu; cases hu
        exact .inr ⟨u, update_pc_eq.mpr (.inr ⟨hut, hu⟩)⟩
  | false =>
    have hnone : ∀ u, e.pc u ≠ .shutdown := fun u hu => by simpa [hd] using (hi.pending u hu).1
    have hdel : e.deleted = false := Bool.eq_false_iff.mpr fun h => by simpa [hd] using hi.flag h
    refine ⟨fun u v hu hv => ?_, fun u _ => ⟨rfl, hdel⟩, fun _ => rfl,
      fun _ => .inr ⟨t, by simp⟩⟩
    simp only [hd, update_pc_eq, hnone, and_false, or_false] at hu hv
    exact hu.1.trans hv.1.symm

theorem nativeShutdown (hi : e.ShutdownInv) {t : Nat} (ht : e.pc t = .shutdown) :
    ({ e with deleted := true, pc := Function.update e.pc t .idle } : Executor).ShutdownInv := by
  have hother : ∀ u, Function.update e.pc t .idle u = .shutdown → False := fun u hu => by
    simp only [update_pc_eq] at hu
    rcases hu with ⟨-, h⟩ | ⟨hu, h⟩
    · cases h
    · exact hu (hi.one u t h ht)
  exact ⟨fun u _ hu => (hother u hu).elim, fun u hu => (hother u hu).elim,
    fun _ => (hi.pending t ht).1, fun _ => .inl rfl⟩

theorem nativeShutdown_ne_error (hi : e.ShutdownInv) (t : Nat) (err : String) :
    e.step (.nativeShutdown t) ≠ some (.error err) := by
  by_cases ht : e.pc t = .shutdown
  · simp [Executor.step, ht, (hi.pending t ht).2]
  · simp [Executor.step, ht]

theorem execute_step (hi : e.ShutdownInv) {t : Nat} {p : ExecutorPc} (ht : e.pc t ≠ .shutdown)
    (hp : p ≠ .shutdown) : ({ e with pc := Function.update e.pc t p } : Executor).ShutdownInv :=
  hi.of_same rfl rfl fun u => by
    by_cases hu : u = t
    · subst hu; simp [ht, hp]
    · simp [hu]

theorem step (hi : e.ShutdownInv) {op : ExecutorOp} {e' : Executor}
    (h : e.step op = some (.ok e')) : e'.ShutdownInv := by
  rcases step_eq_ok h with ⟨t, -, ht, rfl⟩ | ⟨t, -, ht, -, rfl⟩ |
      ⟨t, -, -, ht, -, rfl⟩ | ⟨t, -, ht, -, rfl⟩ | ⟨t, -, ht, -, rfl⟩
  · exact hi.shutdown ht
  · exact hi.nativeShutdown ht
  all_goals exact hi.execute_step (by simp [ht]) nofun

end ShutdownInv

theorem Reachable.shutdownInv {e : Executor} (hs : e.Reachable) : e.ShutdownInv := by
  induction hs with
  | init => exact ShutdownInv.init
  | step _ _ h ih => exact ih.step h

theorem native_shutdown_once {e : Executor} (hs : e.Reachable) :
    (∀ t err, e.step (.nativeShutdown t) ≠ some (.error err)) ∧
    (∀ t u, e.pc t = .shutdown → e.pc u = .shutdown → t = u) ∧
    (e.deleted = true → e.destroyed = true) ∧
    (e.destroyed = true → (∀ t, e.pc t ≠ .shutdown) → e.deleted = true) := by
  have hi := hs.shutdownInv
  exact ⟨hi.nativeShutdown_ne_error, hi.one, hi.flag,
    fun hd hn => (hi.owner hd).resolve_right fun ⟨t, ht⟩ => hn t ht⟩

theorem native_shutdown_once_two_threads :
    ∃ e : Executor, e.Reachable ∧ e.destroyed = true ∧ e.pc 1 = .shutdown ∧
      ((∀ t err, e.step (.nativeShutdown t) ≠ some (.error err)) ∧
      (∀ t u, e.pc t = .shutdown → e.pc u = .shutdown → t = u) ∧
      (e.deleted = true → e.destroyed = true) ∧
      (e.destroyed = true → (∀ t, e.pc t ≠ .shutdown) → e.deleted = true)) := by
  have hs : Reachable _ := .step (.shutdown 2) (.step (.shutdown 1) (.step (.execute 0 true)
    .init rfl) rfl) rfl
  exact ⟨_, hs, rfl, rfl, native_shutdown_once hs⟩

/-! ### `execute(r)` after `shutdown()` -/

/-- Runs with assertions on where no `shutdown()` starts while an `execute(r)` is in
`native_execute`. -/
inductive Orderly : Executor → Prop
  | init : Orderly init
  | step {e e' : Executor} (op : ExecutorOp) : Orderly e → e.step op = some (.ok e') →
      (∀ t, op = .shutdown t → ∀ u, e.pc u ≠ .execute ∧ e.pc u ≠ .loaded) →
      (∀ t a, op = .execute t a → a = true) → Orderly e'

theorem Orderly.reachable {e : Executor} (ho : e.Orderly) : e.Reachable := by
  induction ho with
  | init => exact .init
  | step op _ h _ _ ih => exact .step op ih h

theorem Orderly.checked {e : Executor} (ho : e.Orderly) :
    ∀ t, e.pc t = .execute ∨ e.pc t = .loaded → e.destroyed = false := by
  induction ho with
  | init => exact fun _ h => h.elim (fun h => nomatch h) fun h => nomatch h
  | step op _ h hsd hex ih =>
    rcases step_eq_ok h with ⟨t, rfl, -, rfl⟩ | ⟨t, -, -, -, rfl⟩ |
        ⟨t, a, rfl, -, ha, rfl⟩ | ⟨t, -, ht, -, rfl⟩ | ⟨t, -, -, -, rfl⟩ <;>
      intro u hu <;> simp only [update_pc_eq, reduceCtorEq, and_false, false_or] at hu
    · rcases hu with (⟨-, h⟩ | ⟨-, h⟩) | (⟨-, h⟩ | ⟨-, h⟩)
      · split at h <;> cases h
      · exact absurd h (hsd t rfl u).1
      · split at h <;> cases h
      · exact absurd h (hsd t rfl u).2
    · exact ih u (hu.imp And.right And.right)
    · simpa [hex t a rfl] using ha
    · exact ih t (.inl ht)
    · exact ih u (hu.imp And.right And.right)

theorem native_execute_live_handle {e : Executor} (ho : e.Orderly) (t : Nat) (err : String) :
    e.step (.loadRef t) ≠ some (.error err) ∧ e.step (.callRef t) ≠ some (.error err) := by
  have hlive : ∀ u, e.pc u = .execute ∨ e.pc u = .loaded → e.deleted = false := fun u hu =>
    Bool.eq_false_iff.mpr fun h => by
      simpa [ho.checked u hu] using ho.reachable.shutdownInv.flag h
  constructor
  · by_cases ht : e.pc t = .execute
    · simp [step, ht, hlive t (.inl ht)]
    · simp [step, ht]
  · by_cases ht : e.pc t = .loaded
    · simp [step, ht, hlive t (.inr ht)]
    · simp [step, ht]

theorem native_execute_live_handle_two_threads :
    ∃ e : Executor, e.Orderly ∧ e.pc 1 = .loaded ∧ e.pc 2 = .execute ∧
      ∀ t err, e.step (.loadRef t) ≠ some (.error err) ∧ e.step (.callRef t) ≠ some (.error err) := by
  have hex : ∀ {t a}, ∀ t' a', ExecutorOp.execute t a = .execute t' a' → a' = a :=
    fun _ _ h => (ExecutorOp.execute.inj h).2.symm
  have ho : Orderly _ := .step (.execute 2 true) (.step (.loadRef 1)
    (.step (.execute 1 true) .init rfl nofun hex) rfl nofun nofun) rfl nofun hex
  exact ⟨_, ho, rfl, rfl, native_execute_live_handle ho⟩

end Executor

end JavaBridge

end Schedulers
