import Mathlib.Data.Fintype.Card
import Mathlib.Data.Nat.ModEq

/- The queues `basic_thread_pool::schedule` tries (`part_004:663-676`); the counter and
`thread + i` are `unsigned` and wrap modulo `2^32`. -/

namespace Schedulers

def unsignedRange : Nat := 2 ^ 32

/-- `_next_thread++`. -/
def nextThreadAfter (c : Nat) : Nat := (c + 1) % unsignedRange

/-- `(thread + i) % _num_threads` in `unsigned`. -/
def attemptQueue (numThreads thread i : Nat) : Nat :=
  (thread + i) % unsignedRange % numThreads

/-- `thread % _num_threads`. -/
def fallbackQueue (numThreads thread : Nat) : Nat := thread % numThreads

theorem attemptQueue_lt {n : Nat} (hn : 0 < n) (thread i : Nat) :
    attemptQueue n thread i < n :=
  Nat.mod_lt _ hn

theorem fallbackQueue_lt {n : Nat} (hn : 0 < n) (thread : Nat) : fallbackQueue n thread < n :=
  Nat.mod_lt _ hn

theorem nextThreadAfter_lt (c : Nat) : nextThreadAfter c < unsignedRange :=
  Nat.mod_lt _ (by decide)

/-! ### Where the wrap shows -/

section Wrap

variable {M N s : Nat}

theorem mod_mod_eq_of_lt_or_dvd {x : Nat} (h : x < M ∨ N ∣ M) : x % M % N = x % N := by
  rcases h with h | h
  · rw [Nat.mod_eq_of_lt h]
  · exact Nat.mod_mod_of_dvd x h

theorem wrapped_injective (h : s + N ≤ M ∨ N ∣ M) {a b : Nat} (ha : a < N) (hb : b < N)
    (hab : (s + a) % M % N = (s + b) % M % N) : a = b := by
  have hx : ∀ x < N, (s + x) % M % N = (s + x) % N := fun x hx =>
    mod_mod_eq_of_lt_or_dvd (h.imp_left fun h => by omega)
  rw [hx a ha, hx b hb] at hab
  have := Nat.ModEq.add_left_cancel' s hab
  rwa [Nat.ModEq, Nat.mod_eq_of_lt ha, Nat.mod_eq_of_lt hb] at this

theorem wrapped_collision (hs : s < M) (hwrap : M < s + N) (hd : ¬ N ∣ M) :
    ∃ a b, a < N ∧ b < N ∧ a ≠ b ∧ (s + a) % M % N = (s + b) % M % N := by
  have hr : 0 < M % N := Nat.pos_of_ne_zero fun h => hd (Nat.dvd_of_mod_eq_zero h)
  have hrN : M % N < N := Nat.mod_lt _ (by omega)
  have hdm := Nat.mod_add_div M N
  have hrM := Nat.mod_le M N
  by_cases hle : M % N ≤ M - s
  · refine ⟨M - s - M % N, M - s, by omega, by omega, by omega, ?_⟩
    rw [show s + (M - s - M % N) = N * (M / N) by omega, show s + (M - s) = M by omega,
      Nat.mod_eq_of_lt (a := N * (M / N)) (by omega), Nat.mul_mod_right, Nat.mod_self,
      Nat.zero_mod]
  · refine ⟨0, M % N, by omega, hrN, by omega, ?_⟩
    have hlt : M % N - (M - s) < N := by omega
    rw [show s + 0 = (M % N - (M - s)) + N * (M / N) by omega,
      show s + M % N = (M % N - (M - s)) + M by omega, Nat.add_mod_right,
      Nat.mod_eq_of_lt (b := M) (by omega), Nat.mod_eq_of_lt (b := M) (by omega),
      Nat.add_mul_mod_self_left]

end Wrap

def attemptQueues {N : Nat} (hN : 0 < N) (thread : Nat) (k : Fin N) : Fin N :=
  ⟨attemptQueue N thread k, attemptQueue_lt hN thread k⟩

/-! ### The queues `schedule` tries -/

theorem attempt_queues_wrap {N s : Nat} (hN : 0 < N) (hs : s < unsignedRange) :
    (∀ k, s + k < unsignedRange ∨ N ∣ unsignedRange → attemptQueue N s k = (s + k) % N) ∧
    (Function.Bijective (attemptQueues hN s) ↔ s + N ≤ unsignedRange ∨ N ∣ unsignedRange) ∧
    (attemptQueue N (nextThreadAfter s) 0 = (attemptQueue N s 0 + 1) % N ↔
      s + 1 < unsignedRange ∨ N ∣ unsignedRange) := by
  refine ⟨fun k => mod_mod_eq_of_lt_or_dvd, ⟨fun hbij => ?_, fun h => ?_⟩, ?_⟩
  · by_contra hw
    push_neg at hw
    obtain ⟨a, b, ha, hb, hab, heq⟩ := wrapped_collision hs (by omega) hw.2
    have hcoll : attemptQueues hN s ⟨a, ha⟩ = attemptQueues hN s ⟨b, hb⟩ := Fin.ext heq
    exact hab (congrArg Fin.val (hbij.1 hcoll))
  · refine Finite.injective_iff_bijective.mp fun a b hab => Fin.ext ?_
    exact wrapped_injective h a.isLt b.isLt (congrArg Fin.val hab)
  · simp only [attemptQueue, nextThreadAfter, Nat.add_zero, Nat.mod_mod, Nat.mod_eq_of_lt hs,
      Nat.mod_add_mod]
    refine ⟨fun h => ?_, mod_mod_eq_of_lt_or_dvd⟩
    by_cases hlt : s + 1 < unsignedRange
    · exact .inl hlt
    · rw [show s + 1 = unsignedRange by omega, Nat.mod_self, Nat.zero_mod] at h
      exact .inr (Nat.dvd_of_mod_eq_zero h.symm)

theorem attempt_queues_wrap_three_threads :
    0 < 3 ∧ unsignedRange - 1 < unsignedRange ∧
      ((∀ k, unsignedRange - 1 + k < unsignedRange ∨ 3 ∣ unsignedRange →
          attemptQueue 3 (unsignedRange - 1) k = (unsignedRange - 1 + k) % 3) ∧
        (Function.Bijective (attemptQueues (by decide : 0 < 3) (unsignedRange - 1)) ↔
          unsignedRange - 1 + 3 ≤ unsignedRange ∨ 3 ∣ unsignedRange) ∧
        (attemptQueue 3 (nextThreadAfter (unsignedRange - 1)) 0 =
            (attemptQueue 3 (unsignedRange - 1) 0 + 1) % 3 ↔
          unsignedRange - 1 + 1 < unsignedRange ∨ 3 ∣ unsignedRange)) :=
  ⟨by decide, by decide, attempt_queues_wrap (by decide) (by decide)⟩

theorem attempt_queue_wraps_at_counter_max :
    attemptQueue 3 (unsignedRange - 1) 1 ≠ (unsignedRange - 1 + 1) % 3 ∧
      attemptQueue 3 (unsignedRange - 1) 0 = attemptQueue 3 (unsignedRange - 1) 1 ∧
      (∀ k < 3, attemptQueue 3 (unsignedRange - 1) k ≠ 2) ∧
      attemptQueue 3 (nextThreadAfter (unsignedRange - 1)) 0 ≠
        (attemptQueue 3 (unsignedRange - 1) 0 + 1) % 3 := by
  decide

end Schedulers
