import Ece385.Lib.Clocked
import Mathlib.Data.Nat.Nth

/-!
# Components and their clocks

A composed machine is run as a whole; a component of it runs as a machine of its
own on the inputs the others give it. A component that steps only on the clocks an
enable picks out is the same machine on a clock of its own.

* `trace_component` — the run of a component.
* `trace_enabled` — the run of an enabled machine.
* `count_tick_add` — an enable that comes once in `N` clocks: the number of steps
  is a quotient.
* `count_le_potential`, `potential_le_count` — a quantity that every event raises by
  at least, or at most, one bounds the number of events.
-/

namespace Clocked

variable {σ ι : Type*}

/-! ## Components -/

/-- If the part `part` of a machine steps by `f` on inputs read off the whole, it
runs by `f`. -/
theorem trace_component {τ κ : Type*} {step : σ → ι → σ} {f : τ → κ → τ} (part : σ → τ)
    (input : σ → ι → κ) (hStep : ∀ s i, part (step s i) = f (part s) (input s i)) (s : σ)
    (w : ℕ → ι) (n : ℕ) :
    part (trace step s w n) =
      trace f (part s) (fun k => input (trace step s w k) (w k)) n := by
  induction n with
  | zero => rfl
  | succ n ih => rw [trace_succ, trace_succ, hStep, ih]

/-! ## Enables -/

/-- A step on the clocks with the enable high, and nothing on the others. -/
def enabledStep (f : σ → ι → σ) (s : σ) (i : Bool × ι) : σ := if i.1 then f s i.2 else s

/-- An enabled machine runs as the machine itself on the inputs of the enabled clocks. -/
theorem trace_enabled (f : σ → ι → σ) (s : σ) (e : ℕ → Bool) (w : ℕ → ι) (n : ℕ) :
    trace (enabledStep f) s (fun k => (e k, w k)) n =
      trace f s (fun k => w (Nat.nth (fun m => e m = true) k))
        (Nat.count (fun m => e m = true) n) := by
  induction n with
  | zero => rfl
  | succ n ih =>
    rw [trace_succ, ih, enabledStep]
    by_cases hTick : e n = true
    · rw [if_pos hTick, count_succ_of _ hTick, trace_succ, Nat.nth_count hTick]
    · rw [if_neg hTick, count_succ_of_not _ hTick]

/-- With the input held, a run is an iteration. -/
theorem trace_const (f : σ → ι → σ) (s : σ) (i : ι) (n : ℕ) :
    trace f s (fun _ => i) n = (fun t => f t i)^[n] s := by
  induction n with
  | zero => rfl
  | succ n ih => rw [trace_succ, ih, Function.iterate_succ_apply']

/-! ## Prescalers -/

/-- How often a prescaler that starts `c` clocks after a tick has ticked: at the
multiples of `N` among `c`, …, `c + j - 1`. -/
theorem count_tick_add {N : ℕ} (hN : 0 < N) (c j : ℕ) :
    Nat.count (fun k => (c + k) % N = 0) j + (c + (N - 1)) / N = (c + j + (N - 1)) / N := by
  induction j with
  | zero => rw [Nat.count_zero, Nat.zero_add, Nat.add_zero]
  | succ j ih =>
    have hNext : (c + j + (N - 1) + 1) % N = (c + j) % N := by
      rw [Nat.add_assoc, Nat.sub_add_cancel hN, Nat.add_mod_right]
    rw [show c + (j + 1) + (N - 1) = c + j + (N - 1) + 1 by omega]
    by_cases hTick : (c + j) % N = 0
    · rw [Nat.count_succ, if_pos hTick, Nat.succ_div_of_mod_eq_zero (hNext.trans hTick), ← ih]
      omega
    · rw [Nat.count_succ, if_neg hTick, Nat.add_zero,
        Nat.succ_div_of_mod_ne_zero (hNext.symm ▸ hTick), ih]

/-! ## Potentials -/

section Potential

variable {p : ℕ → Prop} [DecidablePred p] (φ : ℕ → ℕ) {m n : ℕ}

/-- What every event raises by at least one bounds their number from above. -/
theorem count_le_potential (hmn : m ≤ n)
    (hStep : ∀ k, m ≤ k → k < n → φ k + (if p k then 1 else 0) ≤ φ (k + 1)) :
    Nat.count p n + φ m ≤ Nat.count p m + φ n := by
  induction n, hmn using Nat.le_induction with
  | base => exact le_rfl
  | succ n hmn ih =>
    have hBefore := ih fun k hk hkn => hStep k hk (by omega)
    have hNow := hStep n hmn (Nat.lt_succ_self n)
    rw [Nat.count_succ]
    omega

/-- What no clock raises by more than its events bounds their number from below. -/
theorem potential_le_count (hmn : m ≤ n)
    (hStep : ∀ k, m ≤ k → k < n → φ (k + 1) ≤ φ k + (if p k then 1 else 0)) :
    φ n + Nat.count p m ≤ φ m + Nat.count p n := by
  induction n, hmn using Nat.le_induction with
  | base => exact le_rfl
  | succ n hmn ih =>
    have hBefore := ih fun k hk hkn => hStep k hk (by omega)
    have hNow := hStep n hmn (Nat.lt_succ_self n)
    rw [Nat.count_succ]
    omega

end Potential

end Clocked
