import Mathlib.Data.Nat.Count

/-!
# Synchronous machines

A clocked design is a state type `σ`, an input type `ι` and a next-state
function `step : σ → ι → σ`. This module fixes what a run of such a machine
is and the induction rules every invariant over runs goes through:

* `trace step s w n` — the state after `n` clocks of the input waveform `w`;
* `Reachable init legal step` — the states some legal input sequence reaches;
* `Spaced d p` — events `p : ℕ → Prop` at least `d` clocks apart.

Main results:

* `trace_invariant` / `Reachable.invariant` — a property that holds initially
  and is preserved by every step holds along the whole run.
* `reachable_trace` — every state on a waveform is reachable.
* `trace_eq_foldl` — a run on a waveform given by a list is a fold.
* `trace_add` — a run is the run of its tail from the state reached so far.
* `Holds.eq_of_last` — a register holds what it was last given.
* `trace_of_checkedRun`, `trace_settle` — a condition on every clock of a listed
  waveform, or while an input is held, checked in one pass.
-/

namespace Clocked

variable {σ ι : Type*}

/-! ## Runs -/

/-- The state after `n` clocks, `w k` being the inputs sampled at clock `k`. -/
def trace (step : σ → ι → σ) (s : σ) (w : ℕ → ι) : ℕ → σ
  | 0 => s
  | n + 1 => step (trace step s w n) (w n)

@[simp] theorem trace_zero (step : σ → ι → σ) (s : σ) (w : ℕ → ι) :
    trace step s w 0 = s := rfl

theorem trace_succ (step : σ → ι → σ) (s : σ) (w : ℕ → ι) (n : ℕ) :
    trace step s w (n + 1) = step (trace step s w n) (w n) := rfl

/-- Running `m + n` clocks is running `n` clocks from the state after `m`. -/
theorem trace_add (step : σ → ι → σ) (s : σ) (w : ℕ → ι) (m n : ℕ) :
    trace step s w (m + n) = trace step (trace step s w m) (fun k => w (m + k)) n := by
  induction n with
  | zero => rfl
  | succ n ih => rw [← Nat.add_assoc, trace_succ, ih, trace_succ]

/-- A run depends on the inputs up to then only. -/
theorem trace_congr {step : σ → ι → σ} {s : σ} {w w' : ℕ → ι} {n : ℕ}
    (hSame : ∀ k < n, w k = w' k) : trace step s w n = trace step s w' n := by
  induction n with
  | zero => rfl
  | succ n ih =>
    rw [trace_succ, trace_succ, ih fun k hk => hSame k (by omega), hSame n (Nat.lt_succ_self n)]

/-- A waveform listed clock by clock (and held at `d` afterwards) runs as the
fold of `step` over the list. -/
theorem trace_eq_foldl (step : σ → ι → σ) (s : σ) (l : List ι) (d : ι) {n : ℕ}
    (hn : n ≤ l.length) :
    trace step s (fun k => l.getD k d) n = (l.take n).foldl step s := by
  induction n with
  | zero => rfl
  | succ n ih =>
    have hlt : n < l.length := by omega
    rw [trace_succ, ih (by omega), List.take_succ_eq_append_getElem hlt, List.foldl_append]
    simp [List.getD_eq_getElem?_getD, hlt]

/-- The fold over a listed waveform, given up on the first clock that fails `ok`. -/
def checkedRun (step : σ → ι → σ) (ok : σ → ι → Bool) (s : σ) (l : List ι) : Option σ :=
  l.foldlM (fun s i => if ok s i then some (step s i) else none) s

/-- A listed waveform that passes the check ends in the state found and meets the check on every
one of its clocks. -/
theorem trace_of_checkedRun {step : σ → ι → σ} {ok : σ → ι → Bool} {s s' : σ} {l : List ι}
    (d : ι) (h : checkedRun step ok s l = some s') :
    trace step s (fun k => l.getD k d) l.length = s' ∧
      ∀ n < l.length, ok (trace step s (fun k => l.getD k d) n) (l.getD n d) = true := by
  induction l generalizing s with
  | nil => exact ⟨Option.some.inj h, fun n hn => absurd hn (Nat.not_lt_zero n)⟩
  | cons i l ih =>
    rw [checkedRun, List.foldlM_cons] at h
    obtain ⟨t, hFirst, hTail⟩ := Option.bind_eq_some_iff.mp h
    split_ifs at hFirst with hOk
    obtain rfl := Option.some.inj hFirst
    obtain ⟨hEnd, hLater⟩ := ih hTail
    -- the clocks after the first are those of the tail
    have hShift : ∀ n, trace step s (fun k => (i :: l).getD k d) (n + 1) =
        trace step (step s i) (fun k => l.getD k d) n := by
      intro n
      rw [Nat.add_comm, trace_add]
      simp [trace_succ, Nat.add_comm 1]
    refine ⟨(hShift l.length).trans hEnd, fun n hn => ?_⟩
    cases n with
    | zero => exact hOk
    | succ n =>
      rw [hShift]
      exact hLater n (by simpa using hn)

/-- The state in which a held input leaves the machine standing, found within `k` clocks,
`none` if a clock up to then fails `ok`. -/
def settle (step : σ → ι → σ) (ok still : σ → ι → Bool) (i : ι) : ℕ → σ → Option σ
  | 0, _ => none
  | k + 1, s =>
    if ok s i then if still s i then some s else settle step ok still i k (step s i) else none

/-- However long the input is held, every clock meets the check, and from the `k`-th on the
machine stands. -/
theorem trace_settle {step : σ → ι → σ} {ok still : σ → ι → Bool} {i : ι}
    (hStill : ∀ s, still s i = true → step s i = s) {k : ℕ} {s s' : σ}
    (h : settle step ok still i k s = some s') (m : ℕ) :
    ok (trace step s (fun _ => i) m) i = true ∧
      (k ≤ m + 1 → trace step s (fun _ => i) m = s') := by
  induction k generalizing s m with
  | zero => exact absurd h (Option.some_ne_none _).symm
  | succ k ih =>
    rw [settle] at h
    split_ifs at h with hOk hStands
    · -- nothing moves from here on
      obtain rfl := Option.some.inj h
      have hFixed : ∀ n, trace step s (fun _ => i) n = s := by
        intro n
        induction n with
        | zero => rfl
        | succ n ih => rw [trace_succ, ih, hStill s hStands]
      rw [hFixed m]
      exact ⟨hOk, fun _ => rfl⟩
    · cases m with
      | zero =>
        refine ⟨hOk, fun hk => ?_⟩
        obtain rfl : k = 0 := by omega
        exact absurd h (Option.some_ne_none _).symm
      | succ m =>
        rw [Nat.add_comm m 1, trace_add, trace_succ, trace_zero]
        exact ⟨(ih h m).1, fun hk => (ih h m).2 (by omega)⟩

/-! ## Invariants -/

/-- A time-indexed property that holds at clock 0 and is carried by every
clock holds at every clock. -/
theorem trace_invariant {step : σ → ι → σ} {s : σ} {w : ℕ → ι} {P : ℕ → σ → Prop}
    (hInit : P 0 s)
    (hStep : ∀ n, P n (trace step s w n) → P (n + 1) (step (trace step s w n) (w n))) :
    ∀ n, P n (trace step s w n) := by
  intro n
  induction n with
  | zero => exact hInit
  | succ n ih => exact hStep n ih

/-- The states reached from `init` by steps on legal inputs. -/
inductive Reachable (init : σ → Prop) (legal : ι → Prop) (step : σ → ι → σ) : σ → Prop where
  | init {s : σ} : init s → Reachable init legal step s
  | step {s : σ} {i : ι} : Reachable init legal step s → legal i →
      Reachable init legal step (step s i)

/-- The invariant rule on reachable states. -/
theorem Reachable.invariant {init : σ → Prop} {legal : ι → Prop} {step : σ → ι → σ}
    {P : σ → Prop} (hInit : ∀ s, init s → P s)
    (hStep : ∀ s i, P s → legal i → P (step s i)) {s : σ}
    (h : Reachable init legal step s) : P s := by
  induction h with
  | init hs => exact hInit _ hs
  | step _ hi ih => exact hStep _ _ ih hi

/-- Every state along a legal waveform is reachable. -/
theorem reachable_trace {init : σ → Prop} {legal : ι → Prop} {step : σ → ι → σ}
    {s : σ} {w : ℕ → ι} (hs : init s) (hw : ∀ n, legal (w n)) (n : ℕ) :
    Reachable init legal step (trace step s w n) := by
  induction n with
  | zero => exact .init hs
  | succ n ih => exact .step ih (hw n)

/-! ## Registers -/

section Registers

variable {α : Type*} {cell : ℕ → α} {update : ℕ → Option α}

/-- A register that takes the value it is given and keeps its own otherwise. -/
def Holds (cell : ℕ → α) (update : ℕ → Option α) : Prop :=
  ∀ n, cell (n + 1) = (update n).getD (cell n)

/-- Given nothing from `m` on, it still has the value of then. -/
theorem Holds.eq_of_quiet (h : Holds cell update) {m n : ℕ} (hmn : m ≤ n)
    (hQuiet : ∀ j, m ≤ j → j < n → update j = none) : cell n = cell m := by
  induction n, hmn using Nat.le_induction with
  | base => rfl
  | succ n hmn ih =>
    rw [h n, hQuiet n hmn (Nat.lt_succ_self n), Option.getD_none,
      ih fun j hmj hjn => hQuiet j hmj (by omega)]

/-- It holds what it was last given. -/
theorem Holds.eq_of_last (h : Holds cell update) {m n : ℕ} {v : α} (hmn : m < n)
    (hGiven : update m = some v) (hQuiet : ∀ j, m < j → j < n → update j = none) :
    cell n = v := by
  rw [h.eq_of_quiet hmn hQuiet, h m, hGiven, Option.getD_some]

/-- If it was given something, it was given something last. -/
theorem exists_last (update : ℕ → Option α) {m n : ℕ} (hmn : m < n) (hGiven : update m ≠ none) :
    ∃ l, m ≤ l ∧ l < n ∧ update l ≠ none ∧ ∀ j, l < j → j < n → update j = none := by
  induction n, hmn using Nat.le_induction with
  | base => exact ⟨m, le_rfl, Nat.lt_succ_self m, hGiven, fun j _ _ => by omega⟩
  | succ n hmn ih =>
    -- given nothing on the clock itself, the last time is the one found before
    by_cases hNow : update n = none
    · obtain ⟨l, hml, hln, hSome, hQuiet⟩ := ih
      refine ⟨l, hml, by omega, hSome, fun j hlj hj => ?_⟩
      rcases Nat.lt_or_ge j n with hlt | hge
      · exact hQuiet j hlj hlt
      · rwa [show j = n by omega]
    · exact ⟨n, by omega, Nat.lt_succ_self n, hNow, fun j _ _ => by omega⟩

end Registers

/-! ## Spaced events -/

/-- Any two distinct clocks at which `p` happens are at least `d` apart. -/
def Spaced (d : ℕ) (p : ℕ → Prop) : Prop :=
  ∀ m n, m < n → p m → p n → m + d ≤ n

/-- One more clock adds one to the count exactly when the event happens on it. -/
theorem count_succ_of (p : ℕ → Prop) [DecidablePred p] {n : ℕ} (h : p n) :
    Nat.count p (n + 1) = Nat.count p n + 1 := by
  rw [Nat.count_succ, if_pos h]

theorem count_succ_of_not (p : ℕ → Prop) [DecidablePred p] {n : ℕ} (h : ¬ p n) :
    Nat.count p (n + 1) = Nat.count p n := by
  rw [Nat.count_succ, if_neg h, Nat.add_zero]

/-- All but one of the events before `n` leave a gap of `d` clocks. -/
theorem Spaced.count_le {d : ℕ} {p : ℕ → Prop} [DecidablePred p] (h : Spaced d p) (n : ℕ) :
    Nat.count p n = 0 ∨ ∃ m < n, p m ∧ d * (Nat.count p n - 1) ≤ m := by
  induction n with
  | zero => exact Or.inl (Nat.count_zero p)
  | succ n ih =>
    by_cases hNow : p n
    · rw [count_succ_of p hNow, Nat.add_sub_cancel]
      refine Or.inr ⟨n, Nat.lt_succ_self n, hNow, ?_⟩
      cases hCount : Nat.count p n with
      | zero => exact Nat.zero_le n
      | succ c =>
        rw [hCount] at ih
        obtain ⟨m, hm, hLast, hGaps⟩ := ih.resolve_left (Nat.succ_ne_zero c)
        -- one gap more than up to the event before
        have hGap := h m n hm hLast hNow
        rw [Nat.add_sub_cancel] at hGaps
        rw [Nat.mul_succ]
        omega
    · rw [count_succ_of_not p hNow]
      exact ih.imp_right fun ⟨m, hm, hLast⟩ => ⟨m, hm.trans (Nat.lt_succ_self n), hLast⟩

/-- How often `p` happened before clock `n`, since `mark` last happened. -/
def countSince (mark p : ℕ → Prop) [DecidablePred mark] [DecidablePred p] : ℕ → ℕ
  | 0 => 0
  | n + 1 => if mark n then 0 else countSince mark p n + if p n then 1 else 0

theorem countSince_succ (mark p : ℕ → Prop) [DecidablePred mark] [DecidablePred p] (n : ℕ) :
    countSince mark p (n + 1) =
      if mark n then 0 else countSince mark p n + if p n then 1 else 0 := rfl

end Clocked
