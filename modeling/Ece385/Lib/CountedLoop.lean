import Mathlib.Data.Nat.Notation
import Mathlib.Tactic.SplitIfs

/-!
# Counted loops

The loop `for (i = lo; i < hi; i++) body` over an explicit state, and its
invariant rule: what holds before the first iteration and is carried by every
iteration holds at the end.

* `forLoop_invariant` — the invariant is indexed by the value of the counter.
* `forLoop_eq_foldl`, `foldl_undo` — a loop is a fold over its counter values, and
  is undone step by step from the last to the first.
* `forLoop_fill` — a loop that writes entry `i` of an array in iteration `i`
  from the entries below leaves the array the recurrence describes.
-/

namespace CountedLoop

variable {σ : Type*}

/-- The state after `n` iterations from counter value `lo`. -/
def iterations (body : ℕ → σ → σ) (lo : ℕ) (s : σ) : ℕ → σ
  | 0 => s
  | n + 1 => body (lo + n) (iterations body lo s n)

/-- `for (i = lo; i < hi; i++) body` -/
def forLoop (lo hi : ℕ) (body : ℕ → σ → σ) (s : σ) : σ := iterations body lo s (hi - lo)

theorem forLoop_invariant {lo hi : ℕ} (hle : lo ≤ hi) {body : ℕ → σ → σ} {s : σ}
    (P : ℕ → σ → Prop) (hInit : P lo s)
    (hStep : ∀ i s, lo ≤ i → i < hi → P i s → P (i + 1) (body i s)) :
    P hi (forLoop lo hi body s) := by
  have hAll : ∀ n, lo + n ≤ hi → P (lo + n) (iterations body lo s n) := by
    intro n
    induction n with
    | zero => exact fun _ => hInit
    | succ n ih => exact fun hn => hStep (lo + n) _ (by omega) (by omega) (ih (by omega))
  have hEnd := hAll (hi - lo) (by omega)
  rwa [Nat.add_sub_cancel' hle] at hEnd

theorem forLoop_eq_foldl (lo hi : ℕ) (body : ℕ → σ → σ) (s : σ) :
    forLoop lo hi body s = (List.range' lo (hi - lo)).foldl (fun s i => body i s) s := by
  unfold forLoop
  induction hi - lo with
  | zero => rfl
  | succ n ih =>
    rw [iterations, ih, List.range'_concat, List.foldl_append, Nat.one_mul]
    rfl

/-- Steps each undone by the matching step on the images are undone, run through in
the opposite order. -/
theorem foldl_undo {κ τ : Type*} {f : σ → κ → σ} {g : τ → κ → τ} {image : σ → τ}
    (hUndo : ∀ s k, g (image (f s k)) k = image s) (ks : List κ) (s : σ) :
    ks.reverse.foldl g (image (ks.foldl f s)) = image s := by
  induction ks generalizing s with
  | nil => rfl
  | cons k ks ih =>
    rw [List.foldl_cons, List.reverse_cons, List.foldl_append, ih, List.foldl_cons, hUndo,
      List.foldl_nil]

/-! ## Loops that fill an array -/

/-- `a[i] = x` changes the entry read at `i` and no other. -/
theorem getD_setIfInBounds {α : Type*} {n i : ℕ} (a : Vector α n) (x d : α) (hi : i < n) (j : ℕ) :
    (a.setIfInBounds i x).getD j d = if j = i then x else a.getD j d := by
  have hLookup : ∀ b : Vector α n, b.getD j d = (b[j]?).getD d := by
    intro b
    rw [Vector.getD, Array.getD_eq_getD_getElem?, Vector.getElem?_toArray]
  rw [hLookup, hLookup, Vector.getElem?_setIfInBounds]
  by_cases hji : j = i
  · rw [if_pos hji.symm, if_pos hji, if_pos hi, Option.getD_some]
  · rw [if_neg (Ne.symm hji), if_neg hji]

/-- If entry `i` comes out right whenever the entries below are right, all entries
below `hi` are right at the end. -/
theorem forLoop_fill {α : Type*} {n lo hi : ℕ} (hle : lo ≤ hi) (hSize : hi ≤ n)
    {value : ℕ → Vector α n → α} {a : Vector α n} {d : α} (Good : ℕ → α → Prop)
    (hInit : ∀ j < lo, Good j (a.getD j d))
    (hStep : ∀ i (a : Vector α n), lo ≤ i → i < hi → (∀ j < i, Good j (a.getD j d)) →
      Good i (value i a)) :
    ∀ j < hi,
      Good j ((forLoop lo hi (fun i a => a.setIfInBounds i (value i a)) a).getD j d) := by
  refine forLoop_invariant hle (fun i (a : Vector α n) => ∀ j < i, Good j (a.getD j d)) hInit ?_
  intro i a hlo hhi hBelow j hj
  -- iteration `i` touches entry `i` only
  rw [getD_setIfInBounds a _ d (Nat.lt_of_lt_of_le hhi hSize)]
  split_ifs with hji
  · exact hji ▸ hStep i a hlo hhi hBelow
  · exact hBelow j (by omega)

end CountedLoop
