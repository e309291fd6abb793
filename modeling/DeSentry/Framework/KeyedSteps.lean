import Mathlib

/-!
# Steps on one key

A state is observed through a view, a value for each key.  A step is *keyed* when it changes what
is seen at one key only, and there as a function of what was seen (`Keyed`).  A sequence of such
steps is seen, at a key, as the steps of that key in order (`Keyed.view_foldl`): steps of different
keys do not interfere, and steps that are not there for a key can be left out.

`keepFirst` is the scan that keeps the first step of every key, and `foldl_foldl` says when a
sequence of steps may be repeated.
-/

namespace KeyedSteps

open List

variable {σ ρ κ β : Type*} [DecidableEq κ]

/-- What no step changes, a sequence of steps does not change. -/
lemma foldl_frame {γ : Type*} (part : σ → γ) {step : σ → ρ → σ}
    (h : ∀ s r, part (step s r) = part s) (rs : List ρ) (s : σ) :
    part (rs.foldl step s) = part s := by
  induction rs generalizing s with
  | nil => rfl
  | cons r rs ih => rw [foldl_cons, ih, h]

/-- A step changes the view at its own key. -/
def Keyed (view : σ → κ → β) (key : ρ → κ) (step : σ → ρ → σ) (effect : ρ → β → β) : Prop :=
  ∀ s r k, view (step s r) k = if key r = k then effect r (view s k) else view s k

/-- **What is seen at a key after a sequence of steps.** -/
lemma Keyed.view_foldl {view : σ → κ → β} {key : ρ → κ} {step : σ → ρ → σ} {effect : ρ → β → β}
    (h : Keyed view key step effect) (rs : List ρ) (s : σ) (k : κ) :
    view (rs.foldl step s) k =
      (rs.filter fun r => decide (key r = k)).foldl (fun v r => effect r v) (view s k) := by
  induction rs generalizing s with
  | nil => rfl
  | cons r rs ih =>
    rw [foldl_cons, ih, h s r k]
    by_cases hk : key r = k
    · rw [if_pos hk, filter_cons_of_pos (by simpa using hk), foldl_cons]
    · rw [if_neg hk, filter_cons_of_neg (by simpa using hk)]

/-- The first step of every key that was not seen before. -/
def keepFirst (key : ρ → κ) : List κ → List ρ → List ρ
  | _, [] => []
  | seen, r :: rest =>
    if key r ∈ seen then keepFirst key seen rest else r :: keepFirst key (key r :: seen) rest

/-- What the scan keeps of one key. -/
lemma filter_keepFirst (key : ρ → κ) (k : κ) (seen : List κ) (rs : List ρ) :
    (keepFirst key seen rs).filter (fun r => decide (key r = k)) =
      if k ∈ seen then [] else (rs.find? fun r => decide (key r = k)).toList := by
  induction rs generalizing seen with
  | nil => simp [keepFirst]
  | cons r rs ih =>
    rw [keepFirst]
    by_cases hseen : key r ∈ seen
    · rw [if_pos hseen, ih]
      by_cases hk : k ∈ seen
      · rw [if_pos hk, if_pos hk]
      · have hne : key r ≠ k := fun heq => hk (heq ▸ hseen)
        rw [if_neg hk, if_neg hk, find?_cons_of_neg (by simpa using hne)]
    · rw [if_neg hseen]
      by_cases heq : key r = k
      · subst heq
        rw [filter_cons_of_pos (by simp), ih, if_pos mem_cons_self, if_neg hseen,
          find?_cons_of_pos (by simp)]
        rfl
      · rw [filter_cons_of_neg (by simpa using heq), ih,
          find?_cons_of_neg (by simpa using heq)]
        simp only [mem_cons, Ne.symm heq, false_or]

/-- **Twice is once**, for steps of which two in a row are one, and the same one twice is one. -/
lemma foldl_foldl {μ : Type*} {step : β → μ → β} {join : μ → μ → μ}
    (hjoin : ∀ e u v, step (step e u) v = step e (join u v))
    (htwice : ∀ e u, step (step e u) u = step e u) (us : List μ) (e : β) :
    us.foldl step (us.foldl step e) = us.foldl step e := by
  cases us with
  | nil => rfl
  | cons u us =>
    have hone : ∀ (us : List μ) (u : μ) (e : β),
        (u :: us).foldl step e = step e (us.foldl join u) := by
      intro us
      induction us with
      | nil => exact fun _ _ => rfl
      | cons v us ih =>
        intro u e
        rw [foldl_cons, foldl_cons, hjoin]
        exact ih (join u v) e
    rw [hone, hone, htwice]

end KeyedSteps
