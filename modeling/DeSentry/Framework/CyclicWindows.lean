import Mathlib

/-!
# Windows that slide around a list

Work is dealt out along a list of workers: piece `k` goes to the workers of a window that begins at
place `k` of the list, taken around its end.  This file says who is in a window (`mem_window_iff`),
and that a full turn of pieces gives every worker the same share (`card_window`).
-/

namespace CyclicWindows

open List

variable {α : Type*} {l : List α} {x : α} {n p k width : ℕ}

/-- The first `width` members of the list from place `start` on, around its end. -/
def window (l : List α) (width start : ℕ) : List α :=
  (l.rotate (start % l.length)).take (min width l.length)

/-- How far the place `p` is behind the place `start`, around a list of length `n`. -/
def offset (n p start : ℕ) : ℕ := (p + (n - start % n)) % n

lemma offset_eq (hp : p < n) (hk : k < n) : offset n p k = if k ≤ p then p - k else p + n - k := by
  rw [offset, Nat.mod_eq_of_lt hk]
  split_ifs with h
  · have hsum : p + (n - k) = p - k + n := by omega
    rw [hsum, Nat.add_mod_right, Nat.mod_eq_of_lt (by omega)]
  · rw [← Nat.add_sub_assoc hk.le, Nat.mod_eq_of_lt (by omega)]

/-- Places and starts change roles: the offset is its own inverse. -/
lemma offset_offset (hp : p < n) (hk : k < n) : offset n p k < n ∧ offset n p (offset n p k) = k := by
  have hlt : offset n p k < n := Nat.mod_lt _ (Nat.zero_lt_of_lt hk)
  refine ⟨hlt, ?_⟩
  rw [offset_eq hp hlt, offset_eq hp hk]
  split_ifs <;> omega

/-- The place `p` of a list is at its offset in the rotated list. -/
lemma getElem?_rotate_offset (hp : p < l.length) (start : ℕ) :
    (l.rotate (start % l.length))[offset l.length p start]? = l[p]? := by
  have hpos : 0 < l.length := Nat.zero_lt_of_lt hp
  have hstart : start % l.length < l.length := Nat.mod_lt _ hpos
  unfold offset
  rw [getElem?_rotate (Nat.mod_lt _ hpos)]
  rw [Nat.mod_add_mod]
  have hsum : p + (l.length - start % l.length) + start % l.length = p + l.length := by omega
  rw [hsum, Nat.add_mod_right, Nat.mod_eq_of_lt hp]

/-- **Who is in a window.** -/
lemma mem_window_iff (hl : l.Nodup) (hx : l[p]? = some x) (start : ℕ) :
    x ∈ window l width start ↔ offset l.length p start < min width l.length := by
  have hp : p < l.length := (List.getElem?_eq_some_iff.mp hx).1
  have hnodup : (l.rotate (start % l.length)).Nodup := nodup_rotate.mpr hl
  obtain ⟨ho, hxo⟩ := List.getElem?_eq_some_iff.mp ((getElem?_rotate_offset hp start).trans hx)
  unfold window
  rw [mem_take_iff_getElem]
  constructor
  · rintro ⟨i, hi, hxi⟩
    -- a member has one place
    have hsame : i = offset l.length p start := hnodup.getElem_inj_iff.mp (hxi.trans hxo.symm)
    omega
  · intro hlt
    exact ⟨_, by rw [length_rotate]; omega, hxo⟩

/-- **Equal shares.**  Among as many windows in a row as the list has members, every member is in as
many as a window is wide. -/
lemma card_window {q : ℕ → Prop} [DecidablePred q] (hl : l.Nodup) (hx : x ∈ l) {start : ℕ}
    (hq : ∀ i ∈ Finset.Ico start (start + l.length), q i ↔ x ∈ window l width i) :
    ((Finset.Ico start (start + l.length)).filter q).card = min width l.length := by
  classical
  obtain ⟨p, hp⟩ := mem_iff_getElem?.mp hx
  have hplt : p < l.length := (List.getElem?_eq_some_iff.mp hp).1
  have hturn : Function.Periodic (fun i => x ∈ window l width i) l.length := by
    intro i
    simp only [window, Nat.add_mod_right]
  rw [Finset.filter_congr hq, Nat.filter_Ico_card_eq_of_periodic _ _ _ hturn,
    Nat.count_eq_card_filter_range]
  conv_rhs => rw [← Finset.card_range (min width l.length)]
  -- the members of the turn are counted by their offsets
  refine Finset.card_nbij' (offset l.length p) (offset l.length p) ?_ ?_ ?_ ?_
  · intro i hi
    have hi := (Finset.mem_filter.mp hi).2
    exact Finset.mem_coe.mpr (Finset.mem_range.mpr ((mem_window_iff hl hp i).mp hi))
  · intro j hj
    have hj := Finset.mem_range.mp (Finset.mem_coe.mp hj)
    obtain ⟨hlt, hback⟩ := offset_offset hplt (lt_min_iff.mp hj).2
    refine Finset.mem_coe.mpr (Finset.mem_filter.mpr ⟨Finset.mem_range.mpr hlt, ?_⟩)
    rwa [mem_window_iff hl hp, hback]
  · intro i hi
    exact (offset_offset hplt (Finset.mem_range.mp (Finset.mem_filter.mp hi).1)).2
  · intro j hj
    exact (offset_offset hplt (lt_min_iff.mp (Finset.mem_range.mp hj)).2).2

end CyclicWindows
