import Mathlib

/-!
# Hash chains

Entries that each carry the hash of the entry before them.  A chain starts at a fixed genesis
value and is summarised by its tip, the hash of its last entry.  `map_eq_of_tip_eq` is the
tamper evidence: when equal hashes force equal contents and equal back links, and no entry
hashes to the genesis value, two chains with one tip have the same contents throughout.
-/

namespace HashChain

open List

variable {R H C : Type*} (prev hash : R → H)

/-- Every entry carries the hash of the one before it, the first one the given value. -/
def Linked : H → List R → Prop
  | _, [] => True
  | g, r :: rs => prev r = g ∧ Linked (hash r) rs

/-- The hash of the last entry, or the given value. -/
def tip : H → List R → H
  | g, [] => g
  | _, r :: rs => tip (hash r) rs

variable {prev hash} {g : H} {rs ss : List R}

lemma tip_append : tip hash g (rs ++ ss) = tip hash (tip hash g rs) ss := by
  induction rs generalizing g with
  | nil => rfl
  | cons r rs ih => exact ih

lemma tip_concat {r : R} : tip hash g (rs ++ [r]) = hash r := by
  rw [tip_append]
  rfl

lemma linked_append :
    Linked prev hash g (rs ++ ss) ↔ Linked prev hash g rs ∧ Linked prev hash (tip hash g rs) ss := by
  induction rs generalizing g with
  | nil => simp [Linked, tip]
  | cons r rs ih => simp [Linked, tip, ih, and_assoc]

lemma linked_map {S : Type*} {f : S → R} {ts : List S} : Linked prev hash g (ts.map f) ↔
    Linked (fun t => prev (f t)) (fun t => hash (f t)) g ts := by
  induction ts generalizing g with
  | nil => exact Iff.rfl
  | cons t ts ih => exact and_congr_right fun _ => ih

/-- **Tamper evidence.**  Two chains from one genesis value with one tip have the same
contents. -/
theorem map_eq_of_tip_eq {core : R → C} (hr : Linked prev hash g rs) (hs : Linked prev hash g ss)
    (htip : tip hash g rs = tip hash g ss)
    (hinj : ∀ r ∈ rs, ∀ s ∈ ss, hash r = hash s → core r = core s ∧ prev r = prev s)
    (hrg : ∀ r ∈ rs, hash r ≠ g) (hsg : ∀ s ∈ ss, hash s ≠ g) :
    rs.map core = ss.map core := by
  -- From the tip backwards: equal hashes give equal contents and the same tip one entry before.
  induction rs using List.reverseRecOn generalizing ss with
  | nil =>
    cases ss using List.reverseRecOn with
    | nil => rfl
    | append_singleton ss s =>
      rw [tip_concat] at htip
      exact absurd htip.symm (hsg s (by simp))
  | append_singleton rs r ih =>
    cases ss using List.reverseRecOn with
    | nil =>
      rw [tip_concat] at htip
      exact absurd htip (hrg r (by simp))
    | append_singleton ss s =>
      rw [tip_concat, tip_concat] at htip
      rw [linked_append] at hr hs
      obtain ⟨hcore, hprev⟩ := hinj r (by simp) s (by simp) htip
      have hrest : rs.map core = ss.map core := by
        refine ih hr.1 hs.1 ?_ (fun r' hr' s' hs' => hinj r' (by simp [hr']) s' (by simp [hs']))
          (fun r' hr' => hrg r' (by simp [hr'])) (fun s' hs' => hsg s' (by simp [hs']))
        exact hr.2.1.symm.trans (hprev.trans hs.2.1)
      rw [map_append, map_append, hrest, map_singleton, map_singleton, hcore]

end HashChain
