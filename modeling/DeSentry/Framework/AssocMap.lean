import Mathlib

/-!
# Maps as association lists

A finite map is a list of entries in which the first entry of a key counts.  `set` puts the new
entry in front and removes the old ones, so that the entries of a map built by `set` have
distinct keys and can be enumerated.  Proofs see a map through `get` only: `get_set` and
`get_keep` say what each operation does to it.
-/

namespace AssocMap

open List

variable {κ β : Type*} [DecidableEq κ] (m : List (κ × β)) (k : κ) (v : β)

/-- The value of a key. -/
def get : Option β := (m.find? fun e => decide (e.1 = k)).map Prod.snd

/-- The map with a new value for a key. -/
def set : List (κ × β) :=
  (k, v) :: m.filter fun e => decide (e.1 ≠ k)

variable {m k v}

lemma get_cons (e : κ × β) (m : List (κ × β)) (k : κ) :
    get (e :: m) k = if e.1 = k then some e.2 else get m k := by
  by_cases h : e.1 = k <;> simp [get, h]

lemma mem_of_get (h : get m k = some v) : (k, v) ∈ m := by
  obtain ⟨e, he, rfl⟩ := Option.map_eq_some_iff.mp h
  have hkey : e.1 = k := by simpa using find?_some he
  exact hkey ▸ mem_of_find?_eq_some he

lemma get_eq_none_iff : get m k = none ↔ ∀ e ∈ m, e.1 ≠ k := by
  simp [get]

/-- Removing entries of other keys is not seen. -/
lemma get_keep {p : κ × β → Bool} (hp : ∀ e ∈ m, e.1 = k → p e = true) :
    get (m.filter p) k = get m k := by
  induction m with
  | nil => rfl
  | cons e m ih =>
    have ih := ih fun e' he' => hp e' (mem_cons_of_mem e he')
    by_cases hk : e.1 = k
    · rw [filter_cons_of_pos (hp e mem_cons_self hk), get_cons, get_cons, if_pos hk,
        if_pos hk]
    · rw [get_cons, if_neg hk, ← ih]
      by_cases he : p e = true
      · rw [filter_cons_of_pos he, get_cons, if_neg hk]
      · rw [filter_cons_of_neg he]

variable (m k v)

lemma get_set (k' : κ) :
    get (set m k v) k' = if k' = k then some v else get m k' := by
  rw [set, get_cons]
  by_cases hk : k' = k
  · rw [if_pos hk.symm, if_pos hk]
  · rw [if_neg (Ne.symm hk), if_neg hk]
    refine get_keep fun e _ he => ?_
    rw [decide_eq_true_iff, he]
    exact hk

@[simp] lemma get_set_self : get (set m k v) k = some v := by
  rw [get_set, if_pos rfl]

variable {m k v}

lemma get_set_of_ne {k' : κ} (h : k' ≠ k) : get (set m k v) k' = get m k' := by
  rw [get_set, if_neg h]

/-! ## Removing a key -/

lemma get_filter_ne (m : List (κ × β)) (k k' : κ) :
    get (m.filter fun e => decide (e.1 ≠ k)) k' = if k' = k then none else get m k' := by
  by_cases hk : k' = k
  · rw [if_pos hk, get_eq_none_iff]
    intro e he
    rw [hk]
    exact decide_eq_true_iff.mp (mem_filter.mp he).2
  · rw [if_neg hk]
    refine get_keep fun e _ he => ?_
    rw [decide_eq_true_iff, he]
    exact hk

lemma length_filter_ne_lt (h : get m k = some v) :
    (m.filter fun e => decide (e.1 ≠ k)).length < m.length :=
  length_filter_lt_length_iff_exists.mpr
    ⟨_, mem_of_get h, fun hne => decide_eq_true_iff.mp hne rfl⟩

lemma length_set_le (m : List (κ × β)) (k : κ) (v : β) : (set m k v).length ≤ m.length + 1 :=
  Nat.succ_le_succ (length_filter_le _ _)

lemma length_set_of_get {v' : β} (h : get m k = some v') : (set m k v).length ≤ m.length :=
  length_filter_ne_lt h

/-! ## Distinct keys -/

/-- No key has two entries. -/
def Distinct (m : List (κ × β)) : Prop := (m.map Prod.fst).Nodup

omit [DecidableEq κ] in
lemma distinct_nil : Distinct ([] : List (κ × β)) := nodup_nil

omit [DecidableEq κ] in
lemma Distinct.filter (h : Distinct m) (p : κ × β → Bool) : Distinct (m.filter p) :=
  h.sublist (filter_sublist.map _)

omit [DecidableEq κ] in
lemma Distinct.perm {m' : List (κ × β)} (h : Distinct m) (hperm : m'.Perm m) : Distinct m' :=
  (hperm.map Prod.fst).nodup_iff.mpr h

lemma Distinct.set (h : Distinct m) (k : κ) (v : β) : Distinct (set m k v) := by
  refine nodup_cons.mpr ⟨fun hmem => ?_, h.filter _⟩
  obtain ⟨e, he, hkey⟩ := mem_map.mp hmem
  exact decide_eq_true_iff.mp (mem_filter.mp he).2 hkey

lemma Distinct.get_eq_some_iff (h : Distinct m) : get m k = some v ↔ (k, v) ∈ m := by
  refine ⟨mem_of_get, fun hmem => ?_⟩
  induction m with
  | nil => cases hmem
  | cons e m ih =>
    obtain ⟨hnot, hrest⟩ := nodup_cons.mp h
    rw [get_cons]
    rcases mem_cons.mp hmem with rfl | hmem
    · rw [if_pos rfl]
    · have hne : e.1 ≠ k := by
        rintro rfl
        exact hnot (mem_map.mpr ⟨_, hmem, rfl⟩)
      rw [if_neg hne, ih hrest hmem]

/-- A map with distinct keys does not depend on the order of its entries. -/
lemma Distinct.get_perm {m' : List (κ × β)} (h : Distinct m) (hperm : m'.Perm m) (k : κ) :
    get m' k = get m k := by
  refine Option.ext fun v => ?_
  rw [(h.perm hperm).get_eq_some_iff, h.get_eq_some_iff, hperm.mem_iff]

/-- What is seen of a map with distinct keys, if some entries are taken out. -/
lemma Distinct.get_filter (h : Distinct m) (p : κ × β → Bool) (k : κ) :
    get (m.filter p) k = (get m k).filter fun v => p (k, v) := by
  refine Option.ext fun v => ?_
  rw [(h.filter p).get_eq_some_iff, mem_filter, Option.filter_eq_some_iff,
    h.get_eq_some_iff]

/-- Setting the entries of a map one after the other gives the map. -/
lemma Distinct.foldl_update (h : Distinct m) :
    m.foldl (fun (f : κ → Option β) e => Function.update f e.1 (some e.2)) (fun _ => none) =
      get m := by
  suffices hgen : ∀ f : κ → Option β,
      m.foldl (fun (f : κ → Option β) e => Function.update f e.1 (some e.2)) f =
        fun k => (get m k).or (f k) by
    rw [hgen]
    funext k
    exact Option.or_none
  induction m with
  | nil => exact fun f => rfl
  | cons e m ih =>
    intro f
    obtain ⟨hnot, hrest⟩ := nodup_cons.mp h
    rw [foldl_cons, ih hrest]
    funext k
    rw [get_cons, Function.update_apply]
    by_cases hk : e.1 = k
    · have hnone : get m k = none := get_eq_none_iff.mpr fun e' he' heq =>
        hnot (mem_map.mpr ⟨e', he', heq.trans hk.symm⟩)
      rw [if_pos hk, if_pos hk.symm, hnone]
      rfl
    · rw [if_neg hk, if_neg (Ne.symm hk)]

end AssocMap
