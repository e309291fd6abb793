import Mathlib

/-!
# Lists used as maps

A record of named fields and a set of tagged elements are often stored as a plain list whose
entries carry their key.  This file has the operations such a representation needs (lookup of
the first entry, sorting by key, the hash join of two lists) and the facts that let a proof
forget the list and reason about the lookup function.

Everything about the order of entries is confined to `sortBy`.  Two lists with distinct keys
and equal lookups sort to the same list (`sortBy_congr`), and the lookup of a join is the
pointwise `Option.merge` of the lookups (`lookup_join`).  What a join loses of the weight of its two
lists is counted by `joinLost` (`sum_join`).
-/

namespace KeyedList

open List

variable {α β κ : Type*} (key : α → κ)

/-! ## Distinct keys -/

/-- No two entries have the same key. -/
def Distinct (xs : List α) : Prop := (xs.map key).Nodup

instance [DecidableEq κ] (xs : List α) : Decidable (Distinct key xs) :=
  inferInstanceAs (Decidable (List.Nodup _))

section Distinct

variable {key} {x : α} {xs ys : List α}

lemma Distinct.tail (h : Distinct key (x :: xs)) : Distinct key xs := (nodup_cons.mp h).2

lemma Distinct.head_ne {y : α} (h : Distinct key (x :: xs)) (hy : y ∈ xs) : key y ≠ key x :=
  fun he => (nodup_cons.mp h).1 (he ▸ mem_map_of_mem hy)

lemma Distinct.perm (h : Distinct key xs) (hp : xs.Perm ys) : Distinct key ys :=
  (hp.map key).nodup_iff.mp h

lemma Distinct.filter (h : Distinct key xs) (p : α → Bool) : Distinct key (xs.filter p) :=
  List.Nodup.sublist (filter_sublist.map key) h

lemma distinct_append : Distinct key (xs ++ ys) ↔
    Distinct key xs ∧ Distinct key ys ∧ ∀ x ∈ xs, ∀ y ∈ ys, key x ≠ key y := by
  rw [Distinct, map_append, nodup_append]
  simp [Distinct]

lemma distinct_map {key' : β → κ} {f : α → β} (hf : ∀ x ∈ xs, key' (f x) = key x) :
    Distinct key' (xs.map f) ↔ Distinct key xs := by
  have hkeys : (xs.map f).map key' = xs.map key := by
    rw [map_map]
    exact map_congr_left hf
  rw [Distinct, Distinct, hkeys]

end Distinct

/-! ## Lookup -/

variable [LinearOrder κ]

/-- The first entry with the given key. -/
def lookup (k : κ) (xs : List α) : Option α := xs.find? fun x => decide (key x = k)

/-- Stable sort by key. -/
def sortBy (xs : List α) : List α := xs.insertionSort fun x y => key x ≤ key y

section Lookup

variable {key} {k : κ} {x : α} {xs ys : List α}

@[simp] lemma lookup_nil : lookup key k [] = none := rfl

lemma lookup_cons (x : α) (xs : List α) :
    lookup key k (x :: xs) = if key x = k then some x else lookup key k xs := by
  by_cases h : key x = k <;> simp [lookup, h]

lemma lookup_eq_none_iff : lookup key k xs = none ↔ ∀ x ∈ xs, key x ≠ k := by
  simp [lookup]

lemma mem_of_lookup (h : lookup key k xs = some x) : x ∈ xs := mem_of_find?_eq_some h

lemma key_of_lookup (h : lookup key k xs = some x) : key x = k := by
  simpa using find?_some h

/-- With distinct keys, the entries are exactly the values of the lookup. -/
lemma lookup_eq_some_iff (h : Distinct key xs) :
    lookup key k xs = some x ↔ x ∈ xs ∧ key x = k := by
  refine ⟨fun hx => ⟨mem_of_lookup hx, key_of_lookup hx⟩, ?_⟩
  rintro ⟨hx, rfl⟩
  induction xs with
  | nil => exact absurd hx not_mem_nil
  | cons y ys ih =>
    rw [lookup_cons]
    rcases mem_cons.mp hx with rfl | hx
    · exact if_pos rfl
    · rw [if_neg (h.head_ne hx).symm]
      exact ih h.tail hx

lemma lookup_of_mem (h : Distinct key xs) (hx : x ∈ xs) : lookup key (key x) xs = some x :=
  (lookup_eq_some_iff h).mpr ⟨hx, rfl⟩

lemma eq_of_key_eq {y : α} (h : Distinct key xs) (hx : x ∈ xs) (hy : y ∈ xs)
    (he : key x = key y) : x = y := by
  have hxl := lookup_of_mem h hx
  rw [he, lookup_of_mem h hy] at hxl
  exact (Option.some_injective _ hxl).symm

lemma lookup_perm (h : Distinct key xs) (hp : xs.Perm ys) : lookup key k xs = lookup key k ys := by
  refine Option.ext fun x => ?_
  rw [lookup_eq_some_iff h, lookup_eq_some_iff (h.perm hp), hp.mem_iff]

lemma lookup_append : lookup key k (xs ++ ys) = (lookup key k xs).or (lookup key k ys) := by
  simp [lookup, find?_append]

/-- Lookup through a map that keeps the keys. -/
lemma lookup_map {key' : β → κ} {f : α → β} (hf : ∀ x ∈ xs, key' (f x) = key x) :
    lookup key' k (xs.map f) = (lookup key k xs).map f := by
  induction xs with
  | nil => rfl
  | cons x xs ih =>
    rw [map_cons, lookup_cons, lookup_cons, hf x mem_cons_self,
      ih fun y hy => hf y (mem_cons_of_mem x hy)]
    split_ifs <;> rfl

end Lookup

/-! ## Sorting -/

section Sorting

variable {key} {xs ys : List α}

instance isTransKeyLe : IsTrans α fun x y => key x ≤ key y := ⟨fun _ _ _ => le_trans⟩

instance totalKeyLe : Std.Total fun x y : α => key x ≤ key y :=
  ⟨fun x y => le_total (key x) (key y)⟩

instance irreflKeyLt : Std.Irrefl fun x y : α => key x < key y := ⟨fun x => lt_irrefl (key x)⟩

instance antisymmKeyLt : Std.Antisymm fun x y : α => key x < key y :=
  ⟨fun _ _ h h' => absurd h' h.asymm⟩

lemma sortBy_perm (xs : List α) : (sortBy key xs).Perm xs := perm_insertionSort _ xs

@[simp] lemma mem_sortBy {x : α} : x ∈ sortBy key xs ↔ x ∈ xs := (sortBy_perm xs).mem_iff

@[simp] lemma length_sortBy : (sortBy key xs).length = xs.length := (sortBy_perm xs).length_eq

lemma Distinct.sortBy (h : Distinct key xs) : Distinct key (sortBy key xs) :=
  h.perm (sortBy_perm xs).symm

lemma lookup_sortBy {k : κ} (h : Distinct key xs) :
    lookup key k (sortBy key xs) = lookup key k xs :=
  lookup_perm h.sortBy (sortBy_perm xs)

lemma sortBy_pairwise_lt (h : Distinct key xs) :
    (sortBy key xs).Pairwise fun x y => key x < key y := by
  have hle : (sortBy key xs).Pairwise fun x y => key x ≤ key y := pairwise_insertionSort _ xs
  have hne : (sortBy key xs).Pairwise fun x y => key x ≠ key y := pairwise_map.mp h.sortBy
  exact hle.imp₂ (fun _ _ hle hne => lt_of_le_of_ne hle hne) hne

/-- The sorted list is determined by the lookup function. -/
lemma sortBy_congr (hx : Distinct key xs) (hy : Distinct key ys)
    (h : ∀ k, lookup key k xs = lookup key k ys) : sortBy key xs = sortBy key ys := by
  refine List.Pairwise.eq_of_mem_iff (sortBy_pairwise_lt hx) (sortBy_pairwise_lt hy) fun x => ?_
  rw [mem_sortBy, mem_sortBy]
  calc x ∈ xs ↔ lookup key (key x) xs = some x := by simp [lookup_eq_some_iff hx]
    _ ↔ lookup key (key x) ys = some x := by rw [h]
    _ ↔ x ∈ ys := by simp [lookup_eq_some_iff hy]

/-- Sorting commutes with a map that keeps the keys. -/
lemma map_sortBy {key' : β → κ} {f : α → β} (hf : ∀ x, key' (f x) = key x) (xs : List α) :
    (sortBy key xs).map f = sortBy key' (xs.map f) := by
  refine map_insertionSort _ _ f xs fun a _ b _ => ?_
  rw [hf, hf]

lemma sortBy_sortBy (xs : List α) : sortBy key (sortBy key xs) = sortBy key xs :=
  (pairwise_insertionSort _ xs).insertionSort_eq

/-- What is listed in strictly ascending order is left in place by the sort. -/
lemma filter_sortBy_of_pairwise {p : α → Bool}
    (h : (xs.filter p).Pairwise fun x y => key x < key y) :
    (sortBy key xs).filter p = xs.filter p := by
  have hperm : ((sortBy key xs).filter p).Perm (xs.filter p) := (sortBy_perm xs).filter p
  have hnodup : Distinct key (xs.filter p) := pairwise_map.mpr (h.imp fun hxy => ne_of_lt hxy)
  have hsorted : ((sortBy key xs).filter p).Pairwise fun x y => key x < key y := by
    have hle := (pairwise_insertionSort (fun x y : α => key x ≤ key y) xs).filter p
    have hne : ((sortBy key xs).filter p).Pairwise fun x y => key x ≠ key y :=
      pairwise_map.mp (hnodup.perm hperm.symm)
    exact hle.imp₂ (fun _ _ hle hne => lt_of_le_of_ne hle hne) hne
  exact List.Pairwise.eq_of_mem_iff hsorted h fun x => hperm.mem_iff

end Sorting

/-! ## The hash join -/

section Join

variable (combine : α → α → α)

/-- The first loop of a hash join: every left entry is combined with the entry the index holds
for its key, which is then erased from the index.  Returns the rows and the index left over. -/
def joinLoop : List α → List α → List α × List α
  | [], index => ([], index)
  | a :: as, index =>
    match lookup key (key a) index with
    | some b =>
      let r := joinLoop as (index.filter fun x => decide (key x ≠ key a))
      (combine a b :: r.1, r.2)
    | none =>
      let r := joinLoop as index
      (a :: r.1, r.2)

/-- The hash join of two lists: the index is filled in order, so that the last entry of a key
wins, the right entries whose key is still indexed are appended, and the rows are sorted. -/
def join (as bs : List α) : List α :=
  let r := joinLoop key combine as bs.reverse
  sortBy key (r.1 ++ bs.filter fun b => (lookup key (key b) r.2).isSome)

/-- A left entry combined with the right entry of its key, if there is one. -/
def combineWith (bs : List α) (a : α) : α := (lookup key (key a) bs).elim a (combine a)

variable {key combine} {as bs : List α} {k : κ}

lemma lookup_filter_ne (j : κ) (xs : List α) :
    lookup key k (xs.filter fun x => decide (key x ≠ j)) =
      if k = j then none else lookup key k xs := by
  induction xs with
  | nil => simp
  | cons x xs ih =>
    by_cases hx : key x = j
    · rw [filter_cons_of_neg (by simp [hx]), ih, lookup_cons, hx]
      by_cases hk : k = j
      · simp [hk]
      · simp [hk, Ne.symm hk]
    · rw [filter_cons_of_pos (by simp [hx]), lookup_cons, ih, lookup_cons]
      by_cases hk : k = j
      · simp [hk, hx]
      · simp [hk]

lemma joinLoop_fst (ha : Distinct key as) (index : List α) :
    (joinLoop key combine as index).1 = as.map (combineWith key combine index) := by
  induction as generalizing index with
  | nil => rfl
  | cons a as ih =>
    rw [joinLoop, map_cons, combineWith]
    cases hb : lookup key (key a) index with
    | none => simp [ih ha.tail]
    | some b =>
      -- Erasing the key of `a` changes no later row: the remaining keys are other keys.
      simp only [ih ha.tail, Option.elim_some, List.cons.injEq, true_and]
      refine map_congr_left fun x hx => ?_
      rw [combineWith, combineWith, lookup_filter_ne, if_neg (ha.head_ne hx)]

lemma lookup_joinLoop_snd (as index : List α) :
    lookup key k (joinLoop key combine as index).2 =
      if k ∈ as.map key then none else lookup key k index := by
  induction as generalizing index with
  | nil => simp [joinLoop]
  | cons a as ih =>
    rw [joinLoop]
    cases hb : lookup key (key a) index with
    | none =>
      simp only [ih, map_cons, mem_cons]
      by_cases hk : k = key a
      · simp [hk, hb]
      · simp [hk]
    | some b =>
      simp only [ih, lookup_filter_ne, map_cons, mem_cons]
      by_cases hk : k = key a
      · simp [hk]
      · simp [hk]

lemma mem_joinLoop {x : α} (as index : List α) (h : x ∈ (joinLoop key combine as index).1) :
    x ∈ as ∨ ∃ a ∈ as, ∃ b ∈ index, key b = key a ∧ x = combine a b := by
  induction as generalizing index with
  | nil => exact absurd h not_mem_nil
  | cons a as ih =>
    rw [joinLoop] at h
    cases hb : lookup key (key a) index with
    | none =>
      simp only [hb, mem_cons] at h
      rcases h with rfl | h
      · exact Or.inl mem_cons_self
      · rcases ih index h with h | ⟨a', ha', b', hb', hk⟩
        · exact Or.inl (mem_cons_of_mem a h)
        · exact Or.inr ⟨a', mem_cons_of_mem a ha', b', hb', hk⟩
    | some b =>
      simp only [hb, mem_cons] at h
      rcases h with rfl | h
      · exact Or.inr ⟨a, mem_cons_self, b, mem_of_lookup hb, key_of_lookup hb, rfl⟩
      · rcases ih _ h with h | ⟨a', ha', b', hb', hk⟩
        · exact Or.inl (mem_cons_of_mem a h)
        · exact Or.inr ⟨a', mem_cons_of_mem a ha', b', (mem_filter.mp hb').1, hk⟩

/-- A row of the join is a left entry, a right entry, or two entries of one key combined. -/
lemma mem_join {x : α} (h : x ∈ join key combine as bs) :
    x ∈ as ∨ x ∈ bs ∨ ∃ a ∈ as, ∃ b ∈ bs, key b = key a ∧ x = combine a b := by
  rw [join, mem_sortBy, mem_append] at h
  rcases h with h | h
  · rcases mem_joinLoop as bs.reverse h with h | ⟨a, ha, b, hb, hk⟩
    · exact Or.inl h
    · exact Or.inr (Or.inr ⟨a, ha, b, mem_reverse.mp hb, hk⟩)
  · exact Or.inr (Or.inl (mem_filter.mp h).1)

/-- For lists with distinct keys the join is: the left entries, each combined with its
counterpart, and the right entries without one, sorted. -/
lemma join_eq (ha : Distinct key as) (hb : Distinct key bs) :
    join key combine as bs = sortBy key (as.map (combineWith key combine bs) ++
      bs.filter fun b => decide (lookup key (key b) as = none)) := by
  have hrev : ∀ j, lookup key j bs.reverse = lookup key j bs := fun j =>
    (lookup_perm hb bs.reverse_perm.symm).symm
  rw [join, joinLoop_fst ha]
  congr 2
  · refine map_congr_left fun a _ => ?_
    rw [combineWith, combineWith, hrev]
  · refine filter_congr fun b hbm => ?_
    rw [lookup_joinLoop_snd, hrev, lookup_of_mem hb hbm, Bool.eq_iff_iff, decide_eq_true_iff,
      lookup_eq_none_iff]
    by_cases h : key b ∈ as.map key
    · simpa [h] using mem_map.mp h
    · have hne : ∀ a ∈ as, key a ≠ key b := fun a ha he => h (he ▸ mem_map_of_mem ha)
      simpa [h] using hne

variable (hkey : ∀ a b, key (combine a b) = key a)
include hkey

lemma key_combineWith (a : α) : key (combineWith key combine bs a) = key a := by
  rw [combineWith]
  cases lookup key (key a) bs with
  | none => rfl
  | some b => exact hkey a b

lemma distinct_rows (ha : Distinct key as)
    (hb : Distinct key bs) : Distinct key (as.map (combineWith key combine bs) ++
      bs.filter fun b => decide (lookup key (key b) as = none)) := by
  refine distinct_append.mpr ⟨(distinct_map fun a _ => key_combineWith hkey a).mpr ha,
    hb.filter _, ?_⟩
  intro x hx b hbm
  obtain ⟨a, ham, rfl⟩ := mem_map.mp hx
  have hnone := lookup_eq_none_iff.mp (of_decide_eq_true (mem_filter.mp hbm).2)
  rw [key_combineWith hkey]
  exact hnone a ham

lemma Distinct.join (ha : Distinct key as)
    (hb : Distinct key bs) : Distinct key (join key combine as bs) := by
  rw [join_eq ha hb]
  exact (distinct_rows hkey ha hb).sortBy

/-- The lookup of a join is the pointwise merge of the lookups. -/
lemma lookup_join (ha : Distinct key as)
    (hb : Distinct key bs) : lookup key k (join key combine as bs) =
      Option.merge combine (lookup key k as) (lookup key k bs) := by
  rw [join_eq ha hb, lookup_sortBy (distinct_rows hkey ha hb), lookup_append,
    lookup_map fun a _ => key_combineWith hkey a]
  cases hka : lookup key k as with
  | some a =>
    obtain rfl := key_of_lookup hka
    cases hkb : lookup key (key a) bs <;> simp [combineWith, hkb]
  | none =>
    rw [Option.map_none, Option.none_or, Option.merge_none_left]
    -- The right entry of an unmatched key survives the filter.
    refine Option.ext fun b => ?_
    rw [lookup_eq_some_iff (hb.filter _), lookup_eq_some_iff hb, mem_filter]
    constructor
    · exact fun h => ⟨h.1.1, h.2⟩
    · rintro ⟨hbm, rfl⟩
      exact ⟨⟨hbm, decide_eq_true hka⟩, rfl⟩

end Join

/-! ## The weight of a join -/

section Weight

variable (combine : α → α → α) (weight : α → ℕ) (lost : α → α → ℕ)

/-- What a hash join loses of the weight of its lists, when combining two entries loses what `lost`
says: with every combined pair the other index entries of the key go too. -/
def joinLost : List α → List α → ℕ
  | [], _ => 0
  | a :: as, index =>
    match lookup key (key a) index with
    | some b =>
      lost a b + ((index.filter fun x => decide (key x = key a)).tail.map weight).sum +
        joinLost as (index.filter fun x => decide (key x ≠ key a))
    | none => joinLost as index

variable {key combine weight lost} {as bs : List α}

/-- The index entries of a key are the one that is found and the others. -/
lemma sum_filter_of_lookup {k : κ} {b : α} {index : List α} (h : lookup key k index = some b) :
    (index.map weight).sum =
      weight b + ((index.filter fun x => decide (key x = k)).tail.map weight).sum +
        ((index.filter fun x => decide (key x ≠ k)).map weight).sum := by
  have hsplit : index.filter (fun x => decide (key x = k)) =
      b :: (index.filter fun x => decide (key x = k)).tail := by
    refine (cons_head?_tail ?_).symm
    rw [head?_filter]
    exact h
  have hperm := filter_append_perm (fun x => decide (key x = k)) index
  rw [← (hperm.map weight).sum_eq, map_append, sum_append, hsplit]
  simp

/-- The index keeps the entries whose key no left entry has. -/
lemma joinLoop_snd (index : List α) : (joinLoop key combine as index).2 =
    index.filter fun x => decide (key x ∉ as.map key) := by
  induction as generalizing index with
  | nil => simp [joinLoop]
  | cons a as ih =>
    rw [joinLoop]
    cases hb : lookup key (key a) index with
    | none =>
      rw [ih]
      refine filter_congr fun x hx => ?_
      simp [lookup_eq_none_iff.mp hb x hx]
    | some b =>
      rw [ih, filter_filter]
      refine filter_congr fun x _ => ?_
      rw [← Bool.decide_and, decide_eq_decide, map_cons, mem_cons, not_or, and_comm]

lemma sum_joinLoop
    (h : ∀ a ∈ as, ∀ b, key b = key a → weight (combine a b) + lost a b = weight a + weight b)
    (index : List α) :
    ((joinLoop key combine as index).1.map weight).sum +
        ((joinLoop key combine as index).2.map weight).sum + joinLost key weight lost as index =
      (as.map weight).sum + (index.map weight).sum := by
  induction as generalizing index with
  | nil => simp [joinLoop, joinLost]
  | cons a as ih =>
    obtain ⟨ha, has⟩ := forall_mem_cons.mp h
    rw [joinLoop, joinLost]
    cases hb : lookup key (key a) index with
    | none =>
      have := ih has index
      simp only [map_cons, sum_cons]
      omega
    | some b =>
      have hpair := ha b (key_of_lookup hb)
      have hrest := ih has (index.filter fun x => decide (key x ≠ key a))
      have hindex : (index.map weight).sum = _ := sum_filter_of_lookup hb
      simp only [map_cons, sum_cons]
      omega

/-- **The weight of a join.** -/
lemma sum_join
    (h : ∀ a ∈ as, ∀ b, key b = key a → weight (combine a b) + lost a b = weight a + weight b) :
    ((join key combine as bs).map weight).sum + joinLost key weight lost as bs.reverse =
      (as.map weight).sum + (bs.map weight).sum := by
  have hkept : bs.filter (fun b => (lookup key (key b) (joinLoop key combine as bs.reverse).2).isSome) =
      bs.filter fun b => decide (key b ∉ as.map key) := by
    refine filter_congr fun b hb => ?_
    rw [lookup_joinLoop_snd]
    by_cases hmem : key b ∈ as.map key
    · simp [hmem]
    · rw [if_neg hmem, decide_eq_true hmem]
      simp only [lookup, find?_isSome, decide_eq_true_eq]
      exact ⟨b, mem_reverse.mpr hb, rfl⟩
  have hloop := sum_joinLoop h bs.reverse
  rw [joinLoop_snd] at hloop
  rw [join, ((sortBy_perm _).map weight).sum_eq, map_append, sum_append, hkept]
  simp only [filter_reverse, map_reverse, sum_reverse] at hloop
  omega

end Weight

end KeyedList
