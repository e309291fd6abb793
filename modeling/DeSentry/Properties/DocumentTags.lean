import DeSentry.Properties.DocumentUpdate

/-!
# The tags a write draws

`NextTag` is called once for every array element a write creates, so the tags in an updated
document are tags of the old one and a block of consecutive draws (`draws_apply`).  `Draws` is that
statement as a triple: from the counter `seq` to the counter `seq'`, a list of tags was produced
that consists of tags in `old` and of all draws in between, at most `n` of them.  Triples compose
along the loops of the update (`Draws.append`).

The draws of one block are distinct as long as the block is shorter than the range of the counter,
and every element takes room in the encoding (`length_tags_le`), so documents that fit into a page
have no repeated draw.
-/

namespace DeSentry

open ByteCodec KeyedList JsonValue
open List hiding lookup

namespace CrdtValue

/-! ## Tags of a document -/

mutual
/-- The tags of all array elements, at every level. -/
def tags : CrdtValue → List Bytes
  | .scalar .. => []
  | .array _ _ elems => tagsElems elems
  | .object _ _ fields => tagsFields fields

/-- `tags` of the elements of an array, their own included. -/
def tagsElems : List (CrdtArrayElem CrdtValue) → List Bytes
  | [] => []
  | ⟨tag, v, _⟩ :: es => tag :: tags v ++ tagsElems es

/-- `tags` of the fields of an object. -/
def tagsFields : List (Bytes × CrdtValue) → List Bytes
  | [] => []
  | (_, v) :: fs => tags v ++ tagsFields fs
end

lemma tagsElems_eq (elems : List (CrdtArrayElem CrdtValue)) :
    tagsElems elems = elems.flatMap fun e => e.tag :: e.value.tags := by
  induction elems with
  | nil => rfl
  | cons e es ih =>
    rw [tagsElems, ih, flatMap_cons]

lemma tagsFields_eq (fields : List (Bytes × CrdtValue)) :
    tagsFields fields = fields.flatMap fun f => f.2.tags := by
  induction fields with
  | nil => rfl
  | cons f fs ih =>
    rw [tagsFields, ih, flatMap_cons]

/-! ## Blocks of draws -/

/-- `k` consecutive results of `NextTag`. -/
def drawn (ts : HLCTimestamp) (seq : UInt64) (k : ℕ) : List Bytes :=
  (List.range k).map fun i => nextTag ts (seq + UInt64.ofNat i)

lemma drawn_add (ts : HLCTimestamp) (seq : UInt64) (k m : ℕ) :
    drawn ts seq (k + m) = drawn ts seq k ++ drawn ts (seq + UInt64.ofNat k) m := by
  simp only [drawn, range_add, map_append, map_map]
  congr 2
  funext i
  simp only [Function.comp_apply, UInt64.ofNat_add, UInt64.add_assoc]

/-- The draws of a block that does not wrap are distinct. -/
lemma nodup_drawn {k : ℕ} (hk : k ≤ 2 ^ 64) (ts : HLCTimestamp) (seq : UInt64) :
    (drawn ts seq k).Nodup := by
  refine List.Nodup.map_on (fun i hi j hj h => ?_) nodup_range
  have hseq := UInt64.add_right_inj seq |>.mp (nextTag_inj h).2
  have hnat := congrArg UInt64.toNat hseq
  rw [UInt64.toNat_ofNat', UInt64.toNat_ofNat'] at hnat
  have hi' := mem_range.mp hi
  have hj' := mem_range.mp hj
  rwa [Nat.mod_eq_of_lt (by omega), Nat.mod_eq_of_lt (by omega)] at hnat

/-- From counter `seq` to counter `seq'` the tags `made` are produced: some of `old`, and at most
`n` draws, which are all the draws in between. -/
def Draws (ts : HLCTimestamp) (seq seq' : UInt64) (made old : List Bytes) (n : ℕ) : Prop :=
  ∃ k ≤ n, seq' = seq + UInt64.ofNat k ∧
    ∃ kept, (∀ t ∈ kept, t ∈ old) ∧ made.Perm (kept ++ drawn ts seq k)

section Draws

variable {ts : HLCTimestamp} {seq seq' seq'' : UInt64} {made made' old old' : List Bytes} {m n : ℕ}

lemma draws_keep (h : ∀ t ∈ made, t ∈ old) : Draws ts seq seq made old 0 :=
  ⟨0, le_rfl, by simp, made, h, by simp [drawn]⟩

lemma draws_one : Draws ts seq (seq + 1) [nextTag ts seq] old 1 :=
  ⟨1, le_rfl, rfl, [], by simp, by simp [drawn]⟩

lemma Draws.append (h : Draws ts seq seq' made old m) (h' : Draws ts seq' seq'' made' old n) :
    Draws ts seq seq'' (made ++ made') old (m + n) := by
  obtain ⟨k, hk, rfl, kept, hkept, hperm⟩ := h
  obtain ⟨k', hk', rfl, kept', hkept', hperm'⟩ := h'
  refine ⟨k + k', Nat.add_le_add hk hk', by rw [UInt64.ofNat_add, UInt64.add_assoc],
    kept ++ kept', forall_mem_append.mpr ⟨hkept, hkept'⟩, ?_⟩
  rw [drawn_add]
  refine (hperm.append hperm').trans ?_
  simp only [append_assoc]
  refine List.Perm.append_left kept ?_
  simp only [← append_assoc]
  exact perm_append_comm.append_right _

lemma Draws.mono (h : Draws ts seq seq' made old m) (hold : ∀ t ∈ old, t ∈ old') (hn : m ≤ n) :
    Draws ts seq seq' made old' n := by
  obtain ⟨k, hk, hseq, kept, hkept, hperm⟩ := h
  exact ⟨k, hk.trans hn, hseq, kept, fun t ht => hold t (hkept t ht), hperm⟩

lemma Draws.fresh (h : Draws ts seq seq' made [] n) : Draws ts seq seq' made old n :=
  h.mono (fun _ ht => absurd ht not_mem_nil) le_rfl

lemma Draws.perm (h : Draws ts seq seq' made old n) (hp : made'.Perm made) :
    Draws ts seq seq' made' old n := by
  obtain ⟨k, hk, hseq, kept, hkept, hperm⟩ := h
  exact ⟨k, hk, hseq, kept, hkept, hp.trans hperm⟩

end Draws

/-! ## The draws of an update -/

mutual
/-- `FromJson` draws a tag for each element and keeps none. -/
lemma draws_fromJson (ts : HLCTimestamp) : ∀ (j : JsonValue) (seq : UInt64),
    Draws ts seq (fromJson ts j seq).2 (fromJson ts j seq).1.tags [] j.elemCount
  | .scalar _, _ => draws_keep (by simp [fromJson, tags])
  | .array items, seq => draws_fromJsonItems ts items seq
  | .object fields, seq => draws_fromJsonFields ts fields seq

lemma draws_fromJsonItems (ts : HLCTimestamp) : ∀ (items : List JsonValue) (seq : UInt64),
    Draws ts seq (fromJsonItems ts items seq).2 (tagsElems (fromJsonItems ts items seq).1) []
      (elemCountItems items)
  | [], _ => draws_keep (by simp [fromJsonItems, tagsElems])
  | x :: xs, seq => by
    rw [fromJsonItems, tagsElems, elemCountItems]
    exact (draws_one.append (draws_fromJson ts x (seq + 1))).append (draws_fromJsonItems ts xs _)

lemma draws_fromJsonFields (ts : HLCTimestamp) :
    ∀ (fields : List (Bytes × JsonValue)) (seq : UInt64),
    Draws ts seq (fromJsonFields ts fields seq).2 (tagsFields (fromJsonFields ts fields seq).1) []
      (elemCountFields fields)
  | [], _ => draws_keep (by simp [fromJsonFields, tagsFields])
  | (k, x) :: fs, seq => by
    rw [fromJsonFields, tagsFields, elemCountFields]
    exact (draws_fromJson ts x seq).append (draws_fromJsonFields ts fs _)
end

/-- The elements an array update creates account for all its draws. -/
lemma draws_newElems (ts : HLCTimestamp) (xs : List JsonValue) (slots : List Slot) (seq : UInt64) :
    Draws ts seq (updateElems ts xs slots seq).2.2 (tagsElems (newElems ts xs slots seq)) []
      (elemCountItems xs) := by
  induction xs generalizing slots seq with
  | nil => exact draws_keep (by simp [newElems, tagsElems])
  | cons x xs ih =>
    rw [updateElems, newElems, elemCountItems]
    cases hm : takeMatch x slots with
    | some r => exact (ih r.2 seq).mono (fun t ht => ht) (by omega)
    | none =>
      exact (draws_one.append (draws_fromJson ts x (seq + 1))).append (ih slots _)

/-- **An update draws a tag for each element it creates** and keeps tags of the old document. -/
lemma draws_apply (ts : HLCTimestamp) (previous : CrdtValue) (j : JsonValue) (seq : UInt64) :
    Draws ts seq (applyJsonUpdate ts previous j seq).2 (applyJsonUpdate ts previous j seq).1.tags
      previous.tags j.elemCount := by
  refine counted_update_induction ts
    (P := fun previous j seq r => Draws ts seq r.2 r.1.tags previous.tags j.elemCount)
    ?_ ?_ ?_ ?_ previous j seq
  · intro previous j seq _
    exact (draws_keep fun t ht => ht).mono (fun t ht => ht) (Nat.zero_le _)
  · intro pts pfs fields seq _ ih
    have hfields : ∀ (fs : List (Bytes × JsonValue)), (∀ f ∈ fs, f ∈ fields) → ∀ seq,
        Draws ts seq (updateFields ts pfs fs seq).2 (tagsFields (updateFields ts pfs fs seq).1)
          (tagsFields pfs) (elemCountFields fs) := by
      intro fs hfs
      induction fs with
      | nil => exact fun seq => draws_keep (by simp [updateFields, tagsFields])
      | cons f fs ihfs =>
        intro seq
        rw [updateFields_cons]
        refine Draws.append ?_ (ihfs (fun g hg => hfs g (mem_cons_of_mem f hg)) _)
        cases hg : lookup Prod.fst f.1 pfs with
        | none =>
          rw [updateChild_none hg]
          exact (draws_fromJson ts f.2 seq).fresh
        | some g =>
          rw [updateChild_some hg]
          refine (ih f (hfs f mem_cons_self) g hg seq).mono (fun t ht => ?_) le_rfl
          rw [tagsFields_eq]
          exact mem_flatMap.mpr ⟨g, mem_of_lookup hg, ht⟩
    have hremoved : ∀ t ∈ tagsFields (removedFields ts (.object fields) pfs), t ∈ tagsFields pfs := by
      intro t ht
      rw [tagsFields_eq] at ht ⊢
      obtain ⟨f, hf, ht⟩ := mem_flatMap.mp ht
      obtain ⟨g, hg, rfl⟩ := mem_map.mp hf
      split_ifs at ht
      · exact mem_flatMap.mpr ⟨g, (mem_filter.mp hg).1, ht⟩
      · exact absurd ht not_mem_nil
    have htags : tagsFields (updatedFields ts pfs fields seq) =
        tagsFields (updateFields ts pfs fields seq).1 ++
          tagsFields (removedFields ts (.object fields) pfs) := by
      simp only [updatedFields, tagsFields_eq, flatMap_append]
    rw [tags, htags]
    exact (hfields fields (fun f hf => hf) seq).append (draws_keep hremoved)
  · intro pts pes items seq _
    obtain ⟨slots, hpes, -, hperm⟩ := perm_updated_array ts items pes seq
    have hcarried : ∀ t ∈ tagsElems (slots.map carry), t ∈ tagsElems pes := by
      intro t ht
      rw [tagsElems_eq, flatMap_map] at ht
      obtain ⟨s, hs, ht⟩ := mem_flatMap.mp ht
      rw [tag_carry, value_carry] at ht
      rw [tagsElems_eq, ← hpes]
      exact mem_flatMap.mpr ⟨s.1, mem_map_of_mem hs, ht⟩
    rw [elemCount, ← Nat.zero_add (elemCountItems items)]
    refine ((draws_keep hcarried).append (draws_newElems ts items _ seq).fresh).perm ?_
    rw [tags, tagsElems_eq, tagsElems_eq, tagsElems_eq, ← flatMap_append]
    exact hperm.flatMap_right _
  · intro previous j seq _ _
    exact (draws_fromJson ts j seq).fresh

/-! ## Room in the encoding -/

lemma length_flatMap_le_sorted {α β γ : Type} {key : α → Bytes} {xs : List α} {f : α → List β}
    {g : α → List γ} (h : ∀ x ∈ xs, (f x).length ≤ (g x).length) :
    (xs.flatMap f).length ≤ ((sortBy key xs).map g).flatten.length := by
  have hsorted : ((sortBy key xs).map fun x => (g x).length).sum =
      (xs.map fun x => (g x).length).sum := ((sortBy_perm xs).map _).sum_eq
  rw [length_flatMap, length_flatten, map_map]
  exact (sum_le_sum h).trans hsorted.ge

/-- Every element takes at least a byte of the encoding. -/
lemma length_tags_le (v : CrdtValue) : v.tags.length ≤ v.encode.length := by
  induction v with
  | scalar ts d s => exact Nat.zero_le _
  | array ts d elems ih =>
    have hle : (tagsElems elems).length ≤
        ((sortBy CrdtArrayElem.tag elems).map encodeElem).flatten.length := by
      rw [tagsElems_eq]
      refine length_flatMap_le_sorted fun e he => ?_
      have := ih e he
      rw [length_encodeElem, length_cons]
      omega
    rw [tags, encode_array, length_append]
    omega
  | object ts d fields ih =>
    have hle : (tagsFields fields).length ≤
        ((sortBy Prod.fst fields).map encodeField).flatten.length := by
      rw [tagsFields_eq]
      refine length_flatMap_le_sorted fun f hf => ?_
      have := ih f hf
      rw [length_encodeField]
      omega
    rw [tags, encode_object, length_append]
    omega

/-- In a list of fewer than `2 ^ 64` tags, the number of draws can be read off the counter. -/
lemma Draws.exact {ts : HLCTimestamp} {seq seq' : UInt64} {made old : List Bytes} {n : ℕ}
    (h : Draws ts seq seq' made old n) (hlen : made.length < 2 ^ 64) :
    ∃ kept, (∀ t ∈ kept, t ∈ old) ∧ made.Perm (kept ++ drawn ts seq (seq' - seq).toNat) := by
  obtain ⟨k, -, rfl, kept, hkept, hperm⟩ := h
  have hk : k < 2 ^ 64 := by
    have := hperm.length_eq
    simp only [length_append, drawn, length_map, length_range] at this
    omega
  have hcount : (seq + UInt64.ofNat k - seq).toNat = k := by
    rw [UInt64.add_comm, UInt64.add_sub_cancel, UInt64.toNat_ofNat', Nat.mod_eq_of_lt hk]
  exact ⟨kept, hkept, by rwa [hcount]⟩

end CrdtValue

end DeSentry
