import DeSentry.Properties.DocumentUpdate

/-!
# What a document shows

`ToJson` lists the live elements of an array in the order they are stored in, and both `Encode`
and `Merge` store them in the order of their tags.  What a document shows is therefore fixed only
up to the order of array items.  `SameContent` is `JsonEquals` without that order; it
does not change under `canon`.  An update shows the JSON value it was given, whatever document it
was applied to; `Comparison.apply` proves this for every comparison with a few closure properties,
of which `SameContent` is one (`sameContent_apply`).
-/

namespace DeSentry

open ByteCodec KeyedList
open List hiding lookup

variable (elems : List (CrdtArrayElem CrdtValue))

namespace CrdtValue

/-! ## Equality up to the order of array items -/

mutual
/-- `JsonEquals` up to the order of array items, at every level.  Identical scalars count as
equal even where `JsonEquals` says otherwise, as for a double that is not a number. -/
def SameContent : JsonValue → JsonValue → Prop
  | .scalar a, .scalar b => a = b ∨ scalarEquals a b = true
  | .array xs, .array ys => SameItems xs ys
  | .object fs, .object gs => fs.length = gs.length ∧ SameFields fs (.object gs)
  | _, _ => False

/-- The items of the first array can be paired off with those of the second. -/
def SameItems : List JsonValue → List JsonValue → Prop
  | [], ys => ys = []
  | x :: xs, ys => ∃ pre y post, ys = pre ++ y :: post ∧ SameContent x y ∧ SameItems xs (pre ++ post)

/-- Every field is found in the other object, with the same content. -/
def SameFields : List (Bytes × JsonValue) → JsonValue → Prop
  | [], _ => True
  | (k, x) :: fs, b => (∃ y, b.find k = some y ∧ SameContent x y) ∧ SameFields fs b
end

variable {fs : List (Bytes × JsonValue)} {b : JsonValue}

lemma sameFields_iff :
    SameFields fs b ↔ ∀ f ∈ fs, ∃ y, b.find f.1 = some y ∧ SameContent f.2 y := by
  induction fs with
  | nil => simp [SameFields]
  | cons f fs ih =>
    rw [SameFields, ih, forall_mem_cons]

variable {xs ys : List JsonValue}

lemma sameItems_iff :
    SameItems xs ys ↔ ∃ zs, List.Forall₂ SameContent xs zs ∧ zs.Perm ys := by
  induction xs generalizing ys with
  | nil => simp [SameItems]
  | cons x xs ih =>
    constructor
    · rintro ⟨pre, y, post, rfl, hxy, h⟩
      obtain ⟨zs, hzs, hperm⟩ := ih.mp h
      exact ⟨y :: zs, hzs.cons hxy, (hperm.cons y).trans perm_middle.symm⟩
    · rintro ⟨zs, hzs, hperm⟩
      obtain ⟨y, zs, hxy, hrest, rfl⟩ := List.forall₂_cons_left_iff.mp hzs
      obtain ⟨pre, post, rfl⟩ := append_of_mem (hperm.mem_iff.mp mem_cons_self)
      exact ⟨pre, y, post, rfl, hxy, ih.mpr ⟨zs, hrest, (hperm.trans perm_middle).cons_inv⟩⟩

lemma SameItems.perm {xs' : List JsonValue} (h : SameItems xs ys) (hp : xs'.Perm xs) :
    SameItems xs' ys := by
  obtain ⟨zs, hzs, hperm⟩ := sameItems_iff.mp h
  obtain ⟨zs', hzs', hperm'⟩ := List.perm_comp_forall₂ hp hzs
  exact sameItems_iff.mpr ⟨zs', hzs', hperm'.trans hperm⟩

lemma sameItems_map_congr {α : Type*} {f g : α → JsonValue} (xs : List α)
    (h : ∀ x ∈ xs, ∀ j, SameContent (f x) j ↔ SameContent (g x) j) (ys : List JsonValue) :
    SameItems (xs.map f) ys ↔ SameItems (xs.map g) ys := by
  induction xs generalizing ys with
  | nil => rfl
  | cons x xs ih =>
    rw [forall_mem_cons] at h
    simp only [map_cons, SameItems, h.1, ih h.2]

lemma jsonEqualsItems_iff :
    jsonEqualsItems xs ys = true ↔ List.Forall₂ (fun x y => jsonEquals x y = true) xs ys := by
  induction xs generalizing ys with
  | nil => cases ys <;> simp [jsonEqualsItems]
  | cons x xs ih => cases ys <;> simp [jsonEqualsItems, ih]

lemma jsonEqualsFields_iff :
    jsonEqualsFields fs b = true ↔ ∀ f ∈ fs, ∃ y, b.find f.1 = some y ∧ jsonEquals f.2 y = true := by
  induction fs with
  | nil => simp [jsonEqualsFields]
  | cons f fs ih =>
    obtain ⟨k, x⟩ := f
    rw [jsonEqualsFields, Bool.and_eq_true, ih, forall_mem_cons]
    refine and_congr_left fun _ => ?_
    cases hk : b.find k <;> simp

/-- `JsonEquals` is finer. -/
lemma sameContent_of_jsonEquals {a : JsonValue} (h : jsonEquals a b = true) :
    SameContent a b := by
  induction a generalizing b with
  | scalar s =>
    cases b with
    | scalar t => exact Or.inr h
    | array ys => exact absurd h Bool.false_ne_true
    | object gs => exact absurd h Bool.false_ne_true
  | array xs ih =>
    cases b with
    | scalar t => exact absurd h Bool.false_ne_true
    | object gs => exact absurd h Bool.false_ne_true
    | array ys =>
      have hall : ∀ x ∈ xs, ∀ y, jsonEquals x y = true → SameContent x y := fun x hx _ => ih x hx
      have hitems := (List.forall₂_and_left _ _).mpr ⟨hall, jsonEqualsItems_iff.mp h⟩
      exact sameItems_iff.mpr ⟨ys, hitems.imp fun x y hxy => hxy.1 y hxy.2, List.Perm.refl ys⟩
  | object fs ih =>
    cases b with
    | scalar t => exact absurd h Bool.false_ne_true
    | array ys => exact absurd h Bool.false_ne_true
    | object gs =>
      rw [jsonEquals, Bool.and_eq_true, beq_iff_eq] at h
      refine ⟨h.1, sameFields_iff.mpr fun f hf => ?_⟩
      obtain ⟨y, hy, he⟩ := jsonEqualsFields_iff.mp h.2 f hf
      exact ⟨y, hy, ih f hf he⟩

variable {j : JsonValue}

/-- A value with distinct names has its own content. -/
lemma sameContent_refl (h : j.UniqueKeys) : SameContent j j := by
  induction j with
  | scalar s => exact Or.inl rfl
  | array xs ih =>
    rw [JsonValue.uniqueKeys_array] at h
    exact sameItems_iff.mpr ⟨xs, List.forall₂_same.mpr fun x hx => ih x hx (h x hx), List.Perm.refl _⟩
  | object fs ih =>
    rw [JsonValue.uniqueKeys_object] at h
    exact ⟨rfl, sameFields_iff.mpr fun f hf =>
      ⟨f.2, JsonValue.find_of_mem h.1 hf, ih f hf (h.2 f hf)⟩⟩

/-! ## Materialization -/

lemma toJsonElems_eq :
    toJsonElems elems = (elems.filter fun e => !e.tombstone).map fun e => e.value.toJson := by
  induction elems with
  | nil => rfl
  | cons e es ih =>
    obtain ⟨tag, v, d⟩ := e
    cases d <;> simp [toJsonElems, ih]

variable (fields : List (Bytes × CrdtValue))

lemma toJsonFields_eq :
    toJsonFields fields =
      (fields.filter fun f => !f.2.tombstone).map fun f => (f.1, f.2.toJson) := by
  induction fields with
  | nil => rfl
  | cons f fs ih =>
    obtain ⟨k, v⟩ := f
    cases hd : v.tombstone <;> simp [toJsonFields, ih, hd]

lemma toJsonElems_append (es gs : List (CrdtArrayElem CrdtValue)) :
    toJsonElems (es ++ gs) = toJsonElems es ++ toJsonElems gs := by
  simp [toJsonElems_eq]

lemma toJsonFields_append (fs gs : List (Bytes × CrdtValue)) :
    toJsonFields (fs ++ gs) = toJsonFields fs ++ toJsonFields gs := by
  simp [toJsonFields_eq]

lemma toJsonElems_canon :
    (toJsonElems (sortBy CrdtArrayElem.tag (canonElems elems))).Perm
      ((elems.filter fun e => !e.tombstone).map fun e => e.value.canon.toJson) := by
  have hmap : (canonElems elems).filter (fun e => !e.tombstone) =
      (elems.filter fun e => !e.tombstone).map canonElem := by
    rw [canonElems_eq, filter_map]
    rfl
  rw [toJsonElems_eq]
  refine (((sortBy_perm _).filter _).map _).trans ?_
  rw [hmap, map_map]
  exact List.Perm.refl _

lemma toJsonFields_canon :
    (toJsonFields (sortBy Prod.fst (canonFields fields))).Perm
      ((fields.filter fun f => !f.2.tombstone).map fun f => (f.1, f.2.canon.toJson)) := by
  have hmap : (canonFields fields).filter (fun f => !f.2.tombstone) =
      (fields.filter fun f => !f.2.tombstone).map canonField := by
    rw [canonFields_eq, filter_map]
    simp [Function.comp_def, canonField]
  rw [toJsonFields_eq]
  refine (((sortBy_perm _).filter _).map _).trans ?_
  rw [hmap, map_map]
  exact List.Perm.refl _

/-- **The order of storage does not matter** for the content of a document. -/
lemma sameContent_canon (v : CrdtValue) (j : JsonValue) :
    SameContent v.canon.toJson j ↔ SameContent v.toJson j := by
  induction v generalizing j with
  | scalar ts d s => rfl
  | array ts d elems ih =>
    cases d with
    | true => rfl
    | false =>
      have hperm := toJsonElems_canon elems
      have hlive := sameItems_map_congr (elems.filter fun e => !e.tombstone)
        fun e he j => ih e (mem_filter.mp he).1 j
      rw [canon, toJson, toJson,
        toJsonElems_eq elems]
      cases j with
      | scalar s => rfl
      | object fields => rfl
      | array items =>
        exact ⟨fun h => (hlive items).mp (h.perm hperm.symm),
          fun h => ((hlive items).mpr h).perm hperm⟩
  | object ts d fields ih =>
    cases d with
    | true => rfl
    | false =>
      have hperm := toJsonFields_canon fields
      rw [canon, toJson, if_neg Bool.false_ne_true, toJson, if_neg Bool.false_ne_true,
        toJsonFields_eq fields]
      cases j with
      | scalar s => rfl
      | array items => rfl
      | object gs =>
        simp only [SameContent, hperm.length_eq, sameFields_iff, hperm.mem_iff, length_map,
          forall_mem_map]
        refine and_congr_right fun _ => forall₂_congr fun f hf => ?_
        simp only [ih f (mem_filter.mp hf).1]

/-! ## What an update shows -/

mutual
/-- A freshly written value shows what was written. -/
lemma toJson_fromJson (ts : HLCTimestamp) : ∀ (j : JsonValue) (seq : UInt64),
    (fromJson ts j seq).1.toJson = j
  | .scalar _, _ => rfl
  | .array items, seq => congrArg JsonValue.array (toJson_fromJsonItems ts items seq)
  | .object fields, seq => congrArg JsonValue.object (toJson_fromJsonFields ts fields seq)

lemma toJson_fromJsonItems (ts : HLCTimestamp) : ∀ (items : List JsonValue) (seq : UInt64),
    toJsonElems (fromJsonItems ts items seq).1 = items
  | [], seq => rfl
  | x :: xs, seq => by
    rw [fromJsonItems, toJsonElems, if_neg Bool.false_ne_true, toJson_fromJson ts x,
      toJson_fromJsonItems ts xs]

lemma toJson_fromJsonFields (ts : HLCTimestamp) :
    ∀ (fields : List (Bytes × JsonValue)) (seq : UInt64),
    toJsonFields (fromJsonFields ts fields seq).1 = fields
  | [], seq => rfl
  | (k, x) :: fs, seq => by
    rw [fromJsonFields, toJsonFields, tombstone_fromJson, if_neg Bool.false_ne_true,
      toJson_fromJson ts x, toJson_fromJsonFields ts fs]
end

variable (ts : HLCTimestamp) (previous : CrdtValue)

/-- An update is never a tombstone. -/
@[simp] lemma tombstone_apply (j : JsonValue) (seq : UInt64) :
    (applyJsonUpdate ts previous j seq).1.tombstone = false := by
  rcases apply_cases ts previous j seq with ⟨hn, h⟩ | ⟨_, _, _, -, -, -, h⟩ |
    ⟨_, _, _, -, -, -, h⟩ | ⟨-, -, h⟩
  · rw [isNoop, Bool.and_eq_true, Bool.not_eq_true'] at hn
    rw [h]
    exact hn.1
  · rw [h]
    rfl
  · rw [h]
    rfl
  · rw [h, tombstone_fromJson]

/-- A comparison of JSON values under which an update shows what was written, for the values in
`Q`. -/
structure Comparison (Q : JsonValue → Prop) (R : JsonValue → JsonValue → Prop) : Prop where
  refl : ∀ {j}, Q j → R j j
  equals : ∀ {a b}, jsonEquals a b = true → R a b
  array : ∀ {xs ys}, List.Forall₂ R xs ys → R (.array xs) (.array ys)
  object : ∀ {fs gs}, fs.length = gs.length →
    (∀ f ∈ fs, ∃ y, (JsonValue.object gs).find f.1 = some y ∧ R f.2 y) → R (.object fs) (.object gs)
  items : ∀ {xs}, Q (.array xs) → ∀ x ∈ xs, Q x
  fields : ∀ {fs}, Q (.object fs) → Distinct Prod.fst fs ∧ ∀ f ∈ fs, Q f.2

lemma comparison_sameContent : Comparison JsonValue.UniqueKeys SameContent where
  refl := sameContent_refl
  equals := sameContent_of_jsonEquals
  array h := sameItems_iff.mpr ⟨_, h, List.Perm.refl _⟩
  object hlen h := ⟨hlen, sameFields_iff.mpr h⟩
  items h := (JsonValue.uniqueKeys_array _).mp h
  fields h := (JsonValue.uniqueKeys_object _).mp h

variable {Q : JsonValue → Prop} {R : JsonValue → JsonValue → Prop}

/-- The outer array loop returns one live element for each new item, in order, that shows it. -/
lemma Comparison.updateElems (hR : Comparison Q R) {items : List JsonValue} (hj : ∀ x ∈ items, Q x)
    (ts : HLCTimestamp) (slots : List Slot) (seq : UInt64) :
    List.Forall₂ (fun e x => e.tombstone = false ∧ R e.value.toJson x)
      (updateElems ts items slots seq).1 items := by
  induction items generalizing slots seq with
  | nil => exact List.Forall₂.nil
  | cons x xs ih =>
    rw [forall_mem_cons] at hj
    rw [CrdtValue.updateElems]
    cases hm : takeMatch x slots with
    | none =>
      refine List.Forall₂.cons ⟨rfl, ?_⟩ (ih hj.2 _ _)
      rw [toJson_fromJson]
      exact hR.refl hj.1
    | some r =>
      obtain ⟨e, slots'⟩ := r
      obtain ⟨hd, heq, -⟩ := takeMatch_eq_some hm
      exact List.Forall₂.cons ⟨hd, hR.equals heq⟩ (ih hj.2 _ _)

/-- Nothing of what an update removes is shown. -/
lemma toJsonElems_removed (slots : List Slot) : toJsonElems (removedElems slots) = [] := by
  simp [toJsonElems_eq, removedElems]

lemma toJsonFields_removed (newJson : JsonValue) (pfs : List (Bytes × CrdtValue)) :
    toJsonFields (removedFields ts newJson pfs) = [] := by
  rw [toJsonFields_eq, map_eq_nil_iff, filter_eq_nil_iff]
  intro f hf
  obtain ⟨g, -, rfl⟩ := mem_map.mp hf
  split_ifs with hd
  · simp [hd]
  · simp [makeTombstone, tombstone]

/-- **An update shows what was written**, whatever it was applied to. -/
theorem Comparison.apply (hR : Comparison Q R) (ts : HLCTimestamp) (previous : CrdtValue) (hj : Q j)
    (seq : UInt64) : R (applyJsonUpdate ts previous j seq).1.toJson j := by
  refine update_induction ts (P := fun _ j w => Q j → R w.toJson j)
    ?_ ?_ ?_ ?_ previous j seq hj
  · intro previous j hn _
    rw [isNoop, Bool.and_eq_true] at hn
    exact hR.equals hn.2
  · intro pts pfs fields seq _ ih hj
    have hfields := hR.fields hj
    have hnew : ∀ f ∈ (updateFields ts pfs fields seq).1, f.2.tombstone = false ∧
        ∃ y, (JsonValue.object fields).find f.1 = some y ∧ R f.2.toJson y := by
      refine forall_mem_updateFields (fun f hf s => ?_) seq
      rw [JsonValue.find_of_mem hfields.1 hf]
      cases hg : lookup Prod.fst f.1 pfs with
      | none =>
        rw [updateChild_none hg, toJson_fromJson]
        exact ⟨tombstone_fromJson f.2 s, f.2, rfl, hR.refl (hfields.2 f hf)⟩
      | some g =>
        rw [updateChild_some hg]
        exact ⟨tombstone_apply ts g.2 f.2 s, f.2, rfl, ih f hf g hg s (hfields.2 f hf)⟩
    have hlive : ((updateFields ts pfs fields seq).1.filter fun f => !f.2.tombstone) =
        (updateFields ts pfs fields seq).1 :=
      filter_eq_self.mpr fun f hf => by rw [(hnew f hf).1]; rfl
    have hlen : (updateFields ts pfs fields seq).1.length = fields.length := by
      simpa using congrArg List.length (keys_updateFields ts pfs fields seq)
    rw [toJson, updatedFields, toJsonFields_append,
      toJsonFields_removed, append_nil, toJsonFields_eq, hlive]
    refine hR.object (by rw [length_map, hlen]) ?_
    exact forall_mem_map.mpr fun f hf => (hnew f hf).2
  · intro pts pes items seq _ hj
    obtain ⟨hdead, hitems⟩ := (List.forall₂_and_left _ _).mp
      (hR.updateElems (hR.items hj) ts (pes.map fun e => (e, false)) seq)
    have hlive := filter_eq_self.mpr fun e he => Bool.not_eq_true' _ |>.mpr (hdead e he)
    rw [toJson, updatedElems, diffElems, toJsonElems_append,
      toJsonElems_removed, append_nil, toJsonElems_eq, hlive]
    exact hR.array (List.forall₂_map_left_iff.mpr hitems)
  · intro previous j seq _ _ hj
    rw [toJson_fromJson]
    exact hR.refl hj

theorem sameContent_apply (hj : j.UniqueKeys) (seq : UInt64) :
    SameContent (applyJsonUpdate ts previous j seq).1.toJson j :=
  comparison_sameContent.apply ts previous hj seq

end CrdtValue

end DeSentry
