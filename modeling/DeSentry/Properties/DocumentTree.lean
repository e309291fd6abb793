import DeSentry.Construction.Crdt.Document
import DeSentry.Framework.LwwTree

/-!
# Documents as last-writer-wins trees

A `CrdtValue` keeps its fields and elements in lists whose order carries no meaning.  This file
takes the order away twice over:

* `canon` sorts every list, at every level; it is the tree `Decode` gives back for the bytes
  `Encode` writes;
* `denote` maps a document to an `LwwTree`: a live object or array is a node whose children are
  found by key or tag, and a scalar or a tombstone is a leaf that carries the whole write.

On documents with distinct keys and tags (`WellFormed`) the two lose exactly the same
information (`canon_eq_of_denote_eq`, `denote_canon`), and `CrdtValue::Merge` with its hash joins
and sorts refines the abstract merge (`denote_merge`).
-/

namespace DeSentry

open ByteCodec KeyedList
open List hiding lookup lookup_cons

/-- The two kinds of node that merge piecewise. -/
inductive Container where
  | array
  | object
  deriving DecidableEq, Repr

/-- The abstract documents: children by key or tag, whole writes at the leaves. -/
abbrev DocTree (V : Type) := LwwTree Bytes HLCTimestamp V Container

namespace CrdtValue

variable {elems : List (CrdtArrayElem CrdtValue)} {fields : List (Bytes × CrdtValue)}
  {v : CrdtValue}

/-! ## Nodes -/

mutual
/-- Every node of a document, the root first. -/
def nodes : CrdtValue → List CrdtValue
  | .scalar ts d s => [.scalar ts d s]
  | .array ts d elems => .array ts d elems :: nodesElems elems
  | .object ts d fields => .object ts d fields :: nodesFields fields

/-- `nodes` of the elements of an array. -/
def nodesElems : List (CrdtArrayElem CrdtValue) → List CrdtValue
  | [] => []
  | ⟨_, v, _⟩ :: es => nodes v ++ nodesElems es

/-- `nodes` of the fields of an object. -/
def nodesFields : List (Bytes × CrdtValue) → List CrdtValue
  | [] => []
  | (_, v) :: fs => nodes v ++ nodesFields fs
end

lemma nodesElems_eq : nodesElems elems = elems.flatMap fun e => nodes e.value := by
  induction elems with
  | nil => rfl
  | cons e es ih => simp [nodesElems, ih]

lemma nodesFields_eq : nodesFields fields = fields.flatMap fun f => nodes f.2 := by
  induction fields with
  | nil => rfl
  | cons f fs ih => simp [nodesFields, ih]

/-- A property of every node of a document. -/
def All (p : CrdtValue → Prop) (v : CrdtValue) : Prop := ∀ x ∈ v.nodes, p x

instance (p : CrdtValue → Prop) [DecidablePred p] (v : CrdtValue) : Decidable (v.All p) :=
  inferInstanceAs (Decidable (∀ x ∈ _, _))

section All

variable {p : CrdtValue → Prop} {t : HLCTimestamp} {d : Bool}

lemma all_scalar {s : Scalar} : All p (.scalar t d s) ↔ p (.scalar t d s) := by
  simp [All, nodes]

lemma all_array : All p (.array t d elems) ↔ p (.array t d elems) ∧ ∀ e ∈ elems, All p e.value := by
  simp only [All, nodes, nodesElems_eq, forall_mem_cons, mem_flatMap]
  exact and_congr_right' ⟨fun h e he y hy => h y ⟨e, he, hy⟩, fun h y ⟨e, he, hy⟩ => h e he y hy⟩

lemma all_object :
    All p (.object t d fields) ↔ p (.object t d fields) ∧ ∀ f ∈ fields, All p f.2 := by
  simp only [All, nodes, nodesFields_eq, forall_mem_cons, mem_flatMap]
  exact and_congr_right' ⟨fun h f hf y hy => h y ⟨f, hf, hy⟩, fun h y ⟨f, hf, hy⟩ => h f hf y hy⟩

lemma self_mem_nodes : v ∈ v.nodes := by
  cases v <;> exact mem_cons_self

lemma All.root (h : v.All p) : p v := h v v.self_mem_nodes

end All

/-- The keys or tags of one node are distinct. -/
def DistinctHere : CrdtValue → Prop
  | .scalar _ _ _ => True
  | .array _ _ elems => Distinct CrdtArrayElem.tag elems
  | .object _ _ fields => Distinct Prod.fst fields

instance : DecidablePred DistinctHere := fun v => by
  cases v <;> unfold DistinctHere <;> infer_instance

/-- Every object node has distinct keys and every array node distinct tags. -/
def WellFormed (v : CrdtValue) : Prop := v.All DistinctHere

instance : DecidablePred WellFormed := fun v => inferInstanceAs (Decidable (v.All _))

section WellFormed

variable {t : HLCTimestamp} {d : Bool}

@[simp] lemma wellFormed_scalar {s : Scalar} : WellFormed (.scalar t d s) :=
  all_scalar.mpr trivial

lemma wellFormed_array : WellFormed (.array t d elems) ↔
    Distinct CrdtArrayElem.tag elems ∧ ∀ e ∈ elems, e.value.WellFormed := all_array

lemma wellFormed_object : WellFormed (.object t d fields) ↔
    Distinct Prod.fst fields ∧ ∀ f ∈ fields, f.2.WellFormed := all_object

end WellFormed

/-! ## Canonical order -/

mutual
/-- The document with every list sorted by key or tag. -/
def canon : CrdtValue → CrdtValue
  | .scalar ts d s => .scalar ts d s
  | .array ts d elems => .array ts d (sortBy CrdtArrayElem.tag (canonElems elems))
  | .object ts d fields => .object ts d (sortBy Prod.fst (canonFields fields))

/-- `canon` of the elements of an array. -/
def canonElems : List (CrdtArrayElem CrdtValue) → List (CrdtArrayElem CrdtValue)
  | [] => []
  | ⟨tag, v, d⟩ :: es => ⟨tag, canon v, d⟩ :: canonElems es

/-- `canon` of the fields of an object. -/
def canonFields : List (Bytes × CrdtValue) → List (Bytes × CrdtValue)
  | [] => []
  | (k, v) :: fs => (k, canon v) :: canonFields fs
end

/-- An element with its value in canonical order. -/
def canonElem (e : CrdtArrayElem CrdtValue) : CrdtArrayElem CrdtValue :=
  { e with value := e.value.canon }

/-- A field with its value in canonical order. -/
def canonField (f : Bytes × CrdtValue) : Bytes × CrdtValue := (f.1, f.2.canon)

lemma canonElems_eq (elems : List (CrdtArrayElem CrdtValue)) :
    canonElems elems = elems.map canonElem := by
  induction elems with
  | nil => rfl
  | cons e es ih => simp [canonElems, canonElem, ih]

lemma canonFields_eq (fields : List (Bytes × CrdtValue)) :
    canonFields fields = fields.map canonField := by
  induction fields with
  | nil => rfl
  | cons f fs ih => simp [canonFields, canonField, ih]

@[simp] lemma ts_canon (v : CrdtValue) : v.canon.ts = v.ts := by
  cases v <;> rfl

@[simp] lemma tombstone_canon (v : CrdtValue) : v.canon.tombstone = v.tombstone := by
  cases v <;> rfl

lemma lookup_canonElems (k : Bytes) : lookup CrdtArrayElem.tag k (canonElems elems) =
      (lookup CrdtArrayElem.tag k elems).map canonElem := by
  rw [canonElems_eq]
  exact lookup_map fun _ _ => rfl

lemma lookup_canonFields (k : Bytes) :
    lookup Prod.fst k (canonFields fields) = (lookup Prod.fst k fields).map canonField := by
  rw [canonFields_eq]
  exact lookup_map fun _ _ => rfl

lemma distinct_canonElems :
    Distinct CrdtArrayElem.tag (canonElems elems) ↔ Distinct CrdtArrayElem.tag elems := by
  rw [canonElems_eq]
  exact distinct_map fun _ _ => rfl

lemma distinct_canonFields :
    Distinct Prod.fst (canonFields fields) ↔ Distinct Prod.fst fields := by
  rw [canonFields_eq]
  exact distinct_map fun _ _ => rfl

lemma WellFormed.canon (h : v.WellFormed) : v.canon.WellFormed := by
  induction v with
  | scalar ts d s => exact wellFormed_scalar
  | array ts d elems ih =>
    rw [wellFormed_array] at h
    refine wellFormed_array.mpr ⟨(distinct_canonElems.mpr h.1).sortBy, fun e he => ?_⟩
    rw [mem_sortBy, canonElems_eq] at he
    obtain ⟨e, hem, rfl⟩ := mem_map.mp he
    exact ih e hem (h.2 e hem)
  | object ts d fields ih =>
    rw [wellFormed_object] at h
    refine wellFormed_object.mpr ⟨(distinct_canonFields.mpr h.1).sortBy, fun f hf => ?_⟩
    rw [mem_sortBy, canonFields_eq] at hf
    obtain ⟨f, hfm, rfl⟩ := mem_map.mp hf
    exact ih f hfm (h.2 f hfm)

/-! ## The abstract tree of a document -/

/-- The removal flag of a tag. -/
def deadTag (elems : List (CrdtArrayElem CrdtValue)) (k : Bytes) : Bool :=
  ((lookup CrdtArrayElem.tag k elems).map CrdtArrayElem.tombstone).getD false

mutual
/-- The abstract tree of a document. -/
def denote : CrdtValue → DocTree CrdtValue
  | .scalar ts d s => .leaf ts (.scalar ts d s)
  | .array ts d elems =>
    if d then .leaf ts (canon (.array ts d elems))
    else .node ts .array (deadTag elems) (denoteElems elems)
  | .object ts d fields =>
    if d then .leaf ts (canon (.object ts d fields))
    else .node ts .object (fun _ => false) (denoteFields fields)

/-- The child of each tag. -/
def denoteElems : List (CrdtArrayElem CrdtValue) → Bytes → DocTree CrdtValue
  | [], _ => .absent
  | ⟨tag, v, _⟩ :: es, k => if tag = k then denote v else denoteElems es k

/-- The child of each key. -/
def denoteFields : List (Bytes × CrdtValue) → Bytes → DocTree CrdtValue
  | [], _ => .absent
  | (key, v) :: fs, k => if key = k then denote v else denoteFields fs k
end

lemma denoteElems_eq (elems : List (CrdtArrayElem CrdtValue)) (k : Bytes) :
    denoteElems elems k =
      ((lookup CrdtArrayElem.tag k elems).map fun e => denote e.value).getD .absent := by
  induction elems with
  | nil => rfl
  | cons e es ih =>
    rw [denoteElems, lookup_cons, ih]
    split_ifs <;> rfl

lemma denoteFields_eq (fields : List (Bytes × CrdtValue)) (k : Bytes) :
    denoteFields fields k = ((lookup Prod.fst k fields).map fun f => denote f.2).getD .absent := by
  induction fields with
  | nil => rfl
  | cons f fs ih =>
    rw [denoteFields, lookup_cons, ih]
    split_ifs <;> rfl

/-- A scalar or a tombstone: decided by its stamp as a whole. -/
def IsLeaf : CrdtValue → Prop
  | .scalar _ _ _ => True
  | .array _ d _ => d = true
  | .object _ d _ => d = true

lemma denote_of_isLeaf (h : v.IsLeaf) : v.denote = .leaf v.ts v.canon := by
  cases v with
  | scalar ts d s => rfl
  | array ts d elems => exact if_pos h
  | object ts d fields => exact if_pos h

lemma denote_array (t : HLCTimestamp) :
    denote (.array t false elems) = .node t .array (deadTag elems) (denoteElems elems) := rfl

lemma denote_object (t : HLCTimestamp) :
    denote (.object t false fields) = .node t .object (fun _ => false) (denoteFields fields) := rfl

/-- The three shapes of a document: a leaf, a live array, a live object. -/
lemma shape_cases (v : CrdtValue) : v.IsLeaf ∨ (∃ t elems, v = .array t false elems) ∨
    ∃ t fields, v = .object t false fields := by
  cases v with
  | scalar ts d s => exact Or.inl trivial
  | array ts d elems =>
    cases d with
    | true => exact Or.inl rfl
    | false => exact Or.inr (Or.inl ⟨ts, elems, rfl⟩)
  | object ts d fields =>
    cases d with
    | true => exact Or.inl rfl
    | false => exact Or.inr (Or.inr ⟨ts, fields, rfl⟩)

@[simp] lemma stamp_denote (v : CrdtValue) : v.denote.stamp = v.ts := by
  rcases v.shape_cases with h | ⟨t, elems, rfl⟩ | ⟨t, fields, rfl⟩
  · rw [denote_of_isLeaf h]
    rfl
  · rfl
  · rfl

lemma denote_ne_absent (v : CrdtValue) : v.denote ≠ .absent := by
  intro h
  have hs := v.stamp_denote
  rw [h] at hs
  exact WithBot.bot_ne_coe hs

/-! ## The two readings lose the same information -/

variable {k : Bytes}

/-- What the child of a key says about the field of that key. -/
lemma denoteFields_eq_denote_iff {t} (ht : t ≠ .absent) :
    denoteFields fields k = t ↔ ∃ f, lookup Prod.fst k fields = some f ∧ denote f.2 = t := by
  rw [denoteFields_eq]
  cases lookup Prod.fst k fields with
  | none => simpa using ht.symm
  | some f => simp

lemma denoteFields_eq_absent_iff :
    denoteFields fields k = .absent ↔ lookup Prod.fst k fields = none := by
  rw [denoteFields_eq]
  cases lookup Prod.fst k fields with
  | none => simp
  | some f => simpa using denote_ne_absent f.2

lemma denoteElems_eq_denote_iff {t} (ht : t ≠ .absent) :
    denoteElems elems k = t ↔
      ∃ e, lookup CrdtArrayElem.tag k elems = some e ∧ denote e.value = t := by
  rw [denoteElems_eq]
  cases lookup CrdtArrayElem.tag k elems with
  | none => simpa using ht.symm
  | some e => simp

lemma denoteElems_eq_absent_iff :
    denoteElems elems k = .absent ↔ lookup CrdtArrayElem.tag k elems = none := by
  rw [denoteElems_eq]
  cases lookup CrdtArrayElem.tag k elems with
  | none => simp
  | some e => simpa using denote_ne_absent e.value

lemma sortBy_canonFields_congr {fs gs : List (Bytes × CrdtValue)} (hf : Distinct Prod.fst fs)
    (hg : Distinct Prod.fst gs) (hd : denoteFields fs = denoteFields gs)
    (hc : ∀ f ∈ fs, ∀ g ∈ gs, denote f.2 = denote g.2 → f.2.canon = g.2.canon) :
    sortBy Prod.fst (canonFields fs) = sortBy Prod.fst (canonFields gs) := by
  refine sortBy_congr (distinct_canonFields.mpr hf) (distinct_canonFields.mpr hg) fun k => ?_
  rw [lookup_canonFields, lookup_canonFields]
  have hk := congrFun hd k
  cases hfk : lookup Prod.fst k fs with
  | none =>
    rw [denoteFields_eq_absent_iff.mpr hfk] at hk
    rw [denoteFields_eq_absent_iff.mp hk.symm]
  | some f =>
    rw [(denoteFields_eq_denote_iff (denote_ne_absent f.2)).mpr ⟨f, hfk, rfl⟩] at hk
    obtain ⟨g, hgk, hgd⟩ := (denoteFields_eq_denote_iff (denote_ne_absent f.2)).mp hk.symm
    have hcanon := hc f (mem_of_lookup hfk) g (mem_of_lookup hgk) hgd.symm
    have hkey : f.1 = g.1 := (key_of_lookup hfk).trans (key_of_lookup hgk).symm
    simp only [hgk, Option.map_some, canonField, hkey, hcanon]

lemma sortBy_canonElems_congr {es gs : List (CrdtArrayElem CrdtValue)}
    (he : Distinct CrdtArrayElem.tag es) (hg : Distinct CrdtArrayElem.tag gs)
    (hdead : deadTag es = deadTag gs) (hd : denoteElems es = denoteElems gs)
    (hc : ∀ e ∈ es, ∀ g ∈ gs, denote e.value = denote g.value → e.value.canon = g.value.canon) :
    sortBy CrdtArrayElem.tag (canonElems es) = sortBy CrdtArrayElem.tag (canonElems gs) := by
  refine sortBy_congr (distinct_canonElems.mpr he) (distinct_canonElems.mpr hg) fun k => ?_
  rw [lookup_canonElems, lookup_canonElems]
  have hk := congrFun hd k
  have hdk := congrFun hdead k
  cases hek : lookup CrdtArrayElem.tag k es with
  | none =>
    rw [denoteElems_eq_absent_iff.mpr hek] at hk
    rw [denoteElems_eq_absent_iff.mp hk.symm]
  | some e =>
    rw [(denoteElems_eq_denote_iff (denote_ne_absent e.value)).mpr ⟨e, hek, rfl⟩] at hk
    obtain ⟨g, hgk, hgd⟩ := (denoteElems_eq_denote_iff (denote_ne_absent e.value)).mp hk.symm
    have hcanon := hc e (mem_of_lookup hek) g (mem_of_lookup hgk) hgd.symm
    have htag : e.tag = g.tag := (key_of_lookup hek).trans (key_of_lookup hgk).symm
    have hflag : e.tombstone = g.tombstone := by simpa [deadTag, hek, hgk] using hdk
    simp only [hgk, Option.map_some, canonElem, htag, hcanon, hflag]

variable {s : HLCTimestamp}

lemma isLeaf_of_denote {x : CrdtValue} (h : v.denote = .leaf s x) : v.IsLeaf := by
  rcases v.shape_cases with hl | ⟨t, elems, rfl⟩ | ⟨t, fields, rfl⟩
  · exact hl
  · cases h
  · cases h

lemma eq_array_of_denote {dead child} (h : v.denote = .node s .array dead child) :
    ∃ elems, v = .array s false elems ∧
      deadTag elems = dead ∧ denoteElems elems = child := by
  rcases v.shape_cases with hl | ⟨t, elems, rfl⟩ | ⟨t, fields, rfl⟩
  · rw [denote_of_isLeaf hl] at h
    cases h
  · obtain ⟨rfl, -, hdead, hchild⟩ := LwwTree.node.inj h
    exact ⟨elems, rfl, hdead, hchild⟩
  · cases h

lemma eq_object_of_denote {dead child} (h : v.denote = .node s .object dead child) :
    ∃ fields, v = .object s false fields ∧
      denoteFields fields = child := by
  rcases v.shape_cases with hl | ⟨t, elems, rfl⟩ | ⟨t, fields, rfl⟩
  · rw [denote_of_isLeaf hl] at h
    cases h
  · cases h
  · obtain ⟨rfl, -, -, hchild⟩ := LwwTree.node.inj h
    exact ⟨fields, rfl, hchild⟩

variable {a b : CrdtValue}

lemma canon_eq_of_isLeaf (ha : a.IsLeaf) (h : a.denote = b.denote) :
    a.canon = b.canon := by
  rw [denote_of_isLeaf ha] at h
  rw [denote_of_isLeaf (isLeaf_of_denote h.symm)] at h
  exact (LwwTree.leaf.inj h).2

/-- Well-formed documents with one abstract tree have one canonical form. -/
lemma canon_eq_of_denote_eq (ha : a.WellFormed) (hb : b.WellFormed) (h : a.denote = b.denote) :
    a.canon = b.canon := by
  induction a generalizing b with
  | scalar ts d s => exact canon_eq_of_isLeaf trivial h
  | array ts d elems ih =>
    cases d with
    | true => exact canon_eq_of_isLeaf rfl h
    | false =>
      obtain ⟨gs, rfl, hdead, hchild⟩ := eq_array_of_denote h.symm
      rw [wellFormed_array] at ha hb
      rw [canon, canon, sortBy_canonElems_congr ha.1 hb.1 hdead.symm hchild.symm
        fun e he g hg hd => ih e he (ha.2 e he) (hb.2 g hg) hd]
  | object ts d fields ih =>
    cases d with
    | true => exact canon_eq_of_isLeaf rfl h
    | false =>
      obtain ⟨gs, rfl, hchild⟩ := eq_object_of_denote h.symm
      rw [wellFormed_object] at ha hb
      rw [canon, canon, sortBy_canonFields_congr ha.1 hb.1 hchild.symm
        fun f hf g hg hd => ih f hf (ha.2 f hf) (hb.2 g hg) hd]

/-- Sorting twice changes nothing more. -/
lemma canon_canon : v.canon.canon = v.canon := by
  induction v with
  | scalar ts d s => rfl
  | array ts d elems ih =>
    have hmap : (canonElems elems).map canonElem = canonElems elems := by
      rw [canonElems_eq, map_map]
      refine map_congr_left fun e he => ?_
      simp only [Function.comp_apply, canonElem, ih e he]
    have hsort : (sortBy CrdtArrayElem.tag (canonElems elems)).map canonElem =
        sortBy CrdtArrayElem.tag ((canonElems elems).map canonElem) := map_sortBy (fun _ => by rfl) _
    simp only [canon, canonElems_eq (sortBy _ _), hsort, hmap, sortBy_sortBy]
  | object ts d fields ih =>
    have hmap : (canonFields fields).map canonField = canonFields fields := by
      rw [canonFields_eq, map_map]
      refine map_congr_left fun f hf => ?_
      simp only [Function.comp_apply, canonField, ih f hf]
    have hsort : (sortBy Prod.fst (canonFields fields)).map canonField =
        sortBy Prod.fst ((canonFields fields).map canonField) := map_sortBy (fun _ => by rfl) _
    simp only [canon, canonFields_eq (sortBy _ _), hsort, hmap, sortBy_sortBy]

/-- The canonical form of a well-formed document has the same abstract tree. -/
lemma denote_canon (h : v.WellFormed) : v.canon.denote = v.denote := by
  induction v with
  | scalar ts d s => rfl
  | array ts d elems ih =>
    cases d with
    | true =>
      rw [denote_of_isLeaf (v := .array ts true elems) rfl,
        denote_of_isLeaf (v := canon (.array ts true elems)) rfl, canon_canon, ts_canon]
    | false =>
      rw [wellFormed_array] at h
      have hd := distinct_canonElems.mpr h.1
      rw [canon, denote_array]
      congr 1
      · funext k
        rw [deadTag, lookup_sortBy hd, lookup_canonElems, Option.map_map]
        rfl
      · funext k
        rw [denoteElems_eq, lookup_sortBy hd, lookup_canonElems, denoteElems_eq, Option.map_map]
        congr 1
        refine Option.map_congr fun e he => ?_
        exact ih e (mem_of_lookup he) (h.2 e (mem_of_lookup he))
  | object ts d fields ih =>
    cases d with
    | true =>
      rw [denote_of_isLeaf (v := .object ts true fields) rfl,
        denote_of_isLeaf (v := canon (.object ts true fields)) rfl, canon_canon, ts_canon]
    | false =>
      rw [wellFormed_object] at h
      have hd := distinct_canonFields.mpr h.1
      rw [canon, denote_object]
      congr 1
      funext k
      rw [denoteFields_eq, lookup_sortBy hd, lookup_canonFields, denoteFields_eq, Option.map_map]
      congr 1
      refine Option.map_congr fun f hf => ?_
      exact ih f (mem_of_lookup hf) (h.2 f (mem_of_lookup hf))

/-- On well-formed documents, the canonical form and the abstract tree determine each other. -/
lemma canon_eq_iff (ha : a.WellFormed) (hb : b.WellFormed) :
    a.canon = b.canon ↔ a.denote = b.denote := by
  refine ⟨fun h => ?_, canon_eq_of_denote_eq ha hb⟩
  rw [← denote_canon ha, ← denote_canon hb, h]

/-! ## Merge refines the abstract merge -/

/-- The row of two fields of one key in the join of `Merge`. -/
def mergeField (a b : Bytes × CrdtValue) : Bytes × CrdtValue := (a.1, merge a.2 b.2)

/-- The row of two elements of one tag in the join of `Merge`. -/
def mergeElem (a b : CrdtArrayElem CrdtValue) : CrdtArrayElem CrdtValue :=
  ⟨a.tag, merge a.value b.value, a.tombstone || b.tombstone⟩

lemma key_mergeField (a b : Bytes × CrdtValue) : (mergeField a b).1 = a.1 := rfl

lemma tag_mergeElem (a b : CrdtArrayElem CrdtValue) : (mergeElem a b).tag = a.tag := rfl

lemma mergeFields_eq (fa bmap : List (Bytes × CrdtValue)) :
    mergeFields fa bmap = joinLoop Prod.fst mergeField fa bmap := by
  induction fa generalizing bmap with
  | nil => rfl
  | cons f fa ih =>
    obtain ⟨k, av⟩ := f
    rw [mergeFields, joinLoop]
    cases lookup Prod.fst k bmap <;> simp [ih, mergeField]

lemma mergeElems_eq (ea bmap : List (CrdtArrayElem CrdtValue)) :
    mergeElems ea bmap = joinLoop CrdtArrayElem.tag mergeElem ea bmap := by
  induction ea generalizing bmap with
  | nil => rfl
  | cons e ea ih =>
    obtain ⟨tag, av, ad⟩ := e
    rw [mergeElems, joinLoop]
    cases lookup CrdtArrayElem.tag tag bmap <;> simp [ih, mergeElem]

lemma ite_gt_eq_max (s t : HLCTimestamp) : (if t > s then t else s) = max s t := by
  rcases lt_or_ge s t with h | h
  · rw [if_pos h, max_eq_right h.le]
  · rw [if_neg (not_lt.mpr h), max_eq_left h]

lemma merge_object (ta tb : HLCTimestamp) (fa fb : List (Bytes × CrdtValue)) :
    merge (.object ta false fa) (.object tb false fb) =
      .object (max ta tb) false (join Prod.fst mergeField fa fb) := by
  rw [merge]
  simp only [tombstone, Bool.or_self, Bool.false_eq_true, if_false, ite_gt_eq_max,
    mergeFields_eq, join]

lemma merge_array (ta tb : HLCTimestamp) (ea eb : List (CrdtArrayElem CrdtValue)) :
    merge (.array ta false ea) (.array tb false eb) =
      .array (max ta tb) false (join CrdtArrayElem.tag mergeElem ea eb) := by
  rw [merge]
  simp only [tombstone, Bool.or_self, Bool.false_eq_true, if_false, ite_gt_eq_max,
    mergeElems_eq, join]

/-- Two live objects or two live arrays. -/
def SameContainer : CrdtValue → CrdtValue → Prop
  | .array _ d _, .array _ d' _ => d = false ∧ d' = false
  | .object _ d _, .object _ d' _ => d = false ∧ d' = false
  | _, _ => False

instance : DecidableRel SameContainer := fun a b => by
  cases a <;> cases b <;> unfold SameContainer <;> infer_instance

/-- Induction over two documents the way `Merge` walks them. -/
@[elab_as_elim]
theorem merge_induction {P : CrdtValue → CrdtValue → Prop}
    (whole : ∀ a b, ¬ SameContainer a b → P a b)
    (array : ∀ ta tb ea eb, (∀ e ∈ ea, ∀ v, P e.value v) →
      P (.array ta false ea) (.array tb false eb))
    (object : ∀ ta tb fa fb, (∀ f ∈ fa, ∀ v, P f.2 v) →
      P (.object ta false fa) (.object tb false fb)) (a b : CrdtValue) : P a b := by
  induction a generalizing b with
  | scalar ts d s => exact whole _ _ (by cases b <;> exact fun h => h)
  | array ta d ea ih =>
    by_cases hc : SameContainer (.array ta d ea) b
    · cases b with
      | scalar tb d' s => exact False.elim hc
      | object tb d' fb => exact False.elim hc
      | array tb d' eb =>
        obtain ⟨rfl, rfl⟩ := hc
        exact array ta tb ea eb ih
    · exact whole _ _ hc
  | object ta d fa ih =>
    by_cases hc : SameContainer (.object ta d fa) b
    · cases b with
      | scalar tb d' s => exact False.elim hc
      | array tb d' eb => exact False.elim hc
      | object tb d' fb =>
        obtain ⟨rfl, rfl⟩ := hc
        exact object ta tb fa fb ih
    · exact whole _ _ hc

/-- Outside two containers of one kind, `Merge` is whole-node last-writer-wins. -/
lemma merge_of_not_sameContainer (h : ¬ SameContainer a b) :
    merge a b = later a b := by
  unfold merge
  by_cases hd : a.tombstone || b.tombstone
  · rw [if_pos hd]
  · rw [if_neg hd]
    simp only [Bool.or_eq_true, not_or, Bool.not_eq_true] at hd
    cases a <;> cases b <;> first | rfl | exact absurd hd h

lemma sameKind_denote :
    LwwTree.SameKind a.denote b.denote ↔ SameContainer a b := by
  rcases a.shape_cases with ha | ⟨t, es, rfl⟩ | ⟨t, fs, rfl⟩
  · rw [denote_of_isLeaf ha]
    refine ⟨fun h => False.elim h, fun h => ?_⟩
    cases a <;> cases b <;> simp_all [SameContainer, IsLeaf]
  · rcases b.shape_cases with hb | ⟨t', es', rfl⟩ | ⟨t', fs', rfl⟩
    · rw [denote_of_isLeaf hb]
      refine ⟨fun h => False.elim h, fun h => ?_⟩
      cases b <;> simp_all [SameContainer, IsLeaf]
    · simp [denote_array, LwwTree.SameKind, SameContainer]
    · simp [denote_array, denote_object, LwwTree.SameKind, SameContainer]
  · rcases b.shape_cases with hb | ⟨t', es', rfl⟩ | ⟨t', fs', rfl⟩
    · rw [denote_of_isLeaf hb]
      refine ⟨fun h => False.elim h, fun h => ?_⟩
      cases b <;> simp_all [SameContainer, IsLeaf]
    · simp [denote_array, denote_object, LwwTree.SameKind, SameContainer]
    · simp [denote_object, LwwTree.SameKind, SameContainer]

lemma denote_later : (later a b).denote = LwwTree.newer a.denote b.denote := by
  rcases lt_or_ge a.ts b.ts with h | h
  · rw [later, if_pos h, LwwTree.newer_eq_right (by simpa using h)]
  · rw [later, if_neg (not_lt.mpr h), LwwTree.newer_eq_left (by simpa using h)]

lemma denote_merge_whole (h : ¬ SameContainer a b) :
    (merge a b).denote = LwwTree.merge a.denote b.denote := by
  rw [merge_of_not_sameContainer h, denote_later,
    LwwTree.merge_of_not_sameKind fun hk => h (sameKind_denote.mp hk)]

lemma denote_join_fields {fa fb : List (Bytes × CrdtValue)} (ha : Distinct Prod.fst fa)
    (hb : Distinct Prod.fst fb) (h : ∀ f ∈ fa, ∀ g ∈ fb,
      (merge f.2 g.2).denote = LwwTree.merge f.2.denote g.2.denote) (k : Bytes) :
    denoteFields (join Prod.fst mergeField fa fb) k =
      LwwTree.merge (denoteFields fa k) (denoteFields fb k) := by
  rw [denoteFields_eq, lookup_join key_mergeField ha hb, denoteFields_eq, denoteFields_eq]
  cases hf : lookup Prod.fst k fa with
  | none => cases lookup Prod.fst k fb <;> simp
  | some f =>
    cases hg : lookup Prod.fst k fb with
    | none => simp
    | some g => simpa [mergeField] using h f (mem_of_lookup hf) g (mem_of_lookup hg)

variable {ea eb : List (CrdtArrayElem CrdtValue)}

lemma denote_join_elems (ha : Distinct CrdtArrayElem.tag ea) (hb : Distinct CrdtArrayElem.tag eb)
    (h : ∀ e ∈ ea, ∀ g ∈ eb, (merge e.value g.value).denote = LwwTree.merge e.value.denote
      g.value.denote) (k : Bytes) :
    denoteElems (join CrdtArrayElem.tag mergeElem ea eb) k =
      LwwTree.merge (denoteElems ea k) (denoteElems eb k) := by
  rw [denoteElems_eq, lookup_join tag_mergeElem ha hb, denoteElems_eq, denoteElems_eq]
  cases he : lookup CrdtArrayElem.tag k ea with
  | none => cases lookup CrdtArrayElem.tag k eb <;> simp
  | some e =>
    cases hg : lookup CrdtArrayElem.tag k eb with
    | none => simp
    | some g => simpa [mergeElem] using h e (mem_of_lookup he) g (mem_of_lookup hg)

lemma deadTag_join (ha : Distinct CrdtArrayElem.tag ea) (hb : Distinct CrdtArrayElem.tag eb)
    (k : Bytes) :
    deadTag (join CrdtArrayElem.tag mergeElem ea eb) k = (deadTag ea k || deadTag eb k) := by
  rw [deadTag, deadTag, deadTag, lookup_join tag_mergeElem ha hb]
  cases lookup CrdtArrayElem.tag k ea <;> cases lookup CrdtArrayElem.tag k eb <;> simp [mergeElem]

/-- **`Merge` refines the abstract merge** on well-formed documents: hash joins, index erasure
and sorting compute the pointwise merge of the children. -/
theorem denote_merge (ha : a.WellFormed) (hb : b.WellFormed) :
    (merge a b).denote = LwwTree.merge a.denote b.denote := by
  induction a, b using merge_induction with
  | whole a b hc => exact denote_merge_whole hc
  | array ta tb ea eb ih =>
    rw [wellFormed_array] at ha hb
    rw [merge_array, denote_array, denote_array]
    congr 1
    · exact funext fun k => deadTag_join ha.1 hb.1 k
    · exact funext fun k => denote_join_elems ha.1 hb.1
        (fun e he g hg => ih e he g.value (ha.2 e he) (hb.2 g hg)) k
  | object ta tb fa fb ih =>
    rw [wellFormed_object] at ha hb
    rw [merge_object, denote_object]
    congr 1
    exact funext fun k => denote_join_fields ha.1 hb.1
      (fun f hf g hg => ih f hf g.2 (ha.2 f hf) (hb.2 g hg)) k

/-! ## What a merge is made of -/

/-- A property of nodes that passes from two containers to their merge holds throughout the
merge of two documents. -/
lemma All.merge {p : CrdtValue → Prop}
    (harray : ∀ ta tb ea eb, p (.array ta false ea) → p (.array tb false eb) → p (CrdtValue.merge
      (.array ta false ea) (.array tb false eb)))
    (hobject : ∀ ta tb fa fb, p (.object ta false fa) → p (.object tb false fb) → p
      (CrdtValue.merge (.object ta false fa) (.object tb false fb))) (ha : a.All p) (hb : b.All p) :
    (CrdtValue.merge a b).All p := by
  induction a, b using merge_induction with
  | whole a b hc =>
    rw [merge_of_not_sameContainer hc, later]
    split_ifs
    · exact hb
    · exact ha
  | array ta tb ea eb ih =>
    have hroot := harray ta tb ea eb ha.root hb.root
    rw [all_array] at ha hb
    rw [merge_array] at hroot ⊢
    refine all_array.mpr ⟨hroot, fun e he => ?_⟩
    rcases mem_join he with hea | heb | ⟨e, hea, g, hgb, -, rfl⟩
    · exact ha.2 e hea
    · exact hb.2 e heb
    · exact ih e hea g.value (ha.2 e hea) (hb.2 g hgb)
  | object ta tb fa fb ih =>
    have hroot := hobject ta tb fa fb ha.root hb.root
    rw [all_object] at ha hb
    rw [merge_object] at hroot ⊢
    refine all_object.mpr ⟨hroot, fun f hf => ?_⟩
    rcases mem_join hf with hfa | hfb | ⟨f, hfa, g, hgb, -, rfl⟩
    · exact ha.2 f hfa
    · exact hb.2 f hfb
    · exact ih f hfa g.2 (ha.2 f hfa) (hb.2 g hgb)

lemma WellFormed.merge (ha : a.WellFormed) (hb : b.WellFormed) :
    (merge a b).WellFormed := by
  refine All.merge (fun ta tb ea eb hea heb => ?_) (fun ta tb fa fb hfa hfb => ?_) ha hb
  · rw [merge_array]
    exact Distinct.join tag_mergeElem hea heb
  · rw [merge_object]
    exact Distinct.join key_mergeField hfa hfb

end CrdtValue

end DeSentry
