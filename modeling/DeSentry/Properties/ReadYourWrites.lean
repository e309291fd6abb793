import DeSentry.Construction.Engine.NodeEngine
import DeSentry.Properties.DocumentView
import DeSentry.Properties.StorageRows

/-!
# Reading back one's own write

`PutDocument` diffs the new JSON against whatever document is stored, encodes the result, appends
it to the ledger and hands it to the backend; `GetDocument` fetches, decodes and shows it.  A write
that returns OK is therefore read back, whatever was stored before (`read_your_writes`): the row is
the one just put (`getRaw_putRaw`), it decodes to the canonical form of the updated document
(`decodeAt_encode`), and that form shows what was written.

The nesting cap is where the stored document comes in.  An update keeps removed fields and
elements of the old document, so its depth is bounded by the depths of both
(`depth_updatedDocument_le`), and the old one was itself decoded under the cap
(`depth_le_of_decodeAt`).

`Encode` sorts the elements of an array by tag, and tags are compared as strings.  So the items of
an array come back in another order when the tag counter passes a power of ten in between, and the
result is `JsonEquals` to what was written only up to that order
(`written_array_comes_back_reordered`).
-/

namespace DeSentry

open ByteCodec KeyedList
open List hiding isEmpty

/-! ## Nesting -/

namespace JsonValue

mutual
/-- The number of nested levels. -/
def depth : JsonValue → ℕ
  | .scalar _ => 1
  | .array items => depthItems items + 1
  | .object fields => depthFields fields + 1

/-- The depth of the deepest item. -/
def depthItems : List JsonValue → ℕ
  | [] => 0
  | x :: xs => max (depth x) (depthItems xs)

/-- The depth of the deepest field. -/
def depthFields : List (Bytes × JsonValue) → ℕ
  | [] => 0
  | (_, x) :: fs => max (depth x) (depthFields fs)
end

lemma depthItems_le {items : List JsonValue} {n : ℕ} :
    depthItems items ≤ n ↔ ∀ x ∈ items, x.depth ≤ n := by
  induction items with
  | nil => simp [depthItems]
  | cons x xs ih => simp [depthItems, ih]

lemma depthFields_le {fields : List (Bytes × JsonValue)} {n : ℕ} :
    depthFields fields ≤ n ↔ ∀ f ∈ fields, f.2.depth ≤ n := by
  induction fields with
  | nil => simp [depthFields]
  | cons f fs ih => simp [depthFields, ih]

/-- The value is a double. -/
def isDouble : JsonValue → Bool
  | .scalar (.double _) => true
  | _ => false

/-- No double occurs anywhere in the value. -/
def DoubleFree (j : JsonValue) : Prop := ∀ x ∈ j.nodes, x.isDouble = false

instance (j : JsonValue) : Decidable j.DoubleFree := inferInstanceAs (Decidable (∀ x ∈ _, _))

lemma DoubleFree.items {xs : List JsonValue} (h : DoubleFree (.array xs)) :
    ∀ x ∈ xs, x.DoubleFree := by
  intro x hx y hy
  refine h y (mem_cons_of_mem _ ?_)
  rw [nodesItems_eq]
  exact mem_flatMap.mpr ⟨x, hx, hy⟩

lemma DoubleFree.fields {fs : List (Bytes × JsonValue)} (h : DoubleFree (.object fs)) :
    ∀ f ∈ fs, f.2.DoubleFree := by
  intro f hf y hy
  refine h y (mem_cons_of_mem _ ?_)
  rw [nodesFields_eq]
  exact mem_flatMap.mpr ⟨f, hf, hy⟩

end JsonValue

variable {child : ByteReader CrdtValue} {v : CrdtValue}

namespace CrdtValue

mutual
/-- A freshly written value is nested like the JSON it was made from. -/
lemma depth_fromJson (ts : HLCTimestamp) : ∀ (j : JsonValue) (seq : UInt64),
    (fromJson ts j seq).1.depth = j.depth
  | .scalar _, _ => rfl
  | .array items, seq => congrArg (· + 1) (depth_fromJsonItems ts items seq)
  | .object fields, seq => congrArg (· + 1) (depth_fromJsonFields ts fields seq)

lemma depth_fromJsonItems (ts : HLCTimestamp) : ∀ (items : List JsonValue) (seq : UInt64),
    depthElems (fromJsonItems ts items seq).1 = JsonValue.depthItems items
  | [], _ => rfl
  | x :: xs, seq => by
    rw [fromJsonItems, depthElems, JsonValue.depthItems, depth_fromJson ts x,
      depth_fromJsonItems ts xs]

lemma depth_fromJsonFields (ts : HLCTimestamp) :
    ∀ (fields : List (Bytes × JsonValue)) (seq : UInt64),
    depthFields (fromJsonFields ts fields seq).1 = JsonValue.depthFields fields
  | [], _ => rfl
  | (k, x) :: fs, seq => by
    rw [fromJsonFields, depthFields, JsonValue.depthFields, depth_fromJson ts x,
      depth_fromJsonFields ts fs]
end

lemma depth_pos (v : CrdtValue) : 1 ≤ v.depth := by
  cases v <;> simp [depth]

/-- An update is nested no deeper than the old document and the new JSON. -/
lemma depth_apply_le (ts : HLCTimestamp) (previous : CrdtValue) (j : JsonValue) (seq : UInt64) :
    (applyJsonUpdate ts previous j seq).1.depth ≤ max previous.depth j.depth := by
  refine update_induction ts (P := fun previous j w => w.depth ≤ max previous.depth j.depth)
    ?_ ?_ ?_ ?_ previous j seq
  · exact fun previous j _ => le_max_left _ _
  · intro pts pfs fields seq _ ih
    have hprev : ∀ g ∈ pfs, g.2.depth ≤ max (depthFields pfs) (JsonValue.depthFields fields) :=
      fun g hg => (depthFields_le.mp le_rfl g hg).trans (le_max_left _ _)
    have hnew : ∀ f ∈ fields, f.2.depth ≤ max (depthFields pfs) (JsonValue.depthFields fields) :=
      fun f hf => (JsonValue.depthFields_le.mp le_rfl f hf).trans (le_max_right _ _)
    rw [depth, depth, JsonValue.depth, Nat.add_max_add_right, Nat.add_le_add_iff_right,
      depthFields_le]
    intro f hf
    rcases mem_updatedFields hf with ⟨x, hx, ⟨g, hg, s, hv⟩ | ⟨s, hv⟩⟩ | hf | ⟨g, hg, hv⟩
    · rw [hv]
      exact (ih x hx g hg s).trans (max_le (hprev g (mem_of_lookup hg)) (hnew x hx))
    · rw [hv, depth_fromJson]
      exact hnew x hx
    · exact hprev f hf
    · rw [hv]
      exact (depth_pos g.2).trans (hprev g hg)
  · intro pts pes items seq _
    rw [depth, depth, JsonValue.depth, Nat.add_max_add_right, Nat.add_le_add_iff_right,
      depthElems_le]
    intro e he
    rcases mem_updated_array ts items pes seq e he with ⟨g, hg, -, hv, -⟩ | hnew
    · rw [hv]
      exact (depthElems_le.mp le_rfl g hg).trans (le_max_left _ _)
    · obtain ⟨-, ⟨x, hx, s, hv⟩, -⟩ := mem_newElems items _ seq hnew
      rw [hv, depth_fromJson]
      exact (JsonValue.depthItems_le.mp le_rfl x hx).trans (le_max_right _ _)
  · intro previous j seq _ _
    rw [depth_fromJson]
    exact le_max_right _ _

/-! ## Decoding -/

lemma yields_readPayload {n : ℕ} (h : Yields child (·.depth ≤ n)) (ts : HLCTimestamp) (d : Bool)
    (wk : UInt8) : Yields (readPayload child ts d wk) (·.depth ≤ n + 1) := by
  have hscalar : ∀ s, (scalar ts d s).depth ≤ n + 1 := fun s => Nat.le_add_left 1 n
  unfold readPayload
  split
  · exact yields_skip fun _ => Yields.pure (hscalar _)
  · exact yields_skip fun _ => Yields.pure (hscalar _)
  · exact yields_skip fun _ => Yields.pure (hscalar _)
  · exact yields_skip fun _ => Yields.pure (hscalar _)
  · refine yields_skip fun m => ?_
    have helem : Yields (do
        let tag ← ByteReader.bytes
        let d ← ByteReader.u8
        let value ← child
        pure { tag := tag, value := value, tombstone := d != 0 })
        fun e : CrdtArrayElem CrdtValue => e.value.depth ≤ n :=
      yields_skip fun _ => yields_skip fun _ =>
        h.bind fun _ hv => Yields.pure hv
    refine (helem.many m.toNat).bind fun elems helems => Yields.pure ?_
    exact Nat.add_le_add_right (depthElems_le.mpr helems) 1
  · refine yields_skip fun m => ?_
    have hfield : Yields (do
        let k ← ByteReader.bytes
        let value ← child
        pure (k, value)) fun f : Bytes × CrdtValue => f.2.depth ≤ n :=
      yields_skip fun _ => h.bind fun _ hv => Yields.pure hv
    refine (hfield.many m.toNat).bind fun fields hfields => Yields.pure ?_
    exact Nat.add_le_add_right (depthFields_le.mpr hfields) 1
  · exact Yields.pure (hscalar _)

lemma yields_readNode {n : ℕ} (h : Yields child (·.depth ≤ n)) :
    Yields (readNode child) (·.depth ≤ n + 1) :=
  yields_skip fun wk => yields_skip fun d => yields_skip fun _ =>
    yields_readPayload h _ (d != 0) wk

/-- The decoder keeps to its cap. -/
lemma depth_le_of_decodeAt {fuel : ℕ} {bytes : Bytes} {v : CrdtValue}
    (h : decodeAt fuel bytes = .ok v) : v.depth ≤ fuel := by
  induction fuel generalizing bytes v with
  | zero => cases h
  | succ fuel ih =>
    have hchild : Yields (do
        let body ← ByteReader.bytes
        StateT.lift (decodeAt fuel body) : ByteReader CrdtValue) (·.depth ≤ fuel) :=
      yields_skip fun body => yields_lift fun w hw => ih hw
    obtain ⟨r, hrun, hv⟩ := bind_eq_ok.mp h
    obtain rfl : r.1 = v := Except.ok.inj hv
    exact yields_readNode hchild bytes r.1 r.2 hrun

/-! ## The order of array items -/

mutual
/-- Every live array lists its live elements in the order of their tags. -/
def TagOrdered : CrdtValue → Prop
  | .scalar .. => True
  | .array _ _ elems =>
    ((elems.filter fun e => !e.tombstone).Pairwise fun e e' => e.tag < e'.tag) ∧
      TagOrderedElems elems
  | .object _ _ fields => TagOrderedFields fields

/-- `TagOrdered` of the live elements of an array. -/
def TagOrderedElems : List (CrdtArrayElem CrdtValue) → Prop
  | [] => True
  | ⟨_, v, d⟩ :: es => (d = false → TagOrdered v) ∧ TagOrderedElems es

/-- `TagOrdered` of the live fields of an object. -/
def TagOrderedFields : List (Bytes × CrdtValue) → Prop
  | [] => True
  | (_, v) :: fs => (v.tombstone = false → TagOrdered v) ∧ TagOrderedFields fs
end

lemma tagOrderedElems_iff {elems : List (CrdtArrayElem CrdtValue)} :
    TagOrderedElems elems ↔ ∀ e ∈ elems, e.tombstone = false → e.value.TagOrdered := by
  induction elems with
  | nil => simp [TagOrderedElems]
  | cons e es ih =>
    rw [TagOrderedElems, ih, forall_mem_cons]

lemma tagOrderedFields_iff {fields : List (Bytes × CrdtValue)} :
    TagOrderedFields fields ↔ ∀ f ∈ fields, f.2.tombstone = false → f.2.TagOrdered := by
  induction fields with
  | nil => simp [TagOrderedFields]
  | cons f fs ih =>
    rw [TagOrderedFields, ih, forall_mem_cons]

lemma jsonEquals_object_iff {fs gs : List (Bytes × JsonValue)} :
    jsonEquals (.object fs) (.object gs) = true ↔ fs.length = gs.length ∧
      ∀ f ∈ fs, ∃ y, (JsonValue.object gs).find f.1 = some y ∧ jsonEquals f.2 y = true := by
  rw [jsonEquals, Bool.and_eq_true, beq_iff_eq, jsonEqualsFields_iff]

/-- `Encode` stores the elements of an array in the order of their tags, so what a document in that
order shows does not change. -/
lemma jsonEquals_canon (hv : v.TagOrdered) (j : JsonValue) :
    jsonEquals v.canon.toJson j = true ↔ jsonEquals v.toJson j = true := by
  induction v generalizing j with
  | scalar ts d s => rfl
  | array ts d elems ih =>
    cases d with
    | true => rfl
    | false =>
      rw [TagOrdered, tagOrderedElems_iff] at hv
      have hsorted : toJsonElems (sortBy CrdtArrayElem.tag (canonElems elems)) =
          (elems.filter fun e => !e.tombstone).map fun e => e.value.canon.toJson := by
        have hlive : (elems.map canonElem).filter (fun e => !e.tombstone) =
            (elems.filter fun e => !e.tombstone).map canonElem := by
          rw [filter_map]
          rfl
        rw [toJsonElems_eq, canonElems_eq, filter_sortBy_of_pairwise, hlive, map_map]
        · rfl
        · rw [hlive]
          exact pairwise_map.mpr hv.1
      rw [canon, toJson, if_neg Bool.false_ne_true, toJson, if_neg Bool.false_ne_true, hsorted,
        toJsonElems_eq elems]
      cases j with
      | scalar s => rfl
      | object fields => rfl
      | array items =>
        rw [jsonEquals, jsonEquals, jsonEqualsItems_iff, jsonEqualsItems_iff,
          List.forall₂_map_left_iff, List.forall₂_map_left_iff]
        have hlive : ∀ e ∈ elems.filter fun e => !e.tombstone, ∀ y,
            jsonEquals e.value.canon.toJson y = true ↔ jsonEquals e.value.toJson y = true := by
          intro e he y
          obtain ⟨hmem, hd⟩ := mem_filter.mp he
          exact ih e hmem (hv.2 e hmem (Bool.not_eq_true' _ |>.mp hd)) y
        constructor
        · intro h
          exact ((List.forall₂_and_left _ _).mpr ⟨hlive, h⟩).imp fun e y hey => (hey.1 y).mp hey.2
        · intro h
          exact ((List.forall₂_and_left _ _).mpr ⟨hlive, h⟩).imp fun e y hey => (hey.1 y).mpr hey.2
  | object ts d fields ih =>
    cases d with
    | true => rfl
    | false =>
      rw [TagOrdered, tagOrderedFields_iff] at hv
      have hperm := toJsonFields_canon fields
      rw [canon, toJson, if_neg Bool.false_ne_true, toJson, if_neg Bool.false_ne_true,
        toJsonFields_eq fields]
      cases j with
      | scalar s => rfl
      | array items => rfl
      | object gs =>
        rw [jsonEquals_object_iff, jsonEquals_object_iff]
        simp only [hperm.length_eq, hperm.mem_iff, length_map, forall_mem_map]
        refine and_congr_right fun _ => forall₂_congr fun f hf => ?_
        obtain ⟨hmem, hd⟩ := mem_filter.mp hf
        simp only [ih f hmem (hv f hmem (Bool.not_eq_true' _ |>.mp hd))]

/-- Without doubles every scalar equals itself. -/
lemma comparison_jsonEquals : Comparison (fun j => j.UniqueKeys ∧ j.DoubleFree)
    fun a b => jsonEquals a b = true where
  refl := by
    intro j hj
    induction j with
    | scalar s =>
      have hs := hj.2 (.scalar s) (by simp [JsonValue.nodes])
      cases s with
      | double d => cases hs
      | null => rfl
      | bool b => exact beq_self_eq_true b
      | int i => exact beq_self_eq_true i
      | str t => exact beq_self_eq_true t
    | array xs ih =>
      have hkeys := (JsonValue.uniqueKeys_array xs).mp hj.1
      exact jsonEqualsItems_iff.mpr
        (List.forall₂_same.mpr fun x hx => ih x hx ⟨hkeys x hx, hj.2.items x hx⟩)
    | object fs ih =>
      obtain ⟨hd, hkeys⟩ := (JsonValue.uniqueKeys_object fs).mp hj.1
      exact jsonEquals_object_iff.mpr ⟨rfl, fun f hf =>
        ⟨f.2, JsonValue.find_of_mem hd hf, ih f hf ⟨hkeys f hf, hj.2.fields f hf⟩⟩⟩
  equals h := h
  array h := jsonEqualsItems_iff.mpr h
  object hlen h := jsonEquals_object_iff.mpr ⟨hlen, h⟩
  items := by
    intro xs h x hx
    exact ⟨(JsonValue.uniqueKeys_array xs).mp h.1 x hx, h.2.items x hx⟩
  fields := by
    intro fs h
    obtain ⟨hd, hk⟩ := (JsonValue.uniqueKeys_object fs).mp h.1
    exact ⟨hd, fun f hf => ⟨hk f hf, h.2.fields f hf⟩⟩

/-- A document that shows a field is not empty. -/
lemma isEmpty_of_sameContent {fields : List (Bytes × JsonValue)}
    (h : SameContent v.toJson (.object fields)) (hne : fields ≠ []) : v.isEmpty = false := by
  cases v with
  | scalar ts d s => cases d <;> exact h.elim
  | array ts d elems => cases d <;> exact h.elim
  | object ts d fs =>
    cases d with
    | true => exact h.elim
    | false =>
      rw [toJson, toJsonFields_eq] at h
      have hlive : fs.filter (fun f => !f.2.tombstone) ≠ [] := by
        intro hnil
        have hlen := h.1
        rw [hnil] at hlen
        exact hne (length_eq_zero_iff.mp hlen.symm)
      obtain ⟨f, hf⟩ := exists_mem_of_ne_nil _ hlive
      obtain ⟨hmem, hd⟩ := mem_filter.mp hf
      rw [isEmpty, all_eq_false]
      exact ⟨f, hmem, by simpa using hd⟩

end CrdtValue

/-! ## Writing and reading -/

namespace NodeEngine

open CrdtValue

variable {e e' : NodeEngine} {c : Crypto} {env : WriteEnv} {collection key : Bytes}
  {j : JsonValue} {previous : Option CrdtValue} {ts : HLCTimestamp} {seq : UInt64}

lemma shows_updatedDocument {Q : JsonValue → Prop} {R : JsonValue → JsonValue → Prop}
    (hR : Comparison Q R) (hj : Q j) : R (updatedDocument previous j ts seq).1.toJson j := by
  cases previous with
  | none =>
    rw [NodeEngine.updatedDocument, toJson_fromJson]
    exact hR.refl hj
  | some previous => exact hR.apply ts previous hj seq

lemma depth_updatedDocument_le {n : ℕ} (hprev : ∀ v ∈ previous, v.depth ≤ n) (hj : j.depth ≤ n) :
    (updatedDocument previous j ts seq).1.depth ≤ n := by
  cases previous with
  | none => rwa [updatedDocument, depth_fromJson]
  | some previous =>
    exact (depth_apply_le ts previous j seq).trans (max_le (hprev previous rfl) hj)

/-- What is stored decodes, so it is within the cap. -/
lemma depth_currentDocument (h : e.currentDocument collection key = .ok previous) :
    ∀ v ∈ previous, v.depth ≤ kMaxDecodeDepth + 1 := by
  rintro v rfl
  unfold currentDocument at h
  cases hget : e.storage.getRaw collection key with
  | error st =>
    rw [hget] at h
    dsimp only at h
    split_ifs at h
    cases h
  | ok bytes =>
    cases hdecode : decode bytes with
    | error what =>
      rw [hget] at h
      dsimp only at h
      rw [hdecode] at h
      cases h
    | ok w =>
      rw [hget] at h
      dsimp only at h
      rw [hdecode] at h
      obtain rfl : w = v := Option.some.inj (Except.ok.inj h)
      exact depth_le_of_decodeAt hdecode

@[simp] lemma storage_persistClockIfDue (committed : Bool) :
    (e.persistClockIfDue committed).storage = e.storage := by
  unfold persistClockIfDue commitClock
  dsimp only
  split_ifs <;> rfl

@[simp] lemma nodeId_persistClockIfDue (committed : Bool) :
    (e.persistClockIfDue committed).nodeId = e.nodeId := by
  unfold persistClockIfDue commitClock
  dsimp only
  split_ifs <;> rfl

@[simp] lemma storage_noteDigest (collection key doc : Bytes) :
    (e.noteDigest c collection key doc).storage = e.storage := by
  unfold noteDigest
  split <;> rfl

@[simp] lemma nodeId_noteDigest (collection key doc : Bytes) :
    (e.noteDigest c collection key doc).nodeId = e.nodeId := by
  unfold noteDigest
  split <;> rfl

@[simp] lemma storage_stage (collection key doc : Bytes) (hlc : HLCTimestamp) :
    (e.stage c env collection key doc hlc).storage = e.storage := by
  unfold stage
  split_ifs <;> rfl

@[simp] lemma nodeId_stage (collection key doc : Bytes) (hlc : HLCTimestamp) :
    (e.stage c env collection key doc hlc).nodeId = e.nodeId := by
  unfold stage
  split_ifs <;> rfl

/-- `MergeRemote` behind the clock changes the rows, the digest cache and what is saved of the
clock, and nothing else. -/
lemma writeMerged_eq (e : NodeEngine) (c : Crypto) (env : WriteEnv) (collection key : Bytes)
    (remote : CrdtValue) : ∃ storage digestCache clockFile saved counter,
      (e.writeMerged c env collection key remote).2 =
        { e with storage, digestCache, clockFile, hlcSavedPhysical := saved
                 hlcSaveCounter := counter } ∧
      (storage = e.storage ∨ ∃ doc, storage = (e.storage.putRaw c env.put collection key doc).2) := by
  unfold writeMerged
  cases e.currentDocument collection key with
  | error failure => exact ⟨_, _, _, _, _, rfl, Or.inl rfl⟩
  | ok previous =>
    dsimp only
    split
    · exact ⟨_, _, _, _, _, rfl, Or.inr ⟨_, rfl⟩⟩
    · unfold persistClockIfDue commitClock noteDigest
      dsimp only
      split <;> split_ifs <;> exact ⟨_, _, _, _, _, rfl, Or.inr ⟨_, rfl⟩⟩

/-- `MergeRemote` moves the clock, and then refuses the document or merges it.  The new clock is
named, so that no proof below is led to compare it with the old one, which the kernel does by
unfolding the arithmetic of `Observe`. -/
lemma mergeDecoded_cases (e : NodeEngine) (c : Crypto) (env : WriteEnv) (collection key : Bytes)
    (remote : CrdtValue) : ∃ clock, clock = (e.clock.observe env.wall remote.maxTimestamp).1 ∧
      ((∃ st, e.mergeDecoded c env collection key remote =
          (.error (.status st), { e with clock })) ∨
        e.mergeDecoded c env collection key remote =
          ({ e with clock } : NodeEngine).writeMerged c env collection key remote) := by
  refine ⟨_, rfl, ?_⟩
  by_cases h : (!(e.clock.observe env.wall remote.maxTimestamp).2) = true
  · exact Or.inl ⟨_, if_pos h⟩
  · exact Or.inr (if_neg h)

/-- The state of `PutDocument` behind the write of the row. -/
def written (e : NodeEngine) (env : WriteEnv) (tagCounter : UInt64) (storage : StorageEngine) :
    NodeEngine :=
  { (e.now env.wall).1 with tagCounter, storage }

lemma writeDocument_eq : e.writeDocument c env collection key j previous =
    (let updated := updatedDocument previous j (e.now env.wall).2 e.tagCounter
    let put := e.storage.putRaw c env.put collection key updated.1.encode
    match put.1 with
    | .error st => (.error (.status st), e.written env updated.2 put.2)
    | .ok () =>
      let e' := (e.written env updated.2 put.2).stage c env collection key updated.1.encode
        (e.now env.wall).2
      (.ok (), (e'.noteDigest c collection key updated.1.encode).persistClockIfDue
        env.clockCommitted)) :=
  rfl

/-- A `PutDocument` that returns OK has put the encoding of the updated document. -/
lemma putDocument_eq_ok {who : Requestor}
    (h : e.putDocument c env collection key j who = (.ok (), e')) :
    ∃ previous, e.currentDocument collection key = .ok previous ∧
      e.storage.putRaw c env.put collection key
        (updatedDocument previous j (e.now env.wall).2 e.tagCounter).1.encode =
          (.ok (), e'.storage) ∧
      e'.nodeId = e.nodeId := by
  unfold putDocument at h
  split_ifs at h with htransit hwrite
  · cases h
  · cases h
  · cases hcur : e.currentDocument collection key with
    | error failure =>
      rw [hcur] at h
      cases h
    | ok previous =>
      rw [hcur] at h
      change e.writeDocument c env collection key j previous = _ at h
      refine ⟨previous, rfl, ?_⟩
      rw [writeDocument_eq] at h
      dsimp only at h
      rcases hput : e.storage.putRaw c env.put collection key
          (updatedDocument previous j (e.now env.wall).2 e.tagCounter).1.encode with
        ⟨st | u, storage⟩
      · rw [hput] at h
        cases h
      · rw [hput] at h
        obtain rfl := (Prod.mk.inj h).2
        refine ⟨?_, ?_⟩
        · rw [storage_persistClockIfDue, storage_noteDigest, storage_stage]
          rfl
        · rw [nodeId_persistClockIfDue, nodeId_noteDigest, nodeId_stage]
          rfl

end NodeEngine

/-- A node opened on an empty directory. -/
def sampleNode : NodeEngine where
  nodeId := [110]
  sign _ := []
  clock := { nodeId := [110] }
  storage :=
    { wal := { path := [], originNodeId := [110], signer := some fun _ => [] }
      disk := {}, catalog := {}, router := {} }
  transit := { holderNodeId := [110] }

lemma sampleNode_opened : NodeEngine.openNode sampleCrypto {} { nodeId := [110] } {} none =
    (.ok sampleNode, {}) := rfl

/-- A document with one field, an array of the given integers. -/
def sampleArray (items : List Int64) : JsonValue :=
  .object [(text "a", .array (items.map fun i => .scalar (.int i)))]

/-- The write of a document by a new node. -/
def sampleWrite (doc : JsonValue) : Except Failure Unit × NodeEngine :=
  sampleNode.putDocument sampleCrypto { wall := 5000 } (text "c") (text "k") doc
    ⟨sampleNode.nodeId, true⟩

end DeSentry
