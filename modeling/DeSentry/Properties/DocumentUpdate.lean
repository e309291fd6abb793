import DeSentry.Properties.MergeLaws

/-!
# What an update writes

`ApplyJsonUpdate` keeps what did not change and stamps what did.  This file says, for a write
under the stamp `ts`, which nodes of the result are the previous document's own and which are
new, and that the new tags are new: they are drawn from the tag counter under `ts`, and
`NextTag` is injective in the stamp and the counter (`nextTag_inj`).

`apply_cases` is the inversion lemma for the four ways an update can go and `update_induction`
the induction rule over it, which every later fact about updates uses.  `updateElems` is accounted
for by a permutation (`perm_updated_array`): the elements of the result are the previous elements,
each kept or removed, and the newly created ones.
-/

namespace DeSentry

open ByteCodec KeyedList JsonValue
open List hiding lookup lookup_append lookup_cons lookup_eq_none_iff lookup_nil

namespace JsonValue

mutual
/-- The number of array items at all levels: how many tags `FromJson` draws. -/
def elemCount : JsonValue → ℕ
  | .scalar _ => 0
  | .array items => elemCountItems items
  | .object fields => elemCountFields fields

/-- `elemCount` of the items of an array, the items themselves included. -/
def elemCountItems : List JsonValue → ℕ
  | [] => 0
  | x :: xs => 1 + elemCount x + elemCountItems xs

/-- `elemCount` of the fields of an object. -/
def elemCountFields : List (Bytes × JsonValue) → ℕ
  | [] => 0
  | (_, x) :: fs => elemCount x + elemCountFields fs
end

lemma elemCount_le_of_mem_items {x : JsonValue} {items : List JsonValue} (h : x ∈ items) :
    x.elemCount ≤ elemCountItems items := by
  induction items with
  | nil => exact absurd h not_mem_nil
  | cons y ys ih =>
    rw [elemCountItems]
    rcases mem_cons.mp h with rfl | h
    · omega
    · have := ih h
      omega

lemma elemCount_le_of_mem_fields {f : Bytes × JsonValue} {fields : List (Bytes × JsonValue)}
    (h : f ∈ fields) : f.2.elemCount ≤ elemCountFields fields := by
  induction fields with
  | nil => exact absurd h not_mem_nil
  | cons g gs ih =>
    rw [elemCountFields]
    rcases mem_cons.mp h with rfl | h
    · omega
    · have := ih h
      omega

end JsonValue

namespace CrdtValue

/-! ## Tags -/

/-- A tag determines the stamp and the sequence number it was drawn with. -/
lemma nextTag_inj {s t : HLCTimestamp} {m n : UInt64} (h : nextTag s m = nextTag t n) :
    s = t ∧ m = n := by
  have h35 : (35 : UInt8).toNat < 48 ∨ 57 < (35 : UInt8).toNat := by decide
  have h46 : (46 : UInt8).toNat < 48 ∨ 57 < (46 : UInt8).toNat := by decide
  have h58 : (58 : UInt8).toNat < 48 ∨ 57 < (58 : UInt8).toNat := by decide
  obtain ⟨h, hseq⟩ := append_decimal_inj h35 h
  obtain ⟨h, hlogical⟩ := append_decimal_inj h46 h
  obtain ⟨hnode, hphysical⟩ := append_decimal_inj h58 h
  obtain ⟨sp, sl, sn⟩ := s
  exact ⟨by simp_all [UInt64.toNat_inj, UInt32.toNat_inj], UInt64.toNat_inj.mp hseq⟩

/-- Every element of an array carries a tag drawn under the stamp of its value. -/
def StampedHere : CrdtValue → Prop
  | .array _ _ elems => ∀ e ∈ elems, ∃ seq, e.tag = nextTag e.value.ts seq
  | _ => True

/-- No element of an array carries a tag drawn under `ts`. -/
def FreshHere (ts : HLCTimestamp) : CrdtValue → Prop
  | .array _ _ elems => ∀ e ∈ elems, ∀ seq, e.tag ≠ nextTag ts seq
  | _ => True

/-! ## The four ways an update can go -/

/-- Nothing visible changes. -/
def isNoop (previous : CrdtValue) (newJson : JsonValue) : Bool :=
  !previous.tombstone && jsonEquals previous.toJson newJson

/-- The fields of a diffed object. -/
def updatedFields (ts : HLCTimestamp) (pfs : List (Bytes × CrdtValue))
    (fields : List (Bytes × JsonValue)) (seq : UInt64) : List (Bytes × CrdtValue) :=
  (updateFields ts pfs fields seq).1 ++ removedFields ts (.object fields) pfs

/-- The outer array loop, when nothing is matched yet. -/
def diffElems (ts : HLCTimestamp) (items : List JsonValue) (pes : List (CrdtArrayElem CrdtValue))
    (seq : UInt64) : List (CrdtArrayElem CrdtValue) × List (CrdtArrayElem CrdtValue × Bool) × UInt64 :=
  updateElems ts items (pes.map fun e => (e, false)) seq

/-- The elements of a diffed array. -/
def updatedElems (ts : HLCTimestamp) (items : List JsonValue)
    (pes : List (CrdtArrayElem CrdtValue)) (seq : UInt64) : List (CrdtArrayElem CrdtValue) :=
  (diffElems ts items pes seq).1 ++ removedElems (diffElems ts items pes seq).2.1

/-- Both sides are objects, or both arrays, and the previous one is live. -/
def Diffable : CrdtValue → JsonValue → Prop
  | .object _ false _, .object _ => True
  | .array _ false _, .array _ => True
  | _, _ => False

section Apply

variable {ts : HLCTimestamp} {previous : CrdtValue} {newJson : JsonValue} {seq : UInt64}

lemma apply_of_isNoop (h : isNoop previous newJson = true) :
    applyJsonUpdate ts previous newJson seq = (previous, seq) := by
  unfold applyJsonUpdate
  exact if_pos h

variable {pts : HLCTimestamp}

lemma apply_object {pfs : List (Bytes × CrdtValue)} {fields : List (Bytes × JsonValue)}
    (h : isNoop (.object pts false pfs) (.object fields) = false) :
    applyJsonUpdate ts (.object pts false pfs) (.object fields) seq =
      (.object ts false (updatedFields ts pfs fields seq), (updateFields ts pfs fields seq).2) := by
  exact if_neg (Bool.eq_false_iff.mp h)

lemma apply_array {pes : List (CrdtArrayElem CrdtValue)} {items : List JsonValue}
    (h : isNoop (.array pts false pes) (.array items) = false) :
    applyJsonUpdate ts (.array pts false pes) (.array items) seq =
      (.array ts false (updatedElems ts items pes seq), (diffElems ts items pes seq).2.2) := by
  exact if_neg (Bool.eq_false_iff.mp h)

lemma apply_replace (h : isNoop previous newJson = false) (hd : ¬ Diffable previous newJson) :
    applyJsonUpdate ts previous newJson seq = fromJson ts newJson seq := by
  unfold applyJsonUpdate
  rw [← isNoop, h]
  cases previous with
  | scalar pts d s => rfl
  | array pts d elems =>
    cases d <;> cases newJson <;> first | rfl | exact absurd trivial hd
  | object pts d fields =>
    cases d <;> cases newJson <;> first | rfl | exact absurd trivial hd

/-- **Inversion of an update**: no change, a diff of two objects, a diff of two arrays, or a
replacement by a fresh value. -/
lemma apply_cases (ts : HLCTimestamp) (previous : CrdtValue) (newJson : JsonValue)
    (seq : UInt64) :
    (isNoop previous newJson = true ∧
      applyJsonUpdate ts previous newJson seq = (previous, seq)) ∨
    (∃ pts pfs fields, previous = .object pts false pfs ∧ newJson = .object fields ∧
      isNoop previous newJson = false ∧ applyJsonUpdate ts previous newJson seq =
        (.object ts false (updatedFields ts pfs fields seq),
          (updateFields ts pfs fields seq).2)) ∨
    (∃ pts pes items, previous = .array pts false pes ∧ newJson = .array items ∧
      isNoop previous newJson = false ∧ applyJsonUpdate ts previous newJson seq =
        (.array ts false (updatedElems ts items pes seq), (diffElems ts items pes seq).2.2)) ∨
    (¬ Diffable previous newJson ∧ isNoop previous newJson = false ∧
      applyJsonUpdate ts previous newJson seq = fromJson ts newJson seq) := by
  cases hn : isNoop previous newJson with
  | true => exact Or.inl ⟨rfl, apply_of_isNoop hn⟩
  | false =>
    by_cases hd : Diffable previous newJson
    · cases previous with
      | scalar pts d s => exact False.elim hd
      | array pts d pes =>
        cases d with
        | true => exact False.elim hd
        | false =>
          cases newJson with
          | scalar s => exact False.elim hd
          | object fields => exact False.elim hd
          | array items =>
            exact Or.inr (Or.inr (Or.inl ⟨pts, pes, items, rfl, rfl, rfl, apply_array hn⟩))
      | object pts d pfs =>
        cases d with
        | true => exact False.elim hd
        | false =>
          cases newJson with
          | scalar s => exact False.elim hd
          | array items => exact False.elim hd
          | object fields =>
            exact Or.inr (Or.inl ⟨pts, pfs, fields, rfl, rfl, rfl, apply_object hn⟩)
    · exact Or.inr (Or.inr (Or.inr ⟨hd, rfl, apply_replace hn hd⟩))

/-- **Induction over an update**, one case for each way it can go, with the tag counter; the
fields of a diffed object come with the hypothesis for their own updates. -/
theorem counted_update_induction (ts : HLCTimestamp)
    {P : CrdtValue → JsonValue → UInt64 → CrdtValue × UInt64 → Prop}
    (noop : ∀ previous newJson seq, isNoop previous newJson = true →
      P previous newJson seq (previous, seq))
    (object : ∀ pts pfs fields seq, isNoop (.object pts false pfs) (.object fields) = false →
      (∀ f ∈ fields, ∀ g, lookup Prod.fst f.1 pfs = some g → ∀ s,
        P g.2 f.2 s (applyJsonUpdate ts g.2 f.2 s)) →
      P (.object pts false pfs) (.object fields) seq
        (.object ts false (updatedFields ts pfs fields seq), (updateFields ts pfs fields seq).2))
    (array : ∀ pts pes items seq, isNoop (.array pts false pes) (.array items) = false →
      P (.array pts false pes) (.array items) seq
        (.array ts false (updatedElems ts items pes seq), (diffElems ts items pes seq).2.2))
    (replace : ∀ previous newJson seq, ¬ Diffable previous newJson →
      isNoop previous newJson = false → P previous newJson seq (fromJson ts newJson seq))
    (previous : CrdtValue) (newJson : JsonValue) (seq : UInt64) :
    P previous newJson seq (applyJsonUpdate ts previous newJson seq) := by
  -- Only the fields of an object are updated recursively; the other cases need no hypothesis.
  have hflat : ∀ previous newJson seq, newJson.isObject = false →
      P previous newJson seq (applyJsonUpdate ts previous newJson seq) := by
    intro previous newJson seq hj
    rcases apply_cases ts previous newJson seq with ⟨hn, h⟩ | ⟨pts, pfs, fields, rfl, rfl, -, -⟩ |
      ⟨pts, pes, items, rfl, rfl, hn, h⟩ | ⟨hd, hn, h⟩
    · rw [h]
      exact noop previous newJson seq hn
    · exact absurd hj (by simp [isObject])
    · rw [h]
      exact array pts pes items seq hn
    · rw [h]
      exact replace previous newJson seq hd hn
  induction newJson generalizing previous seq with
  | scalar s => exact hflat previous _ seq rfl
  | array items _ => exact hflat previous _ seq rfl
  | object fields ih =>
    rcases apply_cases ts previous (.object fields) seq with ⟨hn, h⟩ |
      ⟨pts, pfs, fs, rfl, he, hn, h⟩ | ⟨_, _, _, _, he, -, -⟩ | ⟨hd, hn, h⟩
    · rw [h]
      exact noop previous _ seq hn
    · cases he
      rw [h]
      exact object pts pfs fields seq hn fun f hf g _ s => ih f hf g.2 s
    · cases he
    · rw [h]
      exact replace previous _ seq hd hn

/-- Induction over an update, without the tag counter. -/
theorem update_induction (ts : HLCTimestamp) {P : CrdtValue → JsonValue → CrdtValue → Prop}
    (noop : ∀ previous newJson, isNoop previous newJson = true → P previous newJson previous)
    (object : ∀ pts pfs fields seq, isNoop (.object pts false pfs) (.object fields) = false →
      (∀ f ∈ fields, ∀ g, lookup Prod.fst f.1 pfs = some g → ∀ s,
        P g.2 f.2 (applyJsonUpdate ts g.2 f.2 s).1) →
      P (.object pts false pfs) (.object fields)
        (.object ts false (updatedFields ts pfs fields seq)))
    (array : ∀ pts pes items seq, isNoop (.array pts false pes) (.array items) = false →
      P (.array pts false pes) (.array items) (.array ts false (updatedElems ts items pes seq)))
    (replace : ∀ previous newJson seq, ¬ Diffable previous newJson →
      isNoop previous newJson = false → P previous newJson (fromJson ts newJson seq).1)
    (previous : CrdtValue) (newJson : JsonValue) (seq : UInt64) :
    P previous newJson (applyJsonUpdate ts previous newJson seq).1 :=
  counted_update_induction ts (P := fun previous newJson _ r => P previous newJson r.1)
    (fun previous newJson _ => noop previous newJson) object array replace previous newJson seq

end Apply

/-! ## Fields of an update -/

/-- What an update writes for one field of the new object. -/
def updateChild (ts : HLCTimestamp) (previous : List (Bytes × CrdtValue)) (k : Bytes)
    (x : JsonValue) (seq : UInt64) : CrdtValue × UInt64 :=
  match lookup Prod.fst k previous with
  | some f => applyJsonUpdate ts f.2 x seq
  | none => fromJson ts x seq

section Fields

variable {ts : HLCTimestamp} {pfs : List (Bytes × CrdtValue)} {k : Bytes} {seq : UInt64}

variable {x : JsonValue} {f : Bytes × CrdtValue}

lemma updateChild_some (h : lookup Prod.fst k pfs = some f) :
    updateChild ts pfs k x seq = applyJsonUpdate ts f.2 x seq := by
  rw [updateChild, h]

lemma updateChild_none (h : lookup Prod.fst k pfs = none) :
    updateChild ts pfs k x seq = fromJson ts x seq := by
  rw [updateChild, h]

variable {fs : List (Bytes × JsonValue)}

lemma updateFields_cons :
    updateFields ts pfs ((k, x) :: fs) seq =
      ((k, (updateChild ts pfs k x seq).1) ::
        (updateFields ts pfs fs (updateChild ts pfs k x seq).2).1,
       (updateFields ts pfs fs (updateChild ts pfs k x seq).2).2) := by
  rfl

/-- `FromJson` of an object is the update of an empty one. -/
lemma fromJsonFields_eq : fromJsonFields ts fs seq = updateFields ts [] fs seq := by
  induction fs generalizing seq with
  | nil => rfl
  | cons f fs ih =>
    rw [fromJsonFields, updateFields_cons, updateChild_none lookup_nil, ih]

lemma keys_updateFields (ts : HLCTimestamp) (pfs : List (Bytes × CrdtValue))
    (fs : List (Bytes × JsonValue)) (seq : UInt64) :
    (updateFields ts pfs fs seq).1.map Prod.fst = fs.map Prod.fst := by
  induction fs generalizing seq with
  | nil => rfl
  | cons f fs ih => rw [updateFields_cons, map_cons, ih, map_cons]

/-- The field of a key after the first loop: the update of that key's child, at some value of
the tag counter. -/
lemma lookup_updateFields (ts : HLCTimestamp) (pfs : List (Bytes × CrdtValue)) (k : Bytes)
    (fs : List (Bytes × JsonValue)) (seq : UInt64) :
    ∃ s, lookup Prod.fst k (updateFields ts pfs fs seq).1 =
      (lookup Prod.fst k fs).map fun f => (k, (updateChild ts pfs k f.2 s).1) := by
  induction fs generalizing seq with
  | nil => exact ⟨seq, rfl⟩
  | cons f fs ih =>
    rw [updateFields_cons, lookup_cons, lookup_cons]
    by_cases hk : f.1 = k
    · refine ⟨seq, ?_⟩
      rw [if_pos hk, if_pos hk, ← hk]
      rfl
    · obtain ⟨s, hs⟩ := ih (updateChild ts pfs f.1 f.2 seq).2
      refine ⟨s, ?_⟩
      rw [if_neg hk, if_neg hk, hs]

lemma forall_mem_updateFields {P : Bytes × CrdtValue → Prop} {fs : List (Bytes × JsonValue)}
    (h : ∀ f ∈ fs, ∀ s, P (f.1, (updateChild ts pfs f.1 f.2 s).1)) (seq : UInt64) :
    ∀ f ∈ (updateFields ts pfs fs seq).1, P f := by
  induction fs generalizing seq with
  | nil => exact fun f hf => absurd hf not_mem_nil
  | cons f fs ih =>
    exact forall_mem_cons.mpr ⟨h f mem_cons_self seq,
      ih (fun g hg => h g (mem_cons_of_mem f hg)) _⟩

lemma lookup_removedFields (newJson : JsonValue) :
    lookup Prod.fst k (removedFields ts newJson pfs) =
      if newJson.has k then none
      else (lookup Prod.fst k pfs).map fun f =>
        if f.2.tombstone then f else (f.1, makeTombstone ts) := by
  have hkey : ∀ f : Bytes × CrdtValue,
      (if f.2.tombstone then f else (f.1, makeTombstone ts)).1 = f.1 := by
    intro f
    split_ifs <;> rfl
  rw [removedFields, lookup_map fun f _ => hkey f]
  induction pfs with
  | nil => simp
  | cons f fs ih =>
    rw [lookup_cons, filter_cons]
    by_cases hf : f.1 = k
    · subst hf
      cases hh : newJson.has f.1 with
      | true => simpa [hh] using ih
      | false => simp [lookup_cons]
    · cases hh : newJson.has f.1 with
      | true => simpa [hf] using ih
      | false => simpa [hf, lookup_cons] using ih

/-- **Inversion for the fields of a diffed object.**  A key of the new object has its child
updated or created; any other previous key is carried forward when it was gone already and
tombstoned otherwise. -/
lemma updated_object_cases (ts : HLCTimestamp) (pfs : List (Bytes × CrdtValue)) (k : Bytes)
    (fs : List (Bytes × JsonValue)) (seq : UInt64) :
    let field := lookup Prod.fst k (updatedFields ts pfs fs seq)
    (∃ f, lookup Prod.fst k fs = some f ∧ ∃ g, lookup Prod.fst k pfs = some g ∧
      ∃ s, field = some (k, (applyJsonUpdate ts g.2 f.2 s).1)) ∨
    (∃ f, lookup Prod.fst k fs = some f ∧ lookup Prod.fst k pfs = none ∧
      ∃ s, field = some (k, (fromJson ts f.2 s).1)) ∨
    (lookup Prod.fst k fs = none ∧ ∃ g, lookup Prod.fst k pfs = some g ∧
      g.2.tombstone = true ∧ field = some g) ∨
    (lookup Prod.fst k fs = none ∧ ∃ g, lookup Prod.fst k pfs = some g ∧
      g.2.tombstone = false ∧ field = some (k, makeTombstone ts)) ∨
    (lookup Prod.fst k fs = none ∧ lookup Prod.fst k pfs = none ∧ field = none) := by
  intro field
  obtain ⟨s, hs⟩ := lookup_updateFields ts pfs k fs seq
  have hfield : field = (lookup Prod.fst k (updateFields ts pfs fs seq).1).or
      (lookup Prod.fst k (removedFields ts (.object fs) pfs)) := lookup_append
  rw [hs, lookup_removedFields, has, find, fields] at hfield
  cases hf : lookup Prod.fst k fs with
  | some f =>
    rw [hf, Option.map_some] at hfield
    cases hg : lookup Prod.fst k pfs with
    | some g =>
      rw [updateChild_some hg] at hfield
      exact Or.inl ⟨f, rfl, g, rfl, s, hfield⟩
    | none =>
      rw [updateChild_none hg] at hfield
      exact Or.inr (Or.inl ⟨f, rfl, rfl, s, hfield⟩)
  | none =>
    refine Or.inr (Or.inr ?_)
    rw [hf, Option.map_none, Option.none_or, Option.map_none, Option.isSome_none,
      if_neg Bool.false_ne_true] at hfield
    cases hg : lookup Prod.fst k pfs with
    | none => exact Or.inr (Or.inr ⟨rfl, rfl, by rw [hfield, hg, Option.map_none]⟩)
    | some g =>
      rw [hg, Option.map_some, key_of_lookup hg] at hfield
      cases hd : g.2.tombstone with
      | true => exact Or.inl ⟨rfl, g, rfl, hd, by rw [hfield, if_pos hd]⟩
      | false =>
        exact Or.inr (Or.inl ⟨rfl, g, rfl, hd, by rw [hfield, hd, if_neg Bool.false_ne_true]⟩)

/-- A field of a diffed object is updated, new, carried over, or a tombstone. -/
lemma mem_updatedFields (hf : f ∈ updatedFields ts pfs fs seq) :
    (∃ x ∈ fs, (∃ g, lookup Prod.fst x.1 pfs = some g ∧
        ∃ s, f.2 = (applyJsonUpdate ts g.2 x.2 s).1) ∨ ∃ s, f.2 = (fromJson ts x.2 s).1) ∨
      f ∈ pfs ∨ ∃ g ∈ pfs, f.2 = makeTombstone ts := by
  rcases mem_append.mp hf with hf | hf
  · left
    refine forall_mem_updateFields (P := fun f => ∃ x ∈ fs, (∃ g, lookup Prod.fst x.1 pfs = some g ∧
      ∃ s, f.2 = (applyJsonUpdate ts g.2 x.2 s).1) ∨ ∃ s, f.2 = (fromJson ts x.2 s).1)
      (fun x hx s => ⟨x, hx, ?_⟩) seq f hf
    cases hg : lookup Prod.fst x.1 pfs with
    | none => exact Or.inr ⟨s, congrArg Prod.fst (updateChild_none hg)⟩
    | some g => exact Or.inl ⟨g, rfl, s, congrArg Prod.fst (updateChild_some hg)⟩
  · right
    obtain ⟨g, hg, rfl⟩ := mem_map.mp hf
    split_ifs
    · exact Or.inl (mem_filter.mp hg).1
    · exact Or.inr ⟨g, (mem_filter.mp hg).1, rfl⟩

end Fields

/-! ## Elements of an update -/

section Elems

/-- An element together with whether the update has matched it. -/
abbrev Slot := CrdtArrayElem CrdtValue × Bool

/-- The previous elements the update has matched. -/
def matchedElems (slots : List Slot) : List (CrdtArrayElem CrdtValue) :=
  (slots.filter Prod.snd).map Prod.fst

/-- What becomes of a previous element: kept when matched, removed otherwise. -/
def carry (s : Slot) : CrdtArrayElem CrdtValue :=
  if s.2 then s.1 else { s.1 with tombstone := true }

/-- The elements an array update creates. -/
def newElems (ts : HLCTimestamp) : List JsonValue → List Slot → UInt64 →
    List (CrdtArrayElem CrdtValue)
  | [], _, _ => []
  | x :: xs, slots, seq =>
    match takeMatch x slots with
    | some r => newElems ts xs r.2 seq
    | none =>
      ⟨nextTag ts seq, (fromJson ts x (seq + 1)).1, false⟩ ::
        newElems ts xs slots (fromJson ts x (seq + 1)).2

variable {ts : HLCTimestamp} {x : JsonValue} {xs : List JsonValue} {slots slots' : List Slot}
  {e : CrdtArrayElem CrdtValue} {seq : UInt64}

/-- A match is a live element not matched before that shows the item; it is then marked. -/
lemma takeMatch_eq_some (h : takeMatch x slots = some (e, slots')) :
    e.tombstone = false ∧ jsonEquals e.value.toJson x = true ∧
      ∃ pre post, slots = pre ++ (e, false) :: post ∧ slots' = pre ++ (e, true) :: post := by
  induction slots generalizing slots' with
  | nil => exact absurd h (by simp [takeMatch])
  | cons s rest ih =>
    obtain ⟨g, matched⟩ := s
    rw [takeMatch] at h
    split_ifs at h with hc
    · obtain ⟨rfl, rfl⟩ := h
      simp only [Bool.and_eq_true, Bool.not_eq_true', Bool.or_eq_false_iff] at hc
      obtain ⟨⟨rfl, hd⟩, heq⟩ := hc
      exact ⟨hd, heq, [], rest, rfl, rfl⟩
    · obtain ⟨r, hr, hrs⟩ := Option.map_eq_some_iff.mp h
      obtain ⟨rfl, rfl⟩ := hrs
      obtain ⟨hd, heq, pre, post, hpre, hpost⟩ := ih hr
      exact ⟨hd, heq, (g, matched) :: pre, post, by rw [hpre]; rfl, by rw [hpost]; rfl⟩

lemma perm_matchedElems (h : takeMatch x slots = some (e, slots')) :
    (matchedElems slots').Perm (e :: matchedElems slots) := by
  obtain ⟨-, -, pre, post, rfl, rfl⟩ := takeMatch_eq_some h
  simp only [matchedElems, filter_append, map_append]
  exact perm_middle

/-- The accounting of the outer loop: what it returns is what it has matched on the way and what
it has created. -/
lemma perm_updateElems (ts : HLCTimestamp) (xs : List JsonValue) (slots : List Slot)
    (seq : UInt64) :
    (matchedElems slots ++ (updateElems ts xs slots seq).1).Perm
      (matchedElems (updateElems ts xs slots seq).2.1 ++ newElems ts xs slots seq) := by
  induction xs generalizing slots seq with
  | nil => exact List.Perm.refl _
  | cons x xs ih =>
    rw [updateElems, newElems]
    cases hm : takeMatch x slots with
    | some r =>
      exact perm_middle.trans
        (((perm_matchedElems hm).symm.append_right _).trans (ih r.2 seq))
    | none =>
      exact perm_middle.trans (((ih slots _).cons _).trans perm_middle.symm)

/-- The loop keeps the slots in place and only marks live elements. -/
lemma slots_updateElems (ts : HLCTimestamp) (xs : List JsonValue) (slots : List Slot)
    (seq : UInt64) (hlive : ∀ s ∈ slots, s.2 = true → s.1.tombstone = false) :
    (updateElems ts xs slots seq).2.1.map Prod.fst = slots.map Prod.fst ∧
      ∀ s ∈ (updateElems ts xs slots seq).2.1, s.2 = true → s.1.tombstone = false := by
  induction xs generalizing slots seq with
  | nil => exact ⟨rfl, hlive⟩
  | cons x xs ih =>
    rw [updateElems]
    cases hm : takeMatch x slots with
    | none => exact ih slots _ hlive
    | some r =>
      obtain ⟨e, slots'⟩ := r
      obtain ⟨hd, -, pre, post, rfl, rfl⟩ := takeMatch_eq_some hm
      have hlive' : ∀ s ∈ pre ++ (e, true) :: post, s.2 = true → s.1.tombstone = false := by
        intro s hs
        rcases mem_append.mp hs with hs | hs
        · exact hlive s (mem_append_left _ hs)
        · rcases mem_cons.mp hs with rfl | hs
          · exact fun _ => hd
          · exact hlive s (mem_append_right _ (mem_cons_of_mem _ hs))
      obtain ⟨hfst, hflag⟩ := ih (pre ++ (e, true) :: post) seq hlive'
      refine ⟨hfst.trans ?_, hflag⟩
      simp

lemma perm_carry (slots : List Slot) :
    (matchedElems slots ++ removedElems slots).Perm (slots.map carry) := by
  induction slots with
  | nil => exact List.Perm.refl _
  | cons s slots ih =>
    obtain ⟨e, matched⟩ := s
    cases matched with
    | true => exact ih.cons e
    | false => exact perm_middle.trans (ih.cons _)

/-- **The elements of an updated array**: the previous ones, each kept or removed, and the newly
created ones.  Only live elements are kept. -/
lemma perm_updated_array (ts : HLCTimestamp) (items : List JsonValue)
    (pes : List (CrdtArrayElem CrdtValue)) (seq : UInt64) :
    ∃ slots : List Slot, slots.map Prod.fst = pes ∧
      (∀ s ∈ slots, s.2 = true → s.1.tombstone = false) ∧
      (updatedElems ts items pes seq).Perm
        (slots.map carry ++ newElems ts items (pes.map fun e => (e, false)) seq) := by
  have hnone : matchedElems (pes.map fun e => (e, false)) = [] := by
    simp [matchedElems, filter_map]
  have hslots := slots_updateElems ts items (pes.map fun e => (e, false)) seq (by simp)
  have hperm := perm_updateElems ts items (pes.map fun e => (e, false)) seq
  rw [hnone] at hperm
  refine ⟨(diffElems ts items pes seq).2.1, ?_, hslots.2, ?_⟩
  · rw [diffElems, hslots.1, map_map]
    exact map_id pes
  · refine (hperm.append_right _).trans ?_
    rw [append_assoc]
    refine (perm_append_comm.append_left _).trans ?_
    rw [← append_assoc]
    exact (perm_carry _).append_right _

lemma tag_carry (s : Slot) : (carry s).tag = s.1.tag := by
  rw [carry]
  split_ifs <;> rfl

lemma value_carry (s : Slot) : (carry s).value = s.1.value := by
  rw [carry]
  split_ifs <;> rfl

/-- Removal is never undone. -/
lemma tombstone_carry {s : Slot} (h : s.2 = true → s.1.tombstone = false)
    (hd : s.1.tombstone = true) : (carry s).tombstone = true := by
  cases hm : s.2 with
  | true => exact absurd hd (by rw [h hm]; exact Bool.false_ne_true)
  | false => rw [carry, hm]; rfl

/-- An element of an updated array is a previous one, removed if it was removed before, or a
newly created one. -/
lemma mem_updated_array (ts : HLCTimestamp) (items : List JsonValue)
    (pes : List (CrdtArrayElem CrdtValue)) (seq : UInt64) :
    ∀ e ∈ updatedElems ts items pes seq, (∃ g ∈ pes, e.tag = g.tag ∧ e.value = g.value ∧
        (g.tombstone = true → e.tombstone = true)) ∨
      e ∈ newElems ts items (pes.map fun e => (e, false)) seq := by
  intro e he
  obtain ⟨slots, hpes, hlive, hperm⟩ := perm_updated_array ts items pes seq
  rcases mem_append.mp (hperm.mem_iff.mp he) with he | he
  · obtain ⟨s, hs, rfl⟩ := mem_map.mp he
    exact Or.inl ⟨s.1, hpes ▸ mem_map_of_mem hs, tag_carry s, value_carry s,
      tombstone_carry (hlive s hs)⟩
  · exact Or.inr he

/-- Every previous element is carried into the updated array. -/
lemma exists_updated_array {pes : List (CrdtArrayElem CrdtValue)} {g : CrdtArrayElem CrdtValue}
    (hg : g ∈ pes) (ts : HLCTimestamp) (items : List JsonValue) (seq : UInt64) :
    ∃ e ∈ updatedElems ts items pes seq, e.tag = g.tag ∧ e.value = g.value ∧ (g.tombstone = true → e.tombstone = true) := by
  obtain ⟨slots, hpes, hlive, hperm⟩ := perm_updated_array ts items pes seq
  rw [← hpes] at hg
  obtain ⟨s, hs, rfl⟩ := mem_map.mp hg
  exact ⟨carry s, hperm.mem_iff.mpr (mem_append_left _ (mem_map_of_mem hs)),
    tag_carry s, value_carry s, tombstone_carry (hlive s hs)⟩

/-! ## The tag counter -/

mutual
/-- `FromJson` draws one tag for each array item. -/
lemma seq_fromJson (ts : HLCTimestamp) : ∀ (j : JsonValue) (seq : UInt64),
    (fromJson ts j seq).2 = seq + UInt64.ofNat j.elemCount
  | .scalar s, seq => by simp [fromJson, elemCount]
  | .array items, seq => seq_fromJsonItems ts items seq
  | .object fields, seq => seq_fromJsonFields ts fields seq

lemma seq_fromJsonItems (ts : HLCTimestamp) : ∀ (items : List JsonValue) (seq : UInt64),
    (fromJsonItems ts items seq).2 = seq + UInt64.ofNat (elemCountItems items)
  | [], seq => by simp [fromJsonItems, elemCountItems]
  | x :: xs, seq => by
    rw [fromJsonItems, seq_fromJsonItems ts xs, seq_fromJson ts x, elemCountItems,
      UInt64.ofNat_add, UInt64.ofNat_add]
    simp only [UInt64.add_assoc]
    rfl

lemma seq_fromJsonFields (ts : HLCTimestamp) :
    ∀ (fields : List (Bytes × JsonValue)) (seq : UInt64),
    (fromJsonFields ts fields seq).2 = seq + UInt64.ofNat (elemCountFields fields)
  | [], seq => by simp [fromJsonFields, elemCountFields]
  | (_, x) :: fs, seq => by
    rw [fromJsonFields, seq_fromJsonFields ts fs, seq_fromJson ts x, elemCountFields,
      UInt64.ofNat_add, UInt64.add_assoc]
end

/-- `FromJson` of an array creates all its elements. -/
lemma fromJsonItems_eq : (fromJsonItems ts xs seq).1 = newElems ts xs [] seq := by
  induction xs generalizing seq with
  | nil => rfl
  | cons x xs ih =>
    rw [fromJsonItems, newElems, takeMatch, ih]

/-- Created elements are live and hold an item of the new array under the stamp of the write. -/
lemma mem_newElems {e : CrdtArrayElem CrdtValue} (xs : List JsonValue) (slots : List Slot)
    (seq : UInt64) (h : e ∈ newElems ts xs slots seq) :
    e.tombstone = false ∧ (∃ x ∈ xs, ∃ s, e.value = (fromJson ts x s).1) ∧
      ∃ i < elemCountItems xs, e.tag = nextTag ts (seq + UInt64.ofNat i) := by
  induction xs generalizing slots seq with
  | nil => exact absurd h not_mem_nil
  | cons x xs ih =>
    rw [newElems] at h
    rw [elemCountItems]
    cases hm : takeMatch x slots with
    | some r =>
      rw [hm] at h
      obtain ⟨hd, ⟨y, hy, hv⟩, i, hi, ht⟩ := ih r.2 seq h
      exact ⟨hd, ⟨y, mem_cons_of_mem x hy, hv⟩, i, by omega, ht⟩
    | none =>
      rw [hm] at h
      rcases mem_cons.mp h with rfl | h
      · exact ⟨rfl, ⟨x, mem_cons_self, _, rfl⟩, 0, by omega, by simp⟩
      · obtain ⟨hd, ⟨y, hy, hv⟩, i, hi, ht⟩ := ih slots _ h
        refine ⟨hd, ⟨y, mem_cons_of_mem x hy, hv⟩, 1 + x.elemCount + i, by omega, ?_⟩
        rw [ht, seq_fromJson, UInt64.ofNat_add, UInt64.ofNat_add]
        simp only [UInt64.add_assoc]
        rfl

/-- A counter that has moved by less than its range has moved. -/
lemma add_ofNat_ne_self {seq : UInt64} {i : ℕ} (h0 : 0 < i) (hi : i < 2 ^ 64) :
    seq + UInt64.ofNat i ≠ seq := by
  intro h
  have hz : UInt64.ofNat i = 0 := by simpa using h
  have := congrArg UInt64.toNat hz
  rw [UInt64.toNat_ofNat', UInt64.toNat_zero] at this
  omega

/-- While the counter does not wrap within one write, created elements have distinct tags. -/
lemma distinct_newElems (xs : List JsonValue) (slots : List Slot) (seq : UInt64)
    (h : elemCountItems xs ≤ 2 ^ 64) :
    Distinct CrdtArrayElem.tag (newElems ts xs slots seq) := by
  induction xs generalizing slots seq with
  | nil => exact nodup_nil
  | cons x xs ih =>
    rw [elemCountItems] at h
    rw [newElems]
    cases hm : takeMatch x slots with
    | some r => exact ih r.2 seq (by omega)
    | none =>
      refine nodup_cons.mpr ⟨fun hmem => ?_, ih slots _ (by omega)⟩
      obtain ⟨e, he, htag⟩ := mem_map.mp hmem
      obtain ⟨-, -, i, hi, ht⟩ := mem_newElems xs slots _ he
      have hseq := (nextTag_inj (htag.symm.trans ht)).2
      rw [seq_fromJson, UInt64.add_assoc, UInt64.add_assoc, ← UInt64.ofNat_add,
        show (1 : UInt64) = UInt64.ofNat 1 from rfl, ← UInt64.ofNat_add] at hseq
      exact add_ofNat_ne_self (by omega) (by omega) hseq.symm

end Elems

/-! ## What every written document satisfies -/

/-- A node with distinct keys or tags, tags drawn under its elements' stamps, and a stamp in use. -/
def Sound (used : HLCTimestamp → Prop) (x : CrdtValue) : Prop :=
  x.DistinctHere ∧ x.StampedHere ∧ used x.ts

section Sound

variable {used : HLCTimestamp → Prop} {ts : HLCTimestamp} {j : JsonValue} {v : CrdtValue}

lemma All.mono {p q : CrdtValue → Prop} {v : CrdtValue} (h : v.All p) (hpq : ∀ x, p x → q x) :
    v.All q := fun x hx => hpq x (h x hx)

/-- What holds of all nodes holds below each of them. -/
lemma All.all {p : CrdtValue → Prop} {v : CrdtValue} (h : v.All p) : v.All fun x => x.All p := by
  induction v with
  | scalar t d s => exact all_scalar.mpr h
  | array t d elems ih =>
    exact all_array.mpr ⟨h, fun e he => ih e he ((all_array.mp h).2 e he)⟩
  | object t d fields ih =>
    exact all_object.mpr ⟨h, fun f hf => ih f hf ((all_object.mp h).2 f hf)⟩

lemma Sound.mono {p q : HLCTimestamp → Prop} {v : CrdtValue} (h : v.All (Sound p))
    (hpq : ∀ t, p t → q t) : v.All (Sound q) :=
  All.mono h fun _ hx => ⟨hx.1, hx.2.1, hpq _ hx.2.2⟩

lemma wellFormed_of_sound (h : v.All (Sound used)) : v.WellFormed := fun x hx => (h x hx).1

@[simp] lemma ts_fromJson (j : JsonValue) (seq : UInt64) : (fromJson ts j seq).1.ts = ts := by
  cases j <;> rfl

@[simp] lemma tombstone_fromJson (j : JsonValue) (seq : UInt64) :
    (fromJson ts j seq).1.tombstone = false := by
  cases j <;> rfl

/-- `FromJson` of an object, by the update of an empty one. -/
lemma fromJson_object (fields : List (Bytes × JsonValue)) (seq : UInt64) :
    (fromJson ts (.object fields) seq).1 = .object ts false (updateFields ts [] fields seq).1 := by
  rw [fromJson, fromJsonFields_eq]

lemma fromJson_array (items : List JsonValue) (seq : UInt64) :
    (fromJson ts (.array items) seq).1 = .array ts false (newElems ts items [] seq) := by
  rw [fromJson, fromJsonItems_eq]

variable {pfs : List (Bytes × CrdtValue)} {fields : List (Bytes × JsonValue)}

lemma distinct_updateFields (h : Distinct Prod.fst fields) (seq : UInt64) :
    Distinct Prod.fst (updateFields ts pfs fields seq).1 := by
  rw [Distinct, keys_updateFields]
  exact h

lemma distinct_updated_object (hp : Distinct Prod.fst pfs) (hf : Distinct Prod.fst fields)
    (seq : UInt64) :
    Distinct Prod.fst (updatedFields ts pfs fields seq) := by
  refine distinct_append.mpr ⟨distinct_updateFields hf seq, ?_, ?_⟩
  · rw [removedFields, distinct_map fun f _ => by split_ifs <;> rfl]
    exact hp.filter _
  · intro f hfm g hgm he
    have hkey : f.1 ∈ fields.map Prod.fst := by
      rw [← keys_updateFields ts pfs fields seq]
      exact mem_map_of_mem hfm
    obtain ⟨x, hx, hxk⟩ := mem_map.mp hkey
    -- A removed field is one the new object does not have.
    have hnone : lookup Prod.fst g.1 (removedFields ts (.object fields) pfs) = none := by
      rw [lookup_removedFields]
      rw [← he, ← hxk, has, find_of_mem hf hx]
      rfl
    exact lookup_eq_none_iff.mp hnone g hgm rfl

lemma all_sound_fromJson (hts : used ts) (hj : j.UniqueKeys) (hc : j.elemCount ≤ 2 ^ 64)
    (seq : UInt64) : (fromJson ts j seq).1.All (Sound used) := by
  induction j generalizing seq with
  | scalar s => exact all_scalar.mpr ⟨trivial, trivial, hts⟩
  | array items ih =>
    rw [uniqueKeys_array] at hj
    rw [fromJson_array]
    refine all_array.mpr ⟨⟨distinct_newElems items [] seq hc, fun e he => ?_, hts⟩, fun e he => ?_⟩
    · obtain ⟨-, ⟨x, -, s, hv⟩, i, -, ht⟩ := mem_newElems items [] seq he
      exact ⟨_, by rw [hv, ts_fromJson, ht]⟩
    · obtain ⟨-, ⟨x, hx, s, hv⟩, -⟩ := mem_newElems items [] seq he
      rw [hv]
      exact ih x hx (hj x hx) ((elemCount_le_of_mem_items hx).trans hc) s
  | object fields ih =>
    rw [uniqueKeys_object] at hj
    rw [fromJson_object]
    refine all_object.mpr ⟨⟨distinct_updateFields hj.1 seq, trivial, hts⟩, ?_⟩
    refine forall_mem_updateFields (fun f hf s => ?_) seq
    exact ih f hf (hj.2 f hf) ((elemCount_le_of_mem_fields hf).trans hc) s

/-- The elements of an updated array have distinct tags: the previous ones are kept apart by
their own distinctness, the new ones by the counter, and the two groups by their stamps. -/
lemma distinct_updated_array {pes : List (CrdtArrayElem CrdtValue)}
    {items : List JsonValue} (hd : Distinct CrdtArrayElem.tag pes)
    (hfresh : ∀ e ∈ pes, ∀ n, e.tag ≠ nextTag ts n) (hc : elemCountItems items ≤ 2 ^ 64) (seq : UInt64) :
    Distinct CrdtArrayElem.tag (updatedElems ts items pes seq) := by
  obtain ⟨slots, rfl, -, hperm⟩ := perm_updated_array ts items pes seq
  refine Distinct.perm ?_ hperm.symm
  refine distinct_append.mpr ⟨?_, distinct_newElems items _ seq hc, ?_⟩
  · rw [distinct_map fun s _ => tag_carry s]
    rwa [Distinct, map_map] at hd
  · intro x hx y hy he
    obtain ⟨s, hsm, rfl⟩ := mem_map.mp hx
    obtain ⟨-, -, i, -, ht⟩ := mem_newElems items _ seq hy
    rw [tag_carry, ht] at he
    exact hfresh s.1 (mem_map_of_mem hsm) _ he

variable {previous : CrdtValue}

/-- **What holds of every node of an update**, if it holds of the nodes that are kept, of new
values, of tombstones, and of the nodes that are diffed. -/
lemma all_apply {P Q : CrdtValue → Prop} {J : JsonValue → Prop} (keep : ∀ x, Q x → P x)
    (items : ∀ xs, J (.array xs) → ∀ x ∈ xs, J x)
    (fields : ∀ fs, J (.object fs) → ∀ f ∈ fs, J f.2) (gone : P (makeTombstone ts))
    (fresh : ∀ j seq, J j → (fromJson ts j seq).1.All P)
    (object : ∀ pts pfs fs seq, Q (.object pts false pfs) → J (.object fs) →
      P (.object ts false (updatedFields ts pfs fs seq)))
    (array : ∀ pts pes xs seq, Q (.array pts false pes) → J (.array xs) →
      P (.array ts false (updatedElems ts xs pes seq)))
    (hp : previous.All Q) (hj : J j) (seq : UInt64) :
    (applyJsonUpdate ts previous j seq).1.All P := by
  refine update_induction ts (P := fun previous j w => previous.All Q → J j → w.All P)
    ?_ ?_ ?_ ?_ previous j seq hp hj
  · exact fun _ _ _ hp _ => hp.mono keep
  · intro pts pfs fs seq _ ih hp hj
    rw [all_object] at hp
    refine all_object.mpr ⟨object pts pfs fs seq hp.1 hj, fun f hf => ?_⟩
    rcases mem_updatedFields hf with ⟨x, hx, ⟨g, hg, s, hv⟩ | ⟨s, hv⟩⟩ | hf | ⟨-, -, hv⟩
    · rw [hv]
      exact ih x hx g hg s (hp.2 g (mem_of_lookup hg)) (fields fs hj x hx)
    · rw [hv]
      exact fresh x.2 s (fields fs hj x hx)
    · exact (hp.2 f hf).mono keep
    · rw [hv]
      exact all_scalar.mpr gone
  · intro pts pes xs seq _ hp hj
    rw [all_array] at hp
    refine all_array.mpr ⟨array pts pes xs seq hp.1 hj, fun e he => ?_⟩
    rcases mem_updated_array ts xs pes seq e he with ⟨g, hg, -, hv, -⟩ | he
    · rw [hv]
      exact (hp.2 g hg).mono keep
    · obtain ⟨-, ⟨x, hx, s, hv⟩, -⟩ := mem_newElems xs _ seq he
      rw [hv]
      exact fresh x s (items xs hj x hx)
  · exact fun _ j seq _ _ _ hj => fresh j seq hj

/-- JSON with unique keys for which a write draws each tag once. -/
def Writable (j : JsonValue) : Prop := j.UniqueKeys ∧ j.elemCount ≤ 2 ^ 64

lemma Writable.of_mem_items {xs : List JsonValue} (h : Writable (.array xs)) : ∀ x ∈ xs, Writable x :=
  fun x hx => ⟨(uniqueKeys_array xs).mp h.1 x hx, (elemCount_le_of_mem_items hx).trans h.2⟩

lemma Writable.of_mem_fields {fs : List (Bytes × JsonValue)} (h : Writable (.object fs)) :
    ∀ f ∈ fs, Writable f.2 := fun f hf =>
  ⟨((uniqueKeys_object fs).mp h.1).2 f hf, (elemCount_le_of_mem_fields hf).trans h.2⟩

lemma freshHere_of_sound (h : v.All (Sound used)) (hne : v.All fun x => x.ts ≠ ts) :
    v.All (FreshHere ts) := by
  intro x hx
  cases x with
  | scalar t d s => trivial
  | object t d fields => trivial
  | array t d elems =>
    intro e he n htag
    obtain ⟨m, hm⟩ := (h _ hx).2.1 e he
    exact ((all_array.mp (hne.all _ hx)).2 e he).root (nextTag_inj (hm.symm.trans htag)).1

/-- An old element's tag is not one drawn under a later stamp. -/
lemma fresh_of_lt (h : v.All (Sound (· < ts))) : v.All (FreshHere ts) :=
  freshHere_of_sound h (All.mono h fun _ hx => hx.2.2.ne)

lemma all_sound_apply (hts : used ts) (hp : previous.All (Sound used))
    (hfresh : previous.All fun x => x.ts ≠ ts) (hj : j.UniqueKeys) (hc : j.elemCount ≤ 2 ^ 64)
    (seq : UInt64) : (applyJsonUpdate ts previous j seq).1.All (Sound used) := by
  refine all_apply (Q := fun x => Sound used x ∧ FreshHere ts x) (fun _ h => h.1)
    (fun _ => Writable.of_mem_items) (fun _ => Writable.of_mem_fields) ⟨trivial, trivial, hts⟩
    (fun j seq hj => all_sound_fromJson hts hj.1 hj.2 seq) ?_ ?_
    (fun x hx => ⟨hp x hx, freshHere_of_sound hp hfresh x hx⟩) ⟨hj, hc⟩ seq
  · exact fun pts pfs fs seq hp hj =>
      ⟨distinct_updated_object hp.1.1 ((uniqueKeys_object fs).mp hj.1).1 seq, trivial, hts⟩
  · intro pts pes xs seq hp hj
    refine ⟨distinct_updated_array hp.1.1 hp.2 hj.2 seq, fun e he => ?_, hts⟩
    rcases mem_updated_array ts xs pes seq e he with ⟨g, hg, htag, hval, -⟩ | he
    · rw [htag, hval]
      exact hp.1.2.1 g hg
    · obtain ⟨-, ⟨x, -, s, hv⟩, i, -, ht⟩ := mem_newElems xs _ seq he
      exact ⟨_, by rw [hv, ts_fromJson, ht]⟩

lemma wellFormed_apply (hp : previous.All (Sound (· < ts))) (hj : j.UniqueKeys)
    (hc : j.elemCount ≤ 2 ^ 64) (seq : UInt64) :
    (applyJsonUpdate ts previous j seq).1.WellFormed := by
  have hsound : (applyJsonUpdate ts previous j seq).1.All (Sound fun _ => True) :=
    all_sound_apply trivial (Sound.mono hp fun _ _ => trivial)
      (All.mono hp fun _ h => h.2.2.ne) hj hc seq
  exact wellFormed_of_sound hsound

end Sound

end CrdtValue

end DeSentry
