import DeSentry.Properties.Replica

/-!
# The size of a merge

`PutRaw` refuses a document that does not fit a page.  A merge keeps every field, tag and tombstone
of both documents, so it can be larger than each of them.  This file counts what a merge does lose
(`discarded`): the loser wherever one side replaces the other, and for two containers one of the
heads and one copy of every common name.  The sizes then add up exactly (`length_encode_merge`), for
all documents, also those with repeated names.

So the merge of two documents that can be stored can be stored exactly if what is lost makes up for
what they have together beyond a page, and if not, the peer's document is refused at every attempt
(`merge_storable_iff`).
-/

namespace DeSentry

open ByteCodec KeyedList
open List hiding lookup merge

namespace CrdtValue

/-! ## What a merge loses -/

/-- The side that `later` drops. -/
def earlier (a b : CrdtValue) : CrdtValue := if b.ts > a.ts then a else b

/-- The size of the head of an encoded container with the given stamp: kind, flag, stamp, count. -/
def headBytes (ts : HLCTimestamp) : ℕ := ts.encode.length + 10

mutual
/-- The bytes of two encoded documents that are not in the encoding of their merge. -/
def discarded (a b : CrdtValue) : ℕ :=
  if a.tombstone || b.tombstone then (earlier a b).encode.length
  else
    match a, b with
    | .object ta _ fa, .object tb _ fb => headBytes (min ta tb) + discardedFields fa fb.reverse
    | .array ta _ ea, .array tb _ eb => headBytes (min ta tb) + discardedElems ea eb.reverse
    | a, b => (earlier a b).encode.length

/-- The same for the join loop of the object case: the name is written once, and the index entries
of the name that `Merge` does not use are gone. -/
def discardedFields : List (Bytes × CrdtValue) → List (Bytes × CrdtValue) → ℕ
  | [], _ => 0
  | (k, av) :: fa, bmap =>
    match lookup Prod.fst k bmap with
    | some f =>
      k.length + 8 + discarded av f.2 +
        ((bmap.filter fun x => decide (x.1 = k)).tail.map fun x => (encodeField x).length).sum +
        discardedFields fa (bmap.filter fun x => decide (x.1 ≠ k))
    | none => discardedFields fa bmap

/-- The same for the join loop of the array case. -/
def discardedElems : List (CrdtArrayElem CrdtValue) → List (CrdtArrayElem CrdtValue) → ℕ
  | [], _ => 0
  | ⟨tag, av, _⟩ :: ea, bmap =>
    match lookup CrdtArrayElem.tag tag bmap with
    | some be =>
      tag.length + 9 + discarded av be.value +
        ((bmap.filter fun x => decide (x.tag = tag)).tail.map fun x => (encodeElem x).length).sum +
        discardedElems ea (bmap.filter fun x => decide (x.tag ≠ tag))
    | none => discardedElems ea bmap
end

/-- What is lost of two fields of one name. -/
def discardedField (f g : Bytes × CrdtValue) : ℕ := f.1.length + 8 + discarded f.2 g.2

/-- What is lost of two elements of one tag. -/
def discardedElem (d e : CrdtArrayElem CrdtValue) : ℕ :=
  d.tag.length + 9 + discarded d.value e.value

lemma discardedFields_eq (fa bmap : List (Bytes × CrdtValue)) :
    discardedFields fa bmap =
      joinLost Prod.fst (fun f => (encodeField f).length) discardedField fa bmap := by
  induction fa generalizing bmap with
  | nil => rfl
  | cons f fa ih =>
    obtain ⟨k, av⟩ := f
    rw [discardedFields, joinLost]
    cases lookup Prod.fst k bmap with
    | none => exact ih bmap
    | some g =>
      simp only [ih, discardedField]
      congr!

lemma discardedElems_eq (ea bmap : List (CrdtArrayElem CrdtValue)) :
    discardedElems ea bmap =
      joinLost CrdtArrayElem.tag (fun e => (encodeElem e).length) discardedElem ea bmap := by
  induction ea generalizing bmap with
  | nil => rfl
  | cons e ea ih =>
    obtain ⟨tag, av, ad⟩ := e
    rw [discardedElems, joinLost]
    cases lookup CrdtArrayElem.tag tag bmap with
    | none => exact ih bmap
    | some g =>
      simp only [ih, discardedElem]
      congr!

lemma discarded_object (ta tb : HLCTimestamp) (fa fb : List (Bytes × CrdtValue)) :
    discarded (.object ta false fa) (.object tb false fb) = headBytes (min ta tb) +
      joinLost Prod.fst (fun f => (encodeField f).length) discardedField fa fb.reverse := by
  rw [← discardedFields_eq]
  rfl

lemma discarded_array (ta tb : HLCTimestamp) (ea eb : List (CrdtArrayElem CrdtValue)) :
    discarded (.array ta false ea) (.array tb false eb) = headBytes (min ta tb) +
      joinLost CrdtArrayElem.tag (fun e => (encodeElem e).length) discardedElem ea eb.reverse := by
  rw [← discardedElems_eq]
  rfl

/-! ## Sizes -/

lemma size_object (t : HLCTimestamp) (d : Bool) (fields : List (Bytes × CrdtValue)) :
    (encode (.object t d fields)).length =
      headBytes t + (fields.map fun f => (encodeField f).length).sum := by
  rw [encode_object, length_append, length_flatten, map_map,
    ((sortBy_perm fields).map _).sum_eq]
  simp only [encodeHeader, headBytes, length_append, ByteWriter.length_bytes,
    ByteWriter.length_u8, ByteWriter.length_u32, Function.comp_def]
  omega

lemma size_array (t : HLCTimestamp) (d : Bool) (elems : List (CrdtArrayElem CrdtValue)) :
    (encode (.array t d elems)).length =
      headBytes t + (elems.map fun e => (encodeElem e).length).sum := by
  rw [encode_array, length_append, length_flatten, map_map,
    ((sortBy_perm elems).map _).sum_eq]
  simp only [encodeHeader, headBytes, length_append, ByteWriter.length_bytes,
    ByteWriter.length_u8, ByteWriter.length_u32, Function.comp_def]
  omega

lemma length_later_add_earlier (a b : CrdtValue) :
    (later a b).encode.length + (earlier a b).encode.length =
      a.encode.length + b.encode.length := by
  unfold later earlier
  split_ifs
  · exact Nat.add_comm _ _
  · rfl

lemma headBytes_max_add_min (s t : HLCTimestamp) :
    headBytes (max s t) + headBytes (min s t) = headBytes s + headBytes t := by
  rcases le_total s t with h | h
  · rw [max_eq_right h, min_eq_left h, Nat.add_comm]
  · rw [max_eq_left h, min_eq_right h]

/-- Documents that do not merge piecewise lose the earlier one. -/
lemma discarded_of_not_sameContainer {a b : CrdtValue} (h : ¬ SameContainer a b) :
    discarded a b = (earlier a b).encode.length := by
  unfold discarded
  by_cases hd : a.tombstone || b.tombstone
  · rw [if_pos hd]
  · rw [if_neg hd]
    simp only [Bool.or_eq_true, not_or, Bool.not_eq_true] at hd
    cases a <;> cases b <;> first | rfl | exact absurd hd h

/-- **The size of a merge**: with what is discarded it is the size of the two documents. -/
theorem length_encode_merge (a b : CrdtValue) :
    (merge a b).encode.length + discarded a b = a.encode.length + b.encode.length := by
  induction a, b using merge_induction with
  | whole a b hc =>
    rw [merge_of_not_sameContainer hc, discarded_of_not_sameContainer hc, length_later_add_earlier]
  | array ta tb ea eb ih =>
    have hjoin : ((join CrdtArrayElem.tag mergeElem ea eb).map
        fun e => (encodeElem e).length).sum + joinLost CrdtArrayElem.tag
          (fun e => (encodeElem e).length) discardedElem ea eb.reverse = _ :=
      sum_join fun e he e' htag => by
        have := ih e he e'.value
        simp only [length_encodeElem, mergeElem, discardedElem, htag]
        omega
    have hhead := headBytes_max_add_min ta tb
    rw [merge_array, size_array, size_array, size_array, discarded_array]
    omega
  | object ta tb fa fb ih =>
    have hjoin : ((join Prod.fst mergeField fa fb).map
        fun f => (encodeField f).length).sum + joinLost Prod.fst
          (fun f => (encodeField f).length) discardedField fa fb.reverse = _ :=
      sum_join fun f hf g hname => by
        have := ih f hf g.2
        simp only [length_encodeField, mergeField, discardedField, hname]
        omega
    have hhead := headBytes_max_add_min ta tb
    rw [merge_object, size_object, size_object, size_object, discarded_object]
    omega

end CrdtValue

/-! ## Documents that can be stored -/

namespace NodeEngine

open CrdtValue StorageEngine

/-- The checks of `PutRaw` differ between two documents of a key in their size only. -/
lemma checkPut_iff_length {key doc doc' : Bytes} (h : checkPut key doc = .ok ()) :
    checkPut key doc' = .ok () ↔ doc'.length ≤ kMaxDocBytes := by
  refine ⟨length_of_checkPut, fun hlen => ?_⟩
  unfold checkPut at h ⊢
  by_cases hkey : key = [] ∨ key.length ≥ kMaxKeyBytes
  · rw [if_pos hkey] at h
    cases h
  · rw [if_neg hkey, if_neg (Nat.not_lt.mpr hlen)]

/-- **Documents that can be stored and their merge.**  A document of a key passes the checks of
`PutRaw`.  Its merge with any other, one that passes them too or not, passes them exactly if the two
are together no larger than a page and what the merge discards.  Otherwise every `MergeRemote` of the one on a node that stores the other fails and
leaves the stored document, so that it fails the next time as well. -/
theorem merge_storable_iff (key : Bytes) (a b : CrdtValue) (ha : checkPut key a.encode = .ok ()) :
    (checkPut key (merge a b).encode = .ok () ↔
      a.encode.length + b.encode.length ≤ kMaxDocBytes + discarded a b) ∧
    (¬ a.encode.length + b.encode.length ≤ kMaxDocBytes + discarded a b →
      ∀ (c : Crypto) (e : NodeEngine) (env : WriteEnv) (appended : Except Status Unit)
        (collection remote : Bytes) (who : Requestor), collection ≠ kTransitCollection →
        e.currentDocument collection key = .ok (some a) → decode remote = .ok b →
        (e.mergeRemote c env appended collection key remote who).1 ≠ .ok () ∧
          (e.mergeRemote c env appended collection key remote who).2.currentDocument
            collection key = .ok (some a)) := by
  have hsize := length_encode_merge a b
  refine ⟨?_, fun hlarge c e env appended collection remote who hne hcur hdecode => ?_⟩
  · rw [checkPut_iff_length ha]
    omega
  · rcases mergeRemote_cases e c env appended collection key remote who hne with
      ⟨remote', -, hdecode', previous, hcur', hlen, -⟩ | ⟨hrefused, hrows, -⟩
    · obtain rfl := Except.ok.inj (hdecode.symm.trans hdecode')
      obtain rfl := Except.ok.inj (hcur.symm.trans hcur')
      change (merge a b).encode.length ≤ kMaxDocBytes at hlen
      omega
    · refine ⟨hrefused, ?_⟩
      unfold currentDocument at hcur ⊢
      rwa [hrows]

/-- A document with one long field. -/
def longField (name : String) (length : ℕ) : CrdtValue :=
  .object ⟨1, 0, [98]⟩ false
    [(text name, .scalar ⟨1, 0, [98]⟩ false (.str (List.replicate length 120)))]

/-- Two documents with a field of 2100 bytes each fit a page, and their merge does not. -/
theorem merge_exceeds_page :
    checkPut (text "k") (longField "x" 2100).encode = .ok () ∧
    checkPut (text "k") (longField "y" 2100).encode = .ok () ∧
    checkPut (text "k") (merge (longField "x" 2100) (longField "y" 2100)).encode ≠ .ok () := by
  decide +kernel

/-- Two documents with a field of ten bytes each. -/
theorem merge_storable_short :
    checkPut (text "k") (merge (longField "x" 10) (longField "y" 10)).encode = .ok () :=
  (merge_storable_iff (text "k") (longField "x" 10) (longField "y" 10)
    (by decide +kernel)).1.mpr (by decide +kernel)

end NodeEngine

end DeSentry
