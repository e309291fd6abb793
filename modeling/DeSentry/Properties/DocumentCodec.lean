import DeSentry.Properties.DocumentTree

/-!
# The document codec

`Encode` writes the children of a node sorted by key or tag, each behind its own length, and
narrows every length to 32 bits; `Decode` reads them back into the order they were written in
and stops at a depth cap.  So a document does not come back as it was but as its canonical form
(`decodeAt_encode`), provided it is not nested deeper than the cap and no length was cut.

Consequently the bytes of two documents agree exactly when their canonical forms do
(`encode_eq_iff`): byte equality, the abstract tree and the canonical form are three spellings
of one thing.
-/

namespace DeSentry

open ByteCodec KeyedList ByteWriter List

variable (elems : List (CrdtArrayElem CrdtValue)) (fields : List (Bytes × CrdtValue))
  (e : CrdtArrayElem CrdtValue) (f : Bytes × CrdtValue) {α : Type} {v : CrdtValue} {fuel : ℕ}

namespace CrdtValue

/-! ## Depth -/

mutual
/-- The number of levels of a document. -/
def depth : CrdtValue → ℕ
  | .scalar _ _ _ => 1
  | .array _ _ elems => depthElems elems + 1
  | .object _ _ fields => depthFields fields + 1

/-- The depth of the deepest element. -/
def depthElems : List (CrdtArrayElem CrdtValue) → ℕ
  | [] => 0
  | ⟨_, v, _⟩ :: es => max (depth v) (depthElems es)

/-- The depth of the deepest field. -/
def depthFields : List (Bytes × CrdtValue) → ℕ
  | [] => 0
  | (_, v) :: fs => max (depth v) (depthFields fs)
end

lemma depthElems_le {elems : List (CrdtArrayElem CrdtValue)} {n : ℕ} :
    depthElems elems ≤ n ↔ ∀ e ∈ elems, e.value.depth ≤ n := by
  induction elems with
  | nil => simp [depthElems]
  | cons e es ih => simp [depthElems, ih]

lemma depthFields_le {fields : List (Bytes × CrdtValue)} {n : ℕ} :
    depthFields fields ≤ n ↔ ∀ f ∈ fields, f.2.depth ≤ n := by
  induction fields with
  | nil => simp [depthFields]
  | cons f fs ih => simp [depthFields, ih]

/-! ## The encoding as sorted chunks -/

/-- What the loop of `Encode` writes for an element. -/
def encodeElem : Bytes :=
  bytes e.tag ++ u8 (if e.tombstone then 1 else 0) ++
    bytes (encode e.value)

/-- What the loop of `Encode` writes for a field. -/
def encodeField : Bytes :=
  bytes f.1 ++ bytes (encode f.2)

lemma encodeElems_eq : encodeElems elems = elems.map fun e => (e.tag, encodeElem e) := by
  induction elems with
  | nil => rfl
  | cons e es ih => simp [encodeElems, encodeElem, ih]

lemma encodeFields_eq : encodeFields fields = fields.map fun f => (f.1, encodeField f) := by
  induction fields with
  | nil => rfl
  | cons f fs ih => simp [encodeFields, encodeField, ih]

lemma encode_array (t : HLCTimestamp) (d : Bool) (elems : List (CrdtArrayElem CrdtValue)) :
    encode (.array t d elems) = encodeHeader 5 d t ++ u32 (UInt32.ofNat elems.length) ++
      ((sortBy CrdtArrayElem.tag elems).map encodeElem).flatten := by
  have hsort : (sortBy CrdtArrayElem.tag elems).map (fun e => (e.tag, encodeElem e)) =
      sortBy Prod.fst (elems.map fun e => (e.tag, encodeElem e)) := map_sortBy (fun _ => by rfl) _
  rw [encode, encodeElems_eq, ← hsort, map_map]
  rfl

lemma encode_object (t : HLCTimestamp) (d : Bool) (fields : List (Bytes × CrdtValue)) :
    encode (.object t d fields) =
      encodeHeader 6 d t ++ u32 (UInt32.ofNat fields.length) ++
        ((sortBy Prod.fst fields).map encodeField).flatten := by
  have hsort : (sortBy Prod.fst fields).map (fun f => (f.1, encodeField f)) =
      sortBy Prod.fst (fields.map fun f => (f.1, encodeField f)) := map_sortBy (fun _ => by rfl) _
  rw [encode, encodeFields_eq, ← hsort, map_map]
  rfl

lemma sortBy_canonElems :
    sortBy CrdtArrayElem.tag (canonElems elems) =
      (sortBy CrdtArrayElem.tag elems).map canonElem := by
  rw [canonElems_eq]
  exact (map_sortBy (fun _ => by rfl) elems).symm

lemma sortBy_canonFields :
    sortBy Prod.fst (canonFields fields) = (sortBy Prod.fst fields).map canonField := by
  rw [canonFields_eq]
  exact (map_sortBy (fun _ => by rfl) fields).symm

/-- `Encode` sees only the canonical form. -/
lemma encode_canon (v : CrdtValue) : v.canon.encode = v.encode := by
  induction v with
  | scalar ts d s => rfl
  | array ts d elems ih =>
    have hchunk : ∀ e ∈ sortBy CrdtArrayElem.tag elems, encodeElem (canonElem e) = encodeElem e :=
      fun e he => by
        rw [encodeElem, encodeElem, canonElem, ih e (mem_sortBy.mp he)]
    have hchunks : (sortBy CrdtArrayElem.tag elems).map (encodeElem ∘ canonElem) =
        (sortBy CrdtArrayElem.tag elems).map encodeElem := map_congr_left hchunk
    rw [canon, encode_array, encode_array, sortBy_sortBy, sortBy_canonElems, map_map,
      hchunks, length_map, length_sortBy]
  | object ts d fields ih =>
    have hchunk : ∀ f ∈ sortBy Prod.fst fields, encodeField (canonField f) = encodeField f :=
      fun f hf => by
        rw [encodeField, encodeField, canonField, ih f (mem_sortBy.mp hf)]
    have hchunks : (sortBy Prod.fst fields).map (encodeField ∘ canonField) =
        (sortBy Prod.fst fields).map encodeField := map_congr_left hchunk
    rw [canon, encode_object, encode_object, sortBy_sortBy, sortBy_canonFields, map_map,
      hchunks, length_map, length_sortBy]

/-! ## Reading a node back -/

section Reading

variable {child : ByteReader CrdtValue}

/-- No length of an encoding exceeds the whole: a chunk of a list is no longer than all of it. -/
lemma length_le_flatten {c : Bytes} {cs : List Bytes} (h : c ∈ cs) : c.length ≤ cs.flatten.length :=
  (sublist_flatten_of_mem h).length_le

lemma length_le_length_flatten {cs : List Bytes} (h : ∀ c ∈ cs, 1 ≤ c.length) :
    cs.length ≤ cs.flatten.length := by
  induction cs with
  | nil => simp
  | cons c cs ih =>
    have hc := h c mem_cons_self
    have hcs := ih fun x hx => h x (mem_cons_of_mem c hx)
    rw [flatten_cons, length_append, length_cons]
    omega

lemma flag_ne_zero (d : Bool) : ((if d then (1 : UInt8) else 0) != 0) = d := by
  cases d <;> rfl

/-- The head of a node is read back, and the reader of the payload goes on from there. -/
lemma reads_readNode {kind : UInt8} {d : Bool} {ts : HLCTimestamp} {payload : Bytes}
    {v : CrdtValue} (hts : ts.encode.length < 2 ^ 32)
    (h : Reads (readPayload child ts d kind) payload v) :
    Reads (readNode child) (encodeHeader kind d ts ++ payload) v := by
  rw [encodeHeader]
  refine (reads_u8 kind).bind ((reads_u8 _).bind ((reads_bytes hts).bind ?_))
  rwa [HLCTimestamp.decode_encode, flag_ne_zero]

lemma reads_encodeScalar {ts : HLCTimestamp} {d : Bool} {s : Scalar}
    (h : (encodeScalar s).length < 2 ^ 32) :
    Reads (readPayload child ts d (scalarKind s)) (encodeScalar s) (.scalar ts d s) := by
  cases s with
  | null => exact Reads.pure _
  | bool b =>
    have hb := (reads_u8 (if b then 1 else 0)).map
      (f := fun x => CrdtValue.scalar ts d (.bool (x != 0)))
    rwa [flag_ne_zero] at hb
  | int i => exact (reads_i64 i).map
  | double x => exact (reads_f64 x).map
  | str s =>
    have hs : s.length < 2 ^ 32 := by
      rw [encodeScalar, length_bytes] at h
      omega
    exact (reads_bytes hs).map

lemma reads_encodeElem {e : CrdtArrayElem CrdtValue} (htag : e.tag.length < 2 ^ 32)
    (h : Reads child (bytes e.value.encode) e.value.canon) :
    Reads (do
      let tag ← ByteReader.bytes
      let d ← ByteReader.u8
      let value ← child
      pure { tag := tag, value := value, tombstone := d != 0 }) (encodeElem e) (canonElem e) := by
  rw [encodeElem, append_assoc]
  refine (reads_bytes htag).bind ((reads_u8 _).bind ?_)
  rw [flag_ne_zero]
  exact h.map

lemma reads_encodeField {f : Bytes × CrdtValue} (hkey : f.1.length < 2 ^ 32)
    (h : Reads child (bytes f.2.encode) f.2.canon) :
    Reads (do
      let k ← ByteReader.bytes
      let value ← child
      pure (k, value)) (encodeField f) (canonField f) := by
  exact (reads_bytes hkey).bind h.map

/-- The loop that reads a list of children back, given the reader of one. -/
lemma reads_children {get : ByteReader α} {xs : List α} {chunk : α → Bytes} {value : α → α}
    (g : List α → CrdtValue) (hlen : xs.length < 2 ^ 32)
    (h : ∀ x ∈ xs, Reads get (chunk x) (value x)) :
    Reads (do
      let n ← ByteReader.u32
      let ys ← many get n.toNat
      pure (g ys)) (u32 (UInt32.ofNat xs.length) ++ (xs.map chunk).flatten)
        (g (xs.map value)) := by
  refine (reads_u32 _).bind (Reads.map ?_)
  have hn : (UInt32.ofNat xs.length).toNat = (xs.map value).length := by
    rw [UInt32.toNat_ofNat', Nat.mod_eq_of_lt hlen, length_map]
  rw [hn]
  refine Reads.many ?_
  rw [List.forall₂_map_left_iff, List.forall₂_map_right_iff]
  exact List.forall₂_same.mpr h

end Reading

/-! ## The round trip -/

section RoundTrip

variable {t : HLCTimestamp} {d : Bool}

lemma length_encodeHeader (kind : UInt8) :
    (encodeHeader kind d t).length = t.encode.length + 6 := by
  simp only [encodeHeader, length_append, length_u8, length_bytes]
  omega

lemma length_encodeElem : (encodeElem e).length = e.tag.length + e.value.encode.length + 9 := by
  simp only [encodeElem, length_append, length_u8, length_bytes]
  omega

lemma length_encodeField : (encodeField f).length = f.1.length + f.2.encode.length + 8 := by
  simp only [encodeField, length_append, length_bytes]
  omega

/-- The chunks of a list of children: there are no more of them than bytes, and none is longer than
all of them together. -/
lemma length_children (key : α → Bytes) (chunk : α → Bytes) (xs : List α)
    (hpos : ∀ x, 1 ≤ (chunk x).length) :
    xs.length ≤ ((sortBy key xs).map chunk).flatten.length ∧
      ∀ x ∈ xs, (chunk x).length ≤ ((sortBy key xs).map chunk).flatten.length := by
  refine ⟨?_, fun x hx => length_le_flatten (mem_map_of_mem (mem_sortBy.mpr hx))⟩
  have hsorted : (sortBy key xs).length = xs.length := length_sortBy
  rw [← hsorted, ← length_map chunk]
  refine length_le_length_flatten fun c hc => ?_
  obtain ⟨x, -, rfl⟩ := mem_map.mp hc
  exact hpos x

/-- Everything inside an encoded array is shorter than the whole. -/
lemma length_encode_array (elems : List (CrdtArrayElem CrdtValue)) :
    t.encode.length + 6 ≤ (encode (.array t d elems)).length ∧
    elems.length + 6 ≤ (encode (.array t d elems)).length ∧
    ∀ e ∈ elems, e.tag.length + 6 ≤ (encode (.array t d elems)).length ∧
      e.value.encode.length + 6 ≤ (encode (.array t d elems)).length := by
  obtain ⟨hcount, helem⟩ := length_children CrdtArrayElem.tag encodeElem elems
    fun e => by rw [length_encodeElem]; omega
  simp only [encode_array, length_append, length_encodeHeader, length_u32]
  refine ⟨by omega, by omega, fun e he => ?_⟩
  have h := helem e he
  rw [length_encodeElem] at h
  omega

/-- Everything inside an encoded object is shorter than the whole. -/
lemma length_encode_object (fields : List (Bytes × CrdtValue)) :
    t.encode.length + 6 ≤ (encode (.object t d fields)).length ∧
    fields.length + 6 ≤ (encode (.object t d fields)).length ∧
    ∀ f ∈ fields, f.1.length + 6 ≤ (encode (.object t d fields)).length ∧
      f.2.encode.length + 6 ≤ (encode (.object t d fields)).length := by
  obtain ⟨hcount, hfield⟩ := length_children Prod.fst encodeField fields
    fun f => by rw [length_encodeField]; omega
  simp only [encode_object, length_append, length_encodeHeader, length_u32]
  refine ⟨by omega, by omega, fun f hf => ?_⟩
  have h := hfield f hf
  rw [length_encodeField] at h
  omega

/-- A node is read back as its canonical form once its children are. -/
lemma reads_node {child : ByteReader CrdtValue} {v : CrdtValue} (hlen : v.encode.length < 2 ^ 32 + 6)
    (hchild : ∀ c : CrdtValue, c.depth < v.depth → c.encode.length < 2 ^ 32 →
      Reads child (bytes c.encode) c.canon) :
    Reads (readNode child) v.encode v.canon := by
  cases v with
  | scalar ts d s =>
    rw [encode, length_append, length_encodeHeader] at hlen
    exact reads_readNode (by omega) (reads_encodeScalar (by omega))
  | array ts d elems =>
    obtain ⟨hts, hcount, helem⟩ := length_encode_array (t := ts) (d := d) elems
    have hdepth : ∀ e ∈ elems, e.value.depth < depth (.array ts d elems) := fun e he =>
      Nat.lt_succ_of_le (depthElems_le.mp le_rfl e he)
    have hsorted : elems.length = (sortBy CrdtArrayElem.tag elems).length := length_sortBy.symm
    rw [encode_array, append_assoc, canon, sortBy_canonElems]
    refine reads_readNode (by omega) ?_
    rw [hsorted]
    refine reads_children (CrdtValue.array ts d) (by omega) fun e he => ?_
    have hem := mem_sortBy.mp he
    obtain ⟨htag, hvalue⟩ := helem e hem
    exact reads_encodeElem (by omega) (hchild e.value (hdepth e hem) (by omega))
  | object ts d fields =>
    obtain ⟨hts, hcount, hfield⟩ := length_encode_object (t := ts) (d := d) fields
    have hdepth : ∀ f ∈ fields, f.2.depth < depth (.object ts d fields) := fun f hf =>
      Nat.lt_succ_of_le (depthFields_le.mp le_rfl f hf)
    have hsorted : fields.length = (sortBy Prod.fst fields).length := length_sortBy.symm
    rw [encode_object, append_assoc, canon, sortBy_canonFields]
    refine reads_readNode (by omega) ?_
    rw [hsorted]
    refine reads_children (CrdtValue.object ts d) (by omega) fun f hf => ?_
    have hfm := mem_sortBy.mp hf
    obtain ⟨hkey, hvalue⟩ := hfield f hfm
    exact reads_encodeField (by omega) (hchild f.2 (hdepth f hfm) (by omega))

/-- **The round trip.**  A document within the depth allowed, and short enough for its lengths to
survive the cast to 32 bits, decodes to its canonical form. -/
theorem decodeAt_encode_of_lt (hdepth : v.depth ≤ fuel) (hlen : v.encode.length < 2 ^ 32 + 6) :
    decodeAt fuel v.encode = .ok v.canon := by
  induction fuel generalizing v with
  | zero => cases v <;> exact absurd hdepth (Nat.not_succ_le_zero _)
  | succ fuel ih =>
    have hread : Reads (readNode do
        let body ← ByteReader.bytes
        StateT.lift (decodeAt fuel body)) v.encode v.canon :=
      reads_node hlen fun c hc hclen =>
        (reads_bytes hclen).lift (ih (by omega) (hclen.trans (by decide)))
    rw [decodeAt, hread.run_eq]
    rfl

theorem decodeAt_encode (hdepth : v.depth ≤ fuel) (hlen : v.encode.length < 2 ^ 32) :
    decodeAt fuel v.encode = .ok v.canon :=
  decodeAt_encode_of_lt hdepth (hlen.trans (by decide))

/-- The bytes of a document determine its canonical form, and are determined by it. -/
theorem encode_eq_iff {a b : CrdtValue} (ha : a.encode.length < 2 ^ 32 + 6) :
    a.encode = b.encode ↔ a.canon = b.canon := by
  constructor
  · intro h
    have hda := decodeAt_encode_of_lt (le_max_left a.depth b.depth) ha
    have hdb := decodeAt_encode_of_lt (le_max_right a.depth b.depth) (h ▸ ha)
    rw [h, hdb] at hda
    exact (Except.ok.inj hda).symm
  · intro h
    rw [← encode_canon a, ← encode_canon b, h]

end RoundTrip

/-! ## Reordering -/

section Reordering

/-- Equal up to the order of object fields and array elements, at any level. -/
inductive Reordered : CrdtValue → CrdtValue → Prop
  | refl (v : CrdtValue) : Reordered v v
  | symm {a b : CrdtValue} (h : Reordered a b) : Reordered b a
  | trans {a b c : CrdtValue} (hab : Reordered a b) (hbc : Reordered b c) : Reordered a c
  | elems (t : HLCTimestamp) (d : Bool) {es es' : List (CrdtArrayElem CrdtValue)}
    (h : es.Perm es') : Reordered (.array t d es) (.array t d es')
  | fields (t : HLCTimestamp) (d : Bool) {fs fs' : List (Bytes × CrdtValue)}
    (h : fs.Perm fs') : Reordered (.object t d fs) (.object t d fs')
  | elem (t : HLCTimestamp) (d : Bool) (tag : Bytes) (dead : Bool)
    (es : List (CrdtArrayElem CrdtValue)) {v v' : CrdtValue} (h : Reordered v v') :
    Reordered (.array t d (⟨tag, v, dead⟩ :: es)) (.array t d (⟨tag, v', dead⟩ :: es))
  | field (t : HLCTimestamp) (d : Bool) (key : Bytes) (fs : List (Bytes × CrdtValue))
    {v v' : CrdtValue} (h : Reordered v v') :
    Reordered (.object t d ((key, v) :: fs)) (.object t d ((key, v') :: fs))

/-- A list of children may be reordered child by child. -/
lemma Reordered.children {node : List α → CrdtValue} {f : α → α} {xs : List α}
    (hperm : ∀ xs ys, xs.Perm ys → Reordered (node xs) (node ys))
    (hhead : ∀ x ∈ xs, ∀ ys, Reordered (node (f x :: ys)) (node (x :: ys))) :
    Reordered (node (xs.map f)) (node xs) := by
  -- The children that are done already are moved to the end.
  suffices h : ∀ done, Reordered (node (xs.map f ++ done)) (node (xs ++ done)) by
    simpa only [append_nil] using h []
  induction xs with
  | nil => exact fun done => .refl _
  | cons x xs ih =>
    intro done
    have hrest := ih (fun y hy => hhead y (mem_cons_of_mem x hy)) (x :: done)
    have hback : Reordered (node (x :: (xs.map f ++ done))) (node (xs.map f ++ x :: done)) :=
      hperm _ _ perm_middle.symm
    exact (hhead x mem_cons_self _).trans (hback.trans (hrest.trans
      (hperm _ _ perm_middle)))

/-- The canonical form of a document is the document in another order. -/
lemma reordered_canon (v : CrdtValue) : Reordered v.canon v := by
  induction v with
  | scalar ts d s => exact .refl _
  | array ts d es ih =>
    rw [canon, canonElems_eq]
    refine (Reordered.elems ts d (sortBy_perm _)).trans
      (Reordered.children (fun _ _ => .elems ts d) fun e he ys => ?_)
    exact .elem ts d e.tag e.tombstone ys (ih e he)
  | object ts d fs ih =>
    rw [canon, canonFields_eq]
    refine (Reordered.fields ts d (sortBy_perm _)).trans
      (Reordered.children (fun _ _ => .fields ts d) fun f hf ys => ?_)
    exact .field ts d f.1 ys (ih f hf)

/-- Reordering keeps keys and tags distinct, and does not change the canonical form. -/
lemma Reordered.canon_eq {a b : CrdtValue} (h : Reordered a b) :
    (a.WellFormed ↔ b.WellFormed) ∧ (a.WellFormed → a.canon = b.canon) := by
  induction h with
  | refl v => exact ⟨Iff.rfl, fun _ => rfl⟩
  | symm _ ih => exact ⟨ih.1.symm, fun hb => (ih.2 (ih.1.mpr hb)).symm⟩
  | trans _ _ ihab ihbc =>
    exact ⟨ihab.1.trans ihbc.1, fun ha => (ihab.2 ha).trans (ihbc.2 (ihab.1.mp ha))⟩
  | elems t d hperm =>
    refine ⟨?_, fun ha => ?_⟩
    · rw [wellFormed_array, wellFormed_array]
      exact and_congr ⟨(·.perm hperm), (·.perm hperm.symm)⟩
        (forall_congr' fun e => imp_congr_left hperm.mem_iff)
    · have hdistinct := distinct_canonElems.mpr (wellFormed_array.mp ha).1
      rw [canonElems_eq] at hdistinct
      rw [canon, canon, canonElems_eq, canonElems_eq]
      exact congrArg _ (sortBy_congr hdistinct (hdistinct.perm (hperm.map _)) fun _ =>
        lookup_perm hdistinct (hperm.map _))
  | fields t d hperm =>
    refine ⟨?_, fun ha => ?_⟩
    · rw [wellFormed_object, wellFormed_object]
      exact and_congr ⟨(·.perm hperm), (·.perm hperm.symm)⟩
        (forall_congr' fun f => imp_congr_left hperm.mem_iff)
    · have hdistinct := distinct_canonFields.mpr (wellFormed_object.mp ha).1
      rw [canonFields_eq] at hdistinct
      rw [canon, canon, canonFields_eq, canonFields_eq]
      exact congrArg _ (sortBy_congr hdistinct (hdistinct.perm (hperm.map _)) fun _ =>
        lookup_perm hdistinct (hperm.map _))
  | elem t d tag dead es _ ih =>
    refine ⟨?_, fun ha => ?_⟩
    · simp only [wellFormed_array, forall_mem_cons, Distinct, map_cons, ih.1]
    · have hv := (wellFormed_array.mp ha).2 _ mem_cons_self
      rw [canon, canon, canonElems, canonElems, ih.2 hv]
  | field t d key fs _ ih =>
    refine ⟨?_, fun ha => ?_⟩
    · simp only [wellFormed_object, forall_mem_cons, Distinct, map_cons, ih.1]
    · have hv := (wellFormed_object.mp ha).2 _ mem_cons_self
      rw [canon, canon, canonFields, canonFields, ih.2 hv]

/-- Documents with distinct keys and tags are equal up to the order exactly when their canonical
forms are equal. -/
lemma reordered_iff {a b : CrdtValue} (ha : a.WellFormed) :
    Reordered a b ↔ a.canon = b.canon := by
  refine ⟨fun h => h.canon_eq.2 ha, fun h => ?_⟩
  have hb := reordered_canon b
  rw [← h] at hb
  exact (reordered_canon a).symm.trans hb

/-- **The encoding is canonical**: a document comes back up to the order of its fields and
elements, with the same bytes, and two documents have the same bytes exactly when they are equal up
to that order. -/
theorem encoding_canonical (v : CrdtValue) (hv : v.WellFormed)
    (hdepth : v.depth ≤ kMaxDecodeDepth + 1) (hlen : v.encode.length < 2 ^ 32 + 6) :
    (∃ w, decode v.encode = .ok w ∧ Reordered w v ∧ w.encode = v.encode) ∧
      ∀ v' : CrdtValue, v'.WellFormed → v'.depth ≤ kMaxDecodeDepth + 1 →
        v'.encode.length < 2 ^ 32 + 6 → (v.encode = v'.encode ↔ Reordered v v') := by
  refine ⟨⟨v.canon, decodeAt_encode_of_lt hdepth hlen, reordered_canon v, encode_canon v⟩, ?_⟩
  intro v' _ _ _
  rw [encode_eq_iff hlen, reordered_iff hv]

/-- Two fields, written in both orders. -/
theorem encoding_canonical_sample :
    encode (.object {} false [([97], .scalar {} false .null), ([98], .scalar {} true .null)]) =
      encode (.object {} false [([98], .scalar {} true .null), ([97], .scalar {} false .null)]) :=
  ((encoding_canonical _ (by decide +kernel) (by decide +kernel) (by decide +kernel)).2 _
    (by decide +kernel) (by decide +kernel) (by decide +kernel)).mpr (.fields _ _ (.swap _ _ []))

/-- A node id so long that the length of the encoded stamp is cut to zero: the document comes back
with an empty stamp. -/
theorem long_stamp_cut : ∃ v : CrdtValue, v.WellFormed ∧ v.depth ≤ kMaxDecodeDepth + 1 ∧
    v.encode.length = 2 ^ 32 + 6 ∧ ∃ w, decode v.encode = .ok w ∧ ¬ Reordered w v := by
  let t : HLCTimestamp := { nodeId := List.replicate (2 ^ 32 - 12) 0 }
  have hlen : t.encode.length = 2 ^ 32 := by
    rw [HLCTimestamp.length_encode, length_replicate]
    omega
  have hcut : bytes t.encode = bytes [] ++ t.encode := by
    rw [bytes, hlen]
    rfl
  have hencode : (CrdtValue.scalar t false .null).encode =
      u8 0 ++ (u8 0 ++ bytes []) ++ t.encode := by
    rw [encode, encodeHeader, hcut]
    simp only [encodeScalar, append_assoc, append_nil]
    rfl
  have hread : ∀ child, Reads (readNode child) (u8 0 ++ (u8 0 ++ bytes []))
      (.scalar {} false .null) := fun child =>
    (reads_u8 0).bind ((reads_u8 0).bind ((reads_bytes (by decide)).map))
  refine ⟨.scalar t false .null, wellFormed_scalar, by decide, ?_, .scalar {} false .null, ?_, ?_⟩
  · simp only [hencode, length_append, length_u8, length_bytes, hlen]
    rfl
  · rw [hencode, decode, decodeAt, hread]
    rfl
  · intro h
    have hcanon := h.canon_eq.2 wellFormed_scalar
    have hid : ([] : Bytes) = List.replicate (2 ^ 32 - 12) 0 :=
      congrArg (fun v : CrdtValue => v.ts.nodeId) hcanon
    have hzero := congrArg List.length hid
    rw [length_replicate] at hzero
    cases hzero

end Reordering

end CrdtValue

end DeSentry
