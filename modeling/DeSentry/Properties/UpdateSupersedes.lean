import DeSentry.Properties.ReplicaHistory

/-!
# When a write supersedes what it observed

A write under a stamp later than everything it saw should make old copies of the document
harmless: merging one back in should change nothing.  For a key that is diffed this is so, since
the diff keeps a tombstone or an element for everything it removes.  It is not so for a value
written afresh over a tombstone, a scalar or a value of another kind: nothing records what such a
value replaced, and an old copy that has an object or an array at the same place is merged into
the new one piece by piece.

`writeCovers` computes whether this can happen for a given old copy, and
`update_supersedes_iff` says that it decides the property.
-/

namespace DeSentry

open ByteCodec KeyedList LwwTree
open List hiding lookup lookup_eq_none_iff lookup_eq_some_iff lookup_nil merge

namespace CrdtValue

/-! ## What a write leaves uncovered -/

mutual
/-- A fresh copy of the JSON value holds everything the old value could merge into it: of two
objects the old one has no further keys, and an old array has no elements at all. -/
def freshCovers : JsonValue → CrdtValue → Bool
  | .object fields, .object _ false old =>
    old.all (fun g => (lookup Prod.fst g.1 fields).isSome) && freshCoversFields fields old
  | .array _, .array _ false old => old.isEmpty
  | _, _ => true

/-- `freshCovers` for each field of an object that the old object has too. -/
def freshCoversFields : List (Bytes × JsonValue) → List (Bytes × CrdtValue) → Bool
  | [], _ => true
  | (k, x) :: fs, old =>
    (match lookup Prod.fst k old with
      | some g => freshCovers x g.2
      | none => true) && freshCoversFields fs old
end

mutual
/-- The update of `previous` covers the old value: wherever it writes a fresh value instead of
a diff, the fresh value covers what the old one has there. -/
def writeCovers (previous : CrdtValue) (newJson : JsonValue) (old : CrdtValue) : Bool :=
  if isNoop previous newJson then true
  else
    match previous, newJson, old with
    | .object _ false pfs, .object fields, .object _ false ofs => writeCoversFields pfs fields ofs
    | .object _ false _, .object _, _ => true
    | .array _ false _, .array _, _ => true
    | _, newJson, old => freshCovers newJson old

/-- `writeCovers` for each field that the previous and the old object both have. -/
def writeCoversFields (previous : List (Bytes × CrdtValue)) :
    List (Bytes × JsonValue) → List (Bytes × CrdtValue) → Bool
  | [], _ => true
  | (k, x) :: fs, old =>
    (match lookup Prod.fst k previous, lookup Prod.fst k old with
      | some p, some g => writeCovers p.2 x g.2
      | _, _ => true) && writeCoversFields previous fs old
end

variable {fields : List (Bytes × JsonValue)} {old : List (Bytes × CrdtValue)}

lemma freshCoversFields_iff :
    freshCoversFields fields old = true ↔
      ∀ f ∈ fields, ∀ g, lookup Prod.fst f.1 old = some g → freshCovers f.2 g.2 = true := by
  induction fields with
  | nil => simp [freshCoversFields]
  | cons f fs ih =>
    obtain ⟨k, x⟩ := f
    rw [freshCoversFields, Bool.and_eq_true, ih, forall_mem_cons]
    refine and_congr_left fun _ => ?_
    cases hk : lookup Prod.fst k old <;> simp

lemma writeCoversFields_iff {previous : List (Bytes × CrdtValue)} :
    writeCoversFields previous fields old = true ↔
      ∀ f ∈ fields, ∀ p, lookup Prod.fst f.1 previous = some p →
        ∀ g, lookup Prod.fst f.1 old = some g → writeCovers p.2 f.2 g.2 = true := by
  induction fields with
  | nil => simp [writeCoversFields]
  | cons f fs ih =>
    obtain ⟨k, x⟩ := f
    rw [writeCoversFields, Bool.and_eq_true, ih, forall_mem_cons]
    refine and_congr_left fun _ => ?_
    cases hp : lookup Prod.fst k previous <;> cases hk : lookup Prod.fst k old <;> simp

/-! ## Fresh values -/

section Covers

variable {ts : HLCTimestamp} {v : CrdtValue}

lemma stamp_le_of_sound (hv : v.All (Sound (· < ts))) : v.denote.stamp ≤ ts := by
  rw [stamp_denote]
  exact WithBot.coe_le_coe.mpr hv.root.2.2.le

variable {t : HLCTimestamp} {es : List (CrdtArrayElem CrdtValue)} {e : CrdtArrayElem CrdtValue}

lemma lookup_newElems_eq_none (hv : All (Sound (· < ts)) (.array t false es)) (he : e ∈ es)
    (items : List JsonValue) (slots : List Slot) (seq : UInt64) :
    lookup CrdtArrayElem.tag e.tag (newElems ts items slots seq) = none := by
  rw [lookup_eq_none_iff]
  intro x hx htag
  obtain ⟨-, -, i, -, hi⟩ := mem_newElems items slots seq hx
  exact (fresh_of_lt hv).root e he _ (htag.symm.trans hi)

variable {j : JsonValue} {seq : UInt64}

lemma freshCovers_of_not_sameKind (h : ¬ LwwTree.SameKind (fromJson ts j seq).1.denote v.denote) :
    freshCovers j v = true := by
  cases j with
  | scalar s => cases v <;> rfl
  | array items =>
    rcases v with _ | ⟨_, d, es⟩ | _
    · rfl
    · cases d
      · exact absurd rfl h
      · rfl
    · rfl
  | object fields =>
    rcases v with _ | _ | ⟨_, d, fs⟩
    · rfl
    · rfl
    · cases d
      · exact absurd rfl h
      · rfl

lemma absorbs_newElems (hv : All (Sound (· < ts)) (.array t false es)) (items : List JsonValue)
    (seq : UInt64) :
    LwwTree.Absorbs (denote (.array ts false (newElems ts items [] seq)))
      (denote (.array t false es)) ↔ es = [] := by
  rw [denote_array]
  constructor
  · rintro ⟨-, -, hchild⟩
    cases es with
    | nil => rfl
    | cons e es =>
      have hmem : e ∈ e :: es := mem_cons_self
      have h := hchild e.tag
      rw [denoteElems_eq_absent_iff.mpr (lookup_newElems_eq_none hv hmem items [] seq),
        absorbs_absent_left, denoteElems_eq_absent_iff] at h
      exact absurd rfl (lookup_eq_none_iff.mp h e hmem)
  · rintro rfl
    exact ⟨hv.root.2.2.le, fun k h => absurd h Bool.false_ne_true,
      fun k => absorbs_absent_right _⟩

variable {fields : List (Bytes × JsonValue)} {old : List (Bytes × CrdtValue)}

/-- Key by key: the new object has every key of the old one, with a value that covers it. -/
lemma freshCovers_object_iff (hf : Distinct Prod.fst fields) (ho : Distinct Prod.fst old) :
    freshCovers (.object fields) (.object t false old) = true ↔
      ∀ k g, lookup Prod.fst k old = some g →
        ∃ f, lookup Prod.fst k fields = some f ∧ freshCovers f.2 g.2 = true := by
  rw [freshCovers, Bool.and_eq_true, freshCoversFields_iff, all_eq_true]
  constructor
  · rintro ⟨hkeys, hcov⟩ k g hg
    obtain ⟨f, hf⟩ := Option.isSome_iff_exists.mp (hkeys g (mem_of_lookup hg))
    rw [key_of_lookup hg] at hf
    refine ⟨f, hf, hcov f (mem_of_lookup hf) g ?_⟩
    rw [key_of_lookup hf, hg]
  · intro h
    refine ⟨fun g hg => ?_, fun f hfm g hg => ?_⟩
    · obtain ⟨f, hf, -⟩ := h g.1 g (lookup_of_mem ho hg)
      rw [hf]
      rfl
    · obtain ⟨f', hf', hc⟩ := h f.1 g hg
      rw [lookup_of_mem hf hfm] at hf'
      cases hf'
      exact hc

/-- A later object absorbs an older one key by key. -/
lemma absorbs_object {fs : List (Bytes × CrdtValue)} (hv : Sound (· < ts) (.object t false old)) :
    LwwTree.Absorbs (denote (.object ts false fs)) (denote (.object t false old)) ↔
      ∀ k g, lookup Prod.fst k old = some g →
        LwwTree.Absorbs (denoteFields fs k) g.2.denote := by
  rw [denote_object, denote_object, absorbs_node,
    and_iff_right (show t ≤ ts from hv.2.2.le), and_iff_right fun k h => h]
  refine forall_congr' fun k => ?_
  rw [denoteFields_eq old]
  cases lookup Prod.fst k old <;> simp

/-- Against a value of another shape the stamps decide, for the later write. -/
lemma absorbs_of_later {w : CrdtValue} (hw : w.ts = ts) (hv : v.All (Sound (· < ts)))
    (hk : ¬ LwwTree.SameKind w.denote v.denote) : LwwTree.Absorbs w.denote v.denote := by
  rw [absorbs_of_not_sameKind hk, stamp_denote w, hw]
  exact stamp_le_of_sound hv

/-- A freshly written value absorbs an older one exactly when it covers it. -/
lemma absorbs_fromJson (hj : j.UniqueKeys) (seq : UInt64) (hv : v.All (Sound (· < ts))) :
    LwwTree.Absorbs (fromJson ts j seq).1.denote v.denote ↔ freshCovers j v = true := by
  induction j generalizing v seq with
  | scalar s =>
    have hk : ¬ LwwTree.SameKind (fromJson ts (.scalar s) seq).1.denote v.denote := fun h => h
    exact iff_of_true (absorbs_of_later (ts_fromJson _ seq) hv hk) (freshCovers_of_not_sameKind hk)
  | array items ih =>
    by_cases hk : LwwTree.SameKind (fromJson ts (.array items) seq).1.denote v.denote
    · obtain ⟨t, dead, child, hd⟩ := hk.node_right
      obtain ⟨es, rfl, -, -⟩ := eq_array_of_denote hd
      rw [fromJson_array, absorbs_newElems hv, freshCovers, List.isEmpty_iff]
    · exact iff_of_true (absorbs_of_later (ts_fromJson _ seq) hv hk)
        (freshCovers_of_not_sameKind hk)
  | object fields ih =>
    by_cases hk : LwwTree.SameKind (fromJson ts (.object fields) seq).1.denote v.denote
    · obtain ⟨t, dead, child, hd⟩ := hk.node_right
      obtain ⟨old, rfl, -⟩ := eq_object_of_denote hd
      rw [all_object] at hv
      rw [JsonValue.uniqueKeys_object] at hj
      rw [freshCovers_object_iff hj.1 hv.1.1, fromJson_object, absorbs_object hv.1]
      refine forall₃_congr fun k g hg => ?_
      obtain ⟨n, hn⟩ := lookup_updateFields ts [] k fields seq
      rw [denoteFields_eq, hn]
      cases hf : lookup Prod.fst k fields with
      | none => simp [denote_ne_absent]
      | some f =>
        have hf' := mem_of_lookup hf
        simpa [updateChild_none lookup_nil] using
          ih f hf' (hj.2 f hf') n (hv.2 g (mem_of_lookup hg))
    · exact iff_of_true (absorbs_of_later (ts_fromJson _ seq) hv hk)
        (freshCovers_of_not_sameKind hk)

/-! ## Updates -/

variable {previous : CrdtValue}

lemma writeCovers_of_isNoop {old : CrdtValue} (h : isNoop previous j = true) :
    writeCovers previous j old = true := by
  unfold writeCovers
  exact if_pos h

variable {pts : HLCTimestamp} {pfs : List (Bytes × CrdtValue)}

lemma writeCovers_object (h : isNoop (.object pts false pfs) (.object fields) = false) :
    writeCovers (.object pts false pfs) (.object fields) (.object t false old) =
      writeCoversFields pfs fields old := by
  exact if_neg (Bool.eq_false_iff.mp h)

variable {pes : List (CrdtArrayElem CrdtValue)} {items : List JsonValue}

lemma writeCovers_array {old : CrdtValue} :
    writeCovers (.array pts false pes) (.array items) old = true := by
  unfold writeCovers
  split_ifs <;> rfl

lemma writeCovers_of_not_sameKind {old : CrdtValue}
    (h : ¬ LwwTree.SameKind (denote (.object pts false pfs)) old.denote) :
    writeCovers (.object pts false pfs) (.object fields) old = true := by
  unfold writeCovers
  split_ifs
  · rfl
  · rcases old with _ | _ | ⟨_, d, fs⟩
    · rfl
    · rfl
    · cases d
      · exact absurd rfl h
      · rfl

lemma writeCovers_replace {old : CrdtValue} (h : isNoop previous j = false)
    (hd : ¬ Diffable previous j) :
    writeCovers previous j old = freshCovers j old := by
  unfold writeCovers
  rw [h]
  rcases previous with _ | ⟨_, d, es⟩ | ⟨_, d, fs⟩
  · rfl
  · cases d <;> cases j <;> first | rfl | exact absurd trivial hd
  · cases d <;> cases j <;> first | rfl | exact absurd trivial hd

/-- The diff of two arrays absorbs whatever the previous array did: every previous element is
still there, with its value, and removed if it was removed. -/
lemma absorbs_updated_array (hp : All (Sound (· < ts)) (.array pts false pes))
    (hc : JsonValue.elemCountItems items ≤ 2 ^ 64) (hv : v.All (Sound (· < ts)))
    (habs : LwwTree.Absorbs (denote (.array pts false pes)) v.denote) :
    LwwTree.Absorbs (denote (.array ts false (updatedElems ts items pes seq))) v.denote := by
  by_cases hk : LwwTree.SameKind (denote (.array pts false pes)) v.denote
  · obtain ⟨t, dead, child, hd⟩ := hk.node_right
    obtain ⟨es, rfl, rfl, rfl⟩ := eq_array_of_denote hd
    have hdist := distinct_updated_array hp.root.1 (fresh_of_lt hp).root hc seq
    rw [denote_array] at habs
    -- Where the old array has an element, so has the previous one, and the diff carries it.
    have hcarry : ∀ k e, lookup CrdtArrayElem.tag k es = some e → ∃ g x,
        lookup CrdtArrayElem.tag k pes = some g ∧
        lookup CrdtArrayElem.tag k (updatedElems ts items pes seq) = some x ∧
        x.value = g.value ∧ (g.tombstone = true → x.tombstone = true) := by
      intro k e he
      cases hg : lookup CrdtArrayElem.tag k pes with
      | none =>
        have h := habs.2.2 k
        rw [denoteElems_eq_absent_iff.mpr hg, absorbs_absent_left,
          denoteElems_eq_absent_iff, he] at h
        exact absurd h (Option.some_ne_none e)
      | some g =>
        obtain ⟨x, hx, htag, hval, hdead⟩ := exists_updated_array (mem_of_lookup hg) ts items seq
        refine ⟨g, x, rfl, (lookup_eq_some_iff hdist).mpr ⟨hx, htag.trans (key_of_lookup hg)⟩,
          hval, hdead⟩
    rw [denote_array]
    refine ⟨hv.root.2.2.le, fun k hk => ?_, fun k => ?_⟩
    · cases he : lookup CrdtArrayElem.tag k es with
      | none =>
        rw [deadTag, he] at hk
        exact absurd hk Bool.false_ne_true
      | some e =>
        obtain ⟨g, x, hg, hx, -, hdead⟩ := hcarry k e he
        have h := habs.2.1 k hk
        rw [deadTag, hg] at h
        rw [deadTag, hx]
        exact hdead h
    · cases he : lookup CrdtArrayElem.tag k es with
      | none =>
        rw [denoteElems_eq_absent_iff.mpr he]
        exact absorbs_absent_right _
      | some e =>
        obtain ⟨g, x, hg, hx, hval, -⟩ := hcarry k e he
        have h := habs.2.2 k
        rw [denoteElems_eq pes, hg] at h
        rw [denoteElems_eq _ k, hx, Option.map_some, hval]
        exact h
  · exact absorbs_of_later rfl hv fun h => hk (sameKind_node.mp h)

/-- **An update absorbs an old copy exactly when it covers it**, provided the previous document
did. -/
lemma absorbs_apply (hp : previous.All (Sound (· < ts))) (hj : j.UniqueKeys)
    (hc : j.elemCount ≤ 2 ^ 64) (seq : UInt64) (hv : v.All (Sound (· < ts)))
    (habs : LwwTree.Absorbs previous.denote v.denote) :
    LwwTree.Absorbs (applyJsonUpdate ts previous j seq).1.denote v.denote ↔
      writeCovers previous j v = true := by
  refine update_induction ts (P := fun previous j w => previous.All (Sound (· < ts)) →
    j.UniqueKeys → j.elemCount ≤ 2 ^ 64 → ∀ v : CrdtValue, v.All (Sound (· < ts)) →
    LwwTree.Absorbs previous.denote v.denote →
    (LwwTree.Absorbs w.denote v.denote ↔ writeCovers previous j v = true))
    ?_ ?_ ?_ ?_ previous j seq hp hj hc v hv habs
  · exact fun previous j hn _ _ _ v _ habs => iff_of_true habs (writeCovers_of_isNoop hn)
  · intro pts pfs fields seq hn ih hp hj hc v hv habs
    by_cases hk : LwwTree.SameKind (denote (.object pts false pfs)) v.denote
    · obtain ⟨t, dead, child, hd⟩ := hk.node_right
      obtain ⟨old, rfl, -⟩ := eq_object_of_denote hd
      rw [all_object] at hp hv
      rw [JsonValue.uniqueKeys_object] at hj
      rw [denote_object] at habs
      rw [writeCovers_object hn, writeCoversFields_iff, absorbs_object hv.1]
      have hkey : ∀ k g, lookup Prod.fst k old = some g →
          (LwwTree.Absorbs (denoteFields (updatedFields ts pfs fields seq) k) g.2.denote ↔
            ∀ f, lookup Prod.fst k fields = some f → ∀ p, lookup Prod.fst k pfs = some p →
              writeCovers p.2 f.2 g.2 = true) := by
        intro k g hg
        have habsk := habs.2.2 k
        have hvg := hv.2 g (mem_of_lookup hg)
        rw [denoteFields_eq, denoteFields_eq, hg] at habsk
        rw [denoteFields_eq]
        rcases updated_object_cases ts pfs k fields seq with ⟨f, hf, p, hp', n, hn⟩ |
          ⟨f, hf, hp', n, hn⟩ | ⟨hf, p, hp', -, hn⟩ | ⟨hf, p, hp', -, hn⟩ | ⟨hf, hp', hn⟩
        · -- The key is updated: the hypothesis for its child.
          rw [hp'] at habsk
          have hfm := mem_of_lookup hf
          obtain rfl := key_of_lookup hf
          have h := ih f hfm p hp' n (hp.2 p (mem_of_lookup hp')) (hj.2 f hfm)
            ((JsonValue.elemCount_le_of_mem_fields hfm).trans hc) g.2 hvg habsk
          rw [hn, hf, hp']
          simpa using h
        · -- A key the previous object lacks is one the old copy lacks.
          rw [hp'] at habsk
          simp [denote_ne_absent] at habsk
        · rw [hp'] at habsk
          rw [hn, hf]
          simpa using habsk
        · rw [hn, hf]
          simpa using absorbs_of_later (w := makeTombstone ts) rfl hvg fun h => h
        · rw [hp'] at habsk
          simp [denote_ne_absent] at habsk
      constructor
      · exact fun h f hf p hp' g hg =>
          (hkey f.1 g hg).mp (h f.1 g hg) f (lookup_of_mem hj.1 hf) p hp'
      · intro h k g hg
        refine (hkey k g hg).mpr fun f hf p hp' => ?_
        obtain rfl := key_of_lookup hf
        exact h f (mem_of_lookup hf) p hp' g hg
    · exact iff_of_true (absorbs_of_later rfl hv fun h => hk (sameKind_node.mp h))
        (writeCovers_of_not_sameKind hk)
  · exact fun pts pes items seq hn hp hj hc v hv habs =>
      iff_of_true (absorbs_updated_array hp hc hv habs) writeCovers_array
  · intro previous j seq hd hn _ hj _ v hv _
    rw [writeCovers_replace hn hd]
    exact absorbs_fromJson hj seq hv

/-! ## The property on the bytes -/

/-- **A write supersedes an old copy exactly when it covers it.**  Let every node of `previous`
and `v` be stamped before `ts`, let equal stamps in the two mean equal writes, and let `previous`
have absorbed `v`.  If `writeCovers previous j v`, then merging `v` into the update, from either
side, gives back the bytes of the update; and, below 4 GiB, only then. -/
theorem update_supersedes_iff {previous : CrdtValue} {j : JsonValue} (seq : UInt64)
    (hp : previous.All (Sound (· < ts))) (hv : v.All (Sound (· < ts)))
    (hagree : StampsAgree previous v) (hj : j.UniqueKeys) (hc : j.elemCount ≤ 2 ^ 64)
    (hlen : previous.encode.length < 2 ^ 32)
    (habs : (merge previous v).encode = previous.encode) :
    let w := (applyJsonUpdate ts previous j seq).1
    (writeCovers previous j v = true →
      (merge w v).encode = w.encode ∧ (merge v w).encode = w.encode) ∧
    (w.encode.length < 2 ^ 32 →
      (merge w v).encode = w.encode ∧ (merge v w).encode = w.encode →
      writeCovers previous j v = true) := by
  intro w
  have hwp := wellFormed_of_sound hp
  have hwv := wellFormed_of_sound hv
  have hww : w.WellFormed := wellFormed_apply hp hj hc seq
  have habs' : LwwTree.Absorbs previous.denote v.denote := by
    rw [absorbs_iff, ← denote_merge hwp hwv]
    exact denote_eq_of_encode_eq (hwp.merge hwv) hwp (habs ▸ hlen) habs
  have hcompat : LwwTree.Compat w.denote v.denote :=
    compat_apply j seq hwp (stampsAgree_iff_compat.mp hagree)
      (avoids_denote (All.mono hv fun _ h => h.2.2.ne))
  have hiff := absorbs_apply hp hj hc seq hv habs'
  refine ⟨fun hcov => ?_, fun hlen' h => ?_⟩
  · have hm := absorbs_iff.mp (hiff.mpr hcov)
    constructor
    · refine encode_eq_of_denote_eq (hww.merge hwv) hww ?_
      rw [denote_merge hww hwv, hm]
    · refine encode_eq_of_denote_eq (hwv.merge hww) hww ?_
      rw [denote_merge hwv hww, ← merge_comm hcompat, hm]
  · rw [← hiff, absorbs_iff, ← denote_merge hww hwv]
    exact denote_eq_of_encode_eq (hww.merge hwv) hww (h.1 ▸ hlen') h.1

end Covers

/-! ## A deleted field that comes back -/

/-- The first version of a document, `{"f": {"x": 1}}`. -/
def firstVersion : CrdtValue :=
  (fromJson ⟨3, 0, [97]⟩ (.object [([102], .object [([120], .scalar (.int 1))])]) 0).1

/-- The same document after the field `f` was deleted. -/
def fieldDeleted : CrdtValue := (applyJsonUpdate ⟨5, 0, [97]⟩ firstVersion (.object []) 0).1

/-- The content that recreates the field, `{"f": {"y": 2}}`. -/
def fieldRecreated : JsonValue := .object [([102], .object [([121], .scalar (.int 2))])]

/-- The document after the field was deleted has absorbed its first version, but once the field
is written again the first version brings back what was deleted with it. -/
theorem deleted_field_returns :
    (merge fieldDeleted firstVersion).encode = fieldDeleted.encode ∧
    let w := (applyJsonUpdate ⟨10, 0, [97]⟩ fieldDeleted fieldRecreated 0).1
    (merge w firstVersion).encode ≠ w.encode ∧
      jsonEquals (merge w firstVersion).toJson (.object [([102], .object
        [([120], .scalar (.int 1)), ([121], .scalar (.int 2))])]) = true := by
  decide +kernel

/-- Written over the live field, the same content supersedes the first version. -/
theorem update_supersedes_first :
    let w := (applyJsonUpdate ⟨10, 0, [97]⟩ firstVersion fieldRecreated 0).1
    (merge w firstVersion).encode = w.encode ∧ (merge firstVersion w).encode = w.encode := by
  have hsound : firstVersion.All (Sound (· < ⟨10, 0, [97]⟩)) :=
    all_sound_fromJson (by decide) (by decide) (by decide) 0
  exact (update_supersedes_iff 0 hsound hsound (stampsAgree_iff_compat.mpr (LwwTree.Compat.refl _))
    (by decide) (by decide) (by decide +kernel) (by decide +kernel)).1 (by decide +kernel)

end CrdtValue

end DeSentry
