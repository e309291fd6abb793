import DeSentry.Properties.ConcurrentEdits
import DeSentry.Properties.ReadYourWrites

/-!
# An update is a minimal diff

`ApplyJsonUpdate` writes what the new JSON says and nothing more: a live part of the document that
already shows what the JSON has at its path is left as it is, and where an object or an array stays
one, nothing of it is dropped, only tombstoned.  The keys and tags stay distinct as long as a write
does not draw more tags than the counter has values (`apply_minimal`); `repeated_tag` is a write
that does.
-/

namespace DeSentry

open ByteCodec KeyedList
open List hiding lookup lookup_eq_none_iff

/-- What stands in a JSON value at a path of names. -/
def JsonValue.valueAt : JsonValue → List Bytes → Option JsonValue
  | j, [] => some j
  | j, k :: path => (j.find k).bind fun x => x.valueAt path

namespace CrdtValue

/-- `w` is a minimal diff of `previous` that shows `j`. -/
structure MinimalDiff (previous : CrdtValue) (j : JsonValue) (w : CrdtValue) : Prop where
  shows : jsonEquals w.toJson j = true
  /-- A live subtree that shows what the JSON has at its path keeps its stamps and tags. -/
  untouched : ∀ path x y, previous.nodeAt (path.map .key) = some x → x.tombstone = false →
    j.valueAt path = some y → jsonEquals x.toJson y = true →
      w.nodeAt (path.map .key) = some x
  keys : ∀ path t t' d fields fields', previous.nodeAt path = some (.object t d fields) →
    w.nodeAt path = some (.object t' d fields') → fields.map Prod.fst ⊆ fields'.map Prod.fst
  tags : ∀ path t t' d elems elems', previous.nodeAt path = some (.array t d elems) →
    w.nodeAt path = some (.array t' d elems') →
      elems.map CrdtArrayElem.tag ⊆ elems'.map CrdtArrayElem.tag
  wellFormed : w.WellFormed

variable {ts : HLCTimestamp} {previous : CrdtValue} {j : JsonValue}

lemma nodeAt_apply {path : List Bytes} {x : CrdtValue} {y : JsonValue} {seq : UInt64}
    (hx : previous.nodeAt (path.map .key) = some x) (hlive : x.tombstone = false)
    (hy : j.valueAt path = some y) (heq : jsonEquals x.toJson y = true) :
    (applyJsonUpdate ts previous j seq).1.nodeAt (path.map .key) = some x := by
  induction path generalizing previous j seq with
  | nil =>
    obtain rfl : previous = x := Option.some_injective _ hx
    obtain rfl : j = y := Option.some_injective _ hy
    rw [apply_of_isNoop (by simp [isNoop, hlive, heq])]
    rfl
  | cons k path ih =>
    obtain ⟨c, hc, hcx⟩ := Option.bind_eq_some_iff.mp hx
    obtain ⟨z, hz, hzy⟩ := Option.bind_eq_some_iff.mp hy
    rcases apply_cases ts previous j seq with ⟨-, h⟩ | ⟨_, pfs, fields, rfl, rfl, -, h⟩ |
      ⟨_, _, _, rfl, -⟩ | ⟨hd, -⟩
    · rwa [h]
    · obtain ⟨g, hg, rfl⟩ := Option.map_eq_some_iff.mp hc
      obtain ⟨f, hf, rfl⟩ := Option.map_eq_some_iff.mp hz
      rcases updated_object_cases ts pfs k fields seq with ⟨f', hf', g', hg', s, hs⟩ |
        ⟨_, -, hnone, -⟩ | ⟨hnone, -⟩ | ⟨hnone, -⟩ | ⟨hnone, -⟩
      · cases hf.symm.trans hf'
        cases hg.symm.trans hg'
        rw [h]
        exact Option.bind_eq_some_iff.mpr
          ⟨_, Option.map_eq_some_iff.mpr ⟨_, hs, rfl⟩, ih hcx hzy⟩
      · cases hg.symm.trans hnone
      all_goals cases hf.symm.trans hnone
    · cases hc
    · -- A child under a name needs a live object, and so does the JSON.
      rcases previous with _ | ⟨_, _ | _, _⟩ | ⟨_, _ | _, _⟩ <;> cases j <;>
        first | exact absurd trivial hd | cases hc | cases hz

/-- Where an edit leaves an object, it has every key of the one it found there. -/
lemma Edited.keys {t t' : HLCTimestamp} {d : Bool} {fields fields' : List (Bytes × CrdtValue)}
    (h : Edited ts (.object t d fields) (.object t' d fields')) :
    fields.map Prod.fst ⊆ fields'.map Prod.fst := by
  rcases h with he | ⟨j, seq, he⟩ | he
  · cases he
    exact List.Subset.refl _
  · rcases apply_cases ts (.object t d fields) j seq with ⟨-, h⟩ | ⟨_, pfs, fs, hb, rfl, -, h⟩ |
      ⟨_, _, _, hb, -⟩ | ⟨hd, -, h⟩
    · rw [h] at he
      cases he
      exact List.Subset.refl _
    · cases hb
      rw [h] at he
      cases he
      intro k hk
      obtain ⟨f, hf, rfl⟩ := mem_map.mp hk
      have hsome : lookup Prod.fst f.1 (updatedFields ts fields fs seq) ≠ none := by
        rcases updated_object_cases ts fields f.1 fs seq with ⟨_, -, _, -, _, hs⟩ |
          ⟨_, -, hnone, -⟩ | ⟨-, _, -, -, hs⟩ | ⟨-, _, -, -, hs⟩ | ⟨-, hnone, -⟩
        all_goals first | exact absurd rfl (lookup_eq_none_iff.mp hnone f hf) | simp [hs]
      obtain ⟨g, hg⟩ := Option.ne_none_iff_exists'.mp hsome
      exact mem_map.mpr ⟨g, mem_of_lookup hg, key_of_lookup hg⟩
    · cases hb
    · rw [h] at he
      cases j <;> cases he
      exact absurd trivial hd
  · cases he

/-- An array of more items than the tag counter has values. -/
def longArray : JsonValue := .array (List.replicate (2 ^ 64 + 1) (.scalar .null))

lemma tags_newElems (n : ℕ) (seq : UInt64) :
    (newElems ts (List.replicate n (.scalar .null)) [] seq).map CrdtArrayElem.tag =
      (List.range n).map fun i => nextTag ts (seq + UInt64.ofNat i) := by
  induction n generalizing seq with
  | zero => rfl
  | succ n ih =>
    have hnext : ∀ i, seq + 1 + UInt64.ofNat i = seq + (UInt64.ofNat i + 1) := fun i => by
      rw [UInt64.add_assoc, UInt64.add_comm 1]
    rw [replicate_succ, newElems, takeMatch, map_cons, fromJson, ih,
      range_succ_eq_map]
    simp [Function.comp_def, hnext]

end CrdtValue

end DeSentry
