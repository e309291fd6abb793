import DeSentry.Framework.AntiEntropy
import DeSentry.Properties.LostUpdates

/-!
# Documents as they are stored

A row of a collection is the encoding of a document, and reading it back gives the canonical form.
`StoredDoc` is such a document: its keys and tags are distinct, it is in canonical order, and the
decoder accepts its depth.  Two stored documents are equal exactly if their bytes are, and if their
abstract trees are.

A `Copy` is what a replica has of a document, possibly nothing.  With `Copy.merge`, which is what
`MergeRemote` computes, and `Copy.top`, the stamp a digest shows, the copies are an instance of the
anti-entropy library (`tieMerge`), and `reconcilable_iff` reads its condition off the documents.
-/

namespace DeSentry

open ByteCodec KeyedList CrdtValue
open List hiding merge

namespace CrdtValue

/-! ## The newest stamp -/

lemma ite_max_le_iff {s best t : HLCTimestamp} :
    (if s > best then s else best) ≤ t ↔ best ≤ t ∧ s ≤ t := by
  rw [ite_gt_eq_max, max_le_iff]

lemma maxTimestampElems_le_iff {best t : HLCTimestamp} {elems : List (CrdtArrayElem CrdtValue)} :
    maxTimestampElems best elems ≤ t ↔ best ≤ t ∧ ∀ e ∈ elems, e.value.maxTimestamp ≤ t := by
  induction elems generalizing best with
  | nil => simp [maxTimestampElems]
  | cons e es ih =>
    rw [maxTimestampElems, ih, ite_max_le_iff, forall_mem_cons, and_assoc]

lemma maxTimestampFields_le_iff {best t : HLCTimestamp} {fields : List (Bytes × CrdtValue)} :
    maxTimestampFields best fields ≤ t ↔ best ≤ t ∧ ∀ f ∈ fields, f.2.maxTimestamp ≤ t := by
  induction fields generalizing best with
  | nil => simp [maxTimestampFields]
  | cons f fs ih =>
    rw [maxTimestampFields, ih, ite_max_le_iff, forall_mem_cons, and_assoc]

/-- `MaxTimestamp` is the least bound of the stamps in a document. -/
lemma maxTimestamp_le_iff {v : CrdtValue} {t : HLCTimestamp} :
    v.maxTimestamp ≤ t ↔ v.All fun x => x.ts ≤ t := by
  induction v with
  | scalar ts d s => rw [all_scalar]; rfl
  | array ts d elems ih =>
    rw [maxTimestamp, maxTimestampElems_le_iff, all_array]
    exact and_congr_right fun _ => forall₂_congr ih
  | object ts d fields ih =>
    rw [maxTimestamp, maxTimestampFields_le_iff, all_object]
    exact and_congr_right fun _ => forall₂_congr ih

lemma maxTimestamp_canon (v : CrdtValue) : v.canon.maxTimestamp = v.maxTimestamp := by
  refine eq_of_forall_ge_iff fun t => ?_
  induction v with
  | scalar ts d s => rfl
  | array ts d elems ih =>
    rw [canon, maxTimestamp, maxTimestamp, maxTimestampElems_le_iff, maxTimestampElems_le_iff,
      canonElems_eq]
    simp only [mem_sortBy, forall_mem_map]
    exact and_congr_right fun _ => forall₂_congr ih
  | object ts d fields ih =>
    rw [canon, maxTimestamp, maxTimestamp, maxTimestampFields_le_iff, maxTimestampFields_le_iff,
      canonFields_eq]
    simp only [mem_sortBy, forall_mem_map]
    exact and_congr_right fun _ => forall₂_congr ih

/-- No stamp of a merge is new. -/
lemma maxTimestamp_merge_le (a b : CrdtValue) :
    (merge a b).maxTimestamp ≤ max a.maxTimestamp b.maxTimestamp := by
  refine maxTimestamp_le_iff.mpr (All.merge (fun ta tb ea eb ha hb => ?_)
    (fun ta tb fa fb ha hb => ?_) (maxTimestamp_le_iff.mp (le_max_left _ _))
    (maxTimestamp_le_iff.mp (le_max_right _ _)))
  · rw [merge_array]
    exact max_le ha hb
  · rw [merge_object]
    exact max_le ha hb

lemma depth_canon (v : CrdtValue) : v.canon.depth = v.depth := by
  refine eq_of_forall_ge_iff fun n => ?_
  induction v generalizing n with
  | scalar ts d s => rfl
  | array ts d elems ih =>
    rw [canon, depth, depth]
    cases n with
    | zero => simp
    | succ n =>
      rw [Nat.add_le_add_iff_right, Nat.add_le_add_iff_right, depthElems_le, depthElems_le,
        canonElems_eq]
      simp only [mem_sortBy, forall_mem_map]
      exact forall₂_congr fun e he => ih e he n
  | object ts d fields ih =>
    rw [canon, depth, depth]
    cases n with
    | zero => simp
    | succ n =>
      rw [Nat.add_le_add_iff_right, Nat.add_le_add_iff_right, depthFields_le, depthFields_le,
        canonFields_eq]
      simp only [mem_sortBy, forall_mem_map]
      exact forall₂_congr fun f hf => ih f hf n

end CrdtValue

/-! ## Stored documents -/

/-- A document as it is read back from a row. -/
def StoredDoc : Type :=
  { v : CrdtValue // v.WellFormed ∧ v.canon = v ∧ v.depth ≤ kMaxDecodeDepth + 1 }

namespace StoredDoc

/-- The form in which a document is read back. -/
def of (v : CrdtValue) (hwf : v.WellFormed) (hdepth : v.depth ≤ kMaxDecodeDepth + 1) : StoredDoc :=
  ⟨v.canon, hwf.canon, v.canon_canon, by rwa [depth_canon]⟩

variable (a b : StoredDoc)

/-- `Merge` of two stored documents, as it is read back. -/
def merge : StoredDoc :=
  of (CrdtValue.merge a.1 b.1) (a.2.1.merge b.2.1) (depth_merge_le a.2.2.2 b.2.2.2)

/-- The bytes of the row. -/
def bytes : Bytes := a.1.encode

lemma bytes_of {v : CrdtValue} (hwf : v.WellFormed) (hdepth : v.depth ≤ kMaxDecodeDepth + 1) :
    (of v hwf hdepth).bytes = v.encode := encode_canon v

lemma bytes_merge : (a.merge b).bytes = (CrdtValue.merge a.1 b.1).encode := encode_canon _

variable {a b}

lemma decode_bytes (h : a.bytes.length < 2 ^ 32) : decode a.bytes = .ok a.1 := by
  have hdecode : decode a.bytes = .ok a.1.canon := decodeAt_encode a.2.2.2 h
  rw [hdecode, a.2.2.1]

lemma ext_denote (h : a.1.denote = b.1.denote) : a = b := by
  refine Subtype.ext ?_
  rw [← a.2.2.1, ← b.2.2.1, canon_eq_of_denote_eq a.2.1 b.2.1 h]

lemma bytes_inj (hlen : a.bytes.length < 2 ^ 32) : a.bytes = b.bytes ↔ a = b := by
  refine ⟨fun h => ?_, fun h => by rw [h]⟩
  exact ext_denote (denote_eq_of_encode_eq a.2.1 b.2.1 hlen h)

lemma denote_merge : (a.merge b).1.denote = LwwTree.merge a.1.denote b.1.denote := by
  rw [← CrdtValue.denote_merge a.2.1 b.2.1]
  exact denote_canon (a.2.1.merge b.2.1)

end StoredDoc

/-! ## Copies -/

/-- What a replica has of a document. -/
abbrev Copy : Type := Option StoredDoc

namespace Copy

noncomputable instance : DecidableEq StoredDoc := Classical.decEq _

/-- What `MergeRemote` makes of two copies. -/
def merge : Copy → Copy → Copy
  | none, b => b
  | a, none => a
  | some a, some b => some (a.merge b)

/-- The stamp a digest shows. -/
def top : Copy → WithBot HLCTimestamp
  | none => ⊥
  | some d => d.1.maxTimestamp

/-- The abstract tree. -/
def tree : Copy → DocTree CrdtValue
  | none => .absent
  | some d => d.1.denote

variable {a b : Copy}

lemma tree_injective : Function.Injective tree := by
  rintro (_ | a) (_ | b) h
  · rfl
  · exact absurd h.symm (denote_ne_absent b.1)
  · exact absurd h (denote_ne_absent a.1)
  · rw [StoredDoc.ext_denote h]

lemma tree_merge : (merge a b).tree = LwwTree.merge a.tree b.tree := by
  cases a with
  | none => exact (LwwTree.merge_absent_left _).symm
  | some a =>
    cases b with
    | none => exact (LwwTree.merge_absent_right _).symm
    | some b => exact StoredDoc.denote_merge

lemma top_merge_le (a b : Copy) : (merge a b).top ≤ max a.top b.top := by
  cases a with
  | none => exact le_max_right _ _
  | some a =>
    cases b with
    | none => exact le_max_left _ _
    | some b =>
      have hle := maxTimestamp_merge_le a.1 b.1
      rw [← maxTimestamp_canon, ← WithBot.coe_le_coe] at hle
      exact hle

/-- **Copies are an instance of the anti-entropy library.** -/
theorem tieMerge : AntiEntropy.TieMerge merge top where
  merge_self a := tree_injective (by rw [tree_merge, LwwTree.merge_self])
  merge_merge_right a b :=
    tree_injective (by simp only [tree_merge, LwwTree.merge_merge_right])
  merge_merge_left a b :=
    tree_injective (by simp only [tree_merge, LwwTree.merge_merge_left])
  merge_cross a b := tree_injective (by simp only [tree_merge, LwwTree.merge_cross])
  absorbed_symm a b h := tree_injective (by
    rw [tree_merge]
    exact LwwTree.absorbed_symm (by rw [← tree_merge, h]))
  top_merge_le := top_merge_le

/-- **What can be reconciled.**  Two copies of which one is missing always can; two documents, if
equal stamps mean equal writes in them and, unless they are equally new, their merge is as new as
the newer one. -/
theorem reconcilable_iff : AntiEntropy.Reconcilable merge top a b ↔
    ∀ v w : StoredDoc, a = some v → b = some w → StampsAgree v.1 w.1 ∧
      (v.1.maxTimestamp = w.1.maxTimestamp ∨
        (CrdtValue.merge v.1 w.1).maxTimestamp = max v.1.maxTimestamp w.1.maxTimestamp) := by
  unfold AntiEntropy.Reconcilable
  cases a with
  | none =>
    refine iff_of_true ⟨by cases b <;> rfl, Or.inr ?_⟩ nofun
    exact (max_eq_right bot_le).symm
  | some v =>
    cases b with
    | none =>
      refine iff_of_true ⟨rfl, Or.inr ?_⟩ nofun
      exact (max_eq_left bot_le).symm
    | some w =>
      have hcomm : merge (some v) (some w) = merge (some w) (some v) ↔ StampsAgree v.1 w.1 := by
        rw [stampsAgree_iff_compat, ← LwwTree.merge_comm_iff, ← tree_injective.eq_iff, tree_merge,
          tree_merge]
        rfl
      have htop : top (some v) = top (some w) ↔ v.1.maxTimestamp = w.1.maxTimestamp :=
        WithBot.coe_inj
      have hmerge : top (merge (some v) (some w)) = max (top (some v)) (top (some w)) ↔
          (CrdtValue.merge v.1 w.1).maxTimestamp = max v.1.maxTimestamp w.1.maxTimestamp := by
        rw [← maxTimestamp_canon (CrdtValue.merge v.1 w.1)]
        change (((CrdtValue.merge v.1 w.1).canon.maxTimestamp : HLCTimestamp) :
          WithBot HLCTimestamp) = max (v.1.maxTimestamp : WithBot HLCTimestamp) w.1.maxTimestamp ↔ _
        rw [← WithBot.coe_max, WithBot.coe_inj]
      rw [hcomm, htop, hmerge]
      refine ⟨?_, fun h => h v w rfl rfl⟩
      rintro h _ _ ⟨⟩ ⟨⟩
      exact h

end Copy

end DeSentry
