import DeSentry.Properties.DocumentView
import DeSentry.Properties.UpdateSupersedes

/-!
# Concurrent edits of one document

Two nodes edit the same version of a document at once and exchange the results.  A whole-document
write restamps the root, but below it only what changed: an unchanged key keeps the previous
node, so on each key at most one of the two edits has written anything, and merging keeps it.
An array both edits changed is merged tag by tag.

The merged document shows each edit's content up to the order of array items, which is the order
of the tags and not that of either edit.
-/

namespace DeSentry

open ByteCodec KeyedList
open List hiding lookup lookup_cons lookup_eq_none_iff lookup_eq_some_iff

namespace CrdtValue

/-! ## Keys -/

/-- The two objects agree on a key: equal values in the sense of `JsonEquals`, or none. -/
def unchanged (before after : JsonValue) (k : Bytes) : Bool :=
  match before.find k, after.find k with
  | some x, some y => jsonEquals x y
  | none, none => true
  | _, _ => false

/-- The first object shows on a key what the second has there, value or absence. -/
def ShowsAt (shown j : JsonValue) (k : Bytes) : Prop :=
  match j.find k with
  | some x => ∃ y, shown.find k = some y ∧ SameContent y x
  | none => shown.find k = none

variable {fs : List (Bytes × CrdtValue)}

lemma distinct_toJsonFields (h : Distinct Prod.fst fs) :
    Distinct Prod.fst (toJsonFields fs) := by
  rw [toJsonFields_eq, distinct_map fun _ _ => by rfl]
  exact h.filter _

variable {t : HLCTimestamp}

/-- What a live object shows under a key. -/
lemma find_toJson (h : Distinct Prod.fst fs) (k : Bytes) : (toJson (.object t false fs)).find k =
      (lookup Prod.fst k fs).bind fun f => if f.2.tombstone then none else some f.2.toJson := by
  rw [toJson, if_neg Bool.false_ne_true, JsonValue.find, JsonValue.fields]
  induction fs with
  | nil => rfl
  | cons f fs ih =>
    obtain ⟨key, v⟩ := f
    rw [toJsonFields, lookup_cons]
    by_cases hk : key = k
    · subst hk
      cases hd : v.tombstone with
      | false => simp [lookup_cons, hd]
      | true =>
        have hnone : lookup Prod.fst key (toJsonFields fs) = none := by
          rw [lookup_eq_none_iff, toJsonFields_eq]
          refine forall_mem_map.mpr fun g hg => ?_
          exact h.head_ne (mem_filter.mp hg).1
        simp [hnone, hd]
    · rw [if_neg hk]
      cases hd : v.tombstone with
      | false => simpa [lookup_cons, hk] using ih h.tail
      | true => simpa using ih h.tail

lemma uniqueKeys_toJson {v : CrdtValue} (h : v.WellFormed) : v.toJson.UniqueKeys := by
  induction v with
  | scalar ts d s => cases d <;> exact JsonValue.uniqueKeys_scalar _
  | array ts d elems ih =>
    rw [wellFormed_array] at h
    cases d with
    | true => exact JsonValue.uniqueKeys_scalar _
    | false =>
      rw [toJson, if_neg Bool.false_ne_true, JsonValue.uniqueKeys_array, toJsonElems_eq]
      refine forall_mem_map.mpr fun e he => ?_
      have he' := (mem_filter.mp he).1
      exact ih e he' (h.2 e he')
  | object ts d fields ih =>
    rw [wellFormed_object] at h
    cases d with
    | true => exact JsonValue.uniqueKeys_scalar _
    | false =>
      rw [toJson, if_neg Bool.false_ne_true, JsonValue.uniqueKeys_object]
      refine ⟨distinct_toJsonFields h.1, ?_⟩
      rw [toJsonFields_eq]
      refine forall_mem_map.mpr fun f hf => ?_
      have hf' := (mem_filter.mp hf).1
      exact ih f hf' (h.2 f hf')

/-- Objects of the same content show the same on every key: the names of the first are names of
the second, and there are equally many. -/
lemma showsAt_of_sameContent {fs gs : List (Bytes × JsonValue)} (hf : Distinct Prod.fst fs)
    (h : SameContent (.object fs) (.object gs)) (k : Bytes) :
    ShowsAt (.object fs) (.object gs) k := by
  obtain ⟨hlen, hfields⟩ := h
  rw [sameFields_iff] at hfields
  have hsub : fs.map Prod.fst ⊆ gs.map Prod.fst := by
    intro key hkey
    obtain ⟨f, hfm, rfl⟩ := mem_map.mp hkey
    obtain ⟨y, hy, -⟩ := hfields f hfm
    obtain ⟨g, hg, -⟩ := Option.map_eq_some_iff.mp hy
    exact mem_map.mpr ⟨g, mem_of_lookup hg, key_of_lookup hg⟩
  have hperm : (fs.map Prod.fst).Perm (gs.map Prod.fst) :=
    (hf.subperm hsub).perm_of_length_le (by simp [hlen])
  rw [ShowsAt]
  cases hg : (JsonValue.object gs).find k with
  | none =>
    rw [JsonValue.find, Option.map_eq_none_iff, lookup_eq_none_iff] at hg ⊢
    intro f hfm hk
    obtain ⟨g, hgm, he⟩ := mem_map.mp (hsub (mem_map_of_mem hfm))
    exact hg g hgm (he.trans hk)
  | some x =>
    obtain ⟨g, hgk, rfl⟩ := Option.map_eq_some_iff.mp hg
    have hk : k ∈ fs.map Prod.fst :=
      hperm.mem_iff.mpr (mem_map.mpr ⟨g, mem_of_lookup hgk, key_of_lookup hgk⟩)
    obtain ⟨f, hfm, rfl⟩ := mem_map.mp hk
    obtain ⟨y, hy, hc⟩ := hfields f hfm
    rw [hg] at hy
    cases hy
    exact ⟨f.2, JsonValue.find_of_mem hf hfm, hc⟩

/-- What is shown under a key depends only on the abstract tree there. -/
lemma showsAt_congr {t' : HLCTimestamp} {gs : List (Bytes × CrdtValue)} {j : JsonValue} {k : Bytes}
    (hf : WellFormed (.object t false fs)) (hg : WellFormed (.object t' false gs))
    (hd : denoteFields fs k = denoteFields gs k) (h : ShowsAt (toJson (.object t' false gs)) j k) :
    ShowsAt (toJson (.object t false fs)) j k := by
  rw [wellFormed_object] at hf hg
  rw [ShowsAt, find_toJson hg.1] at h
  rw [ShowsAt, find_toJson hf.1]
  cases hl : lookup Prod.fst k gs with
  | none =>
    rw [denoteFields_eq_absent_iff.mpr hl, denoteFields_eq_absent_iff] at hd
    rw [hl] at h
    rw [hd]
    exact h
  | some g =>
    rw [denoteFields_eq gs, hl, Option.map_some, Option.getD_some,
      denoteFields_eq_denote_iff (denote_ne_absent _)] at hd
    obtain ⟨f, hfl, hd⟩ := hd
    have hcanon := canon_eq_of_denote_eq (hf.2 f (mem_of_lookup hfl)) (hg.2 g (mem_of_lookup hl)) hd
    have htomb : f.2.tombstone = g.2.tombstone := by
      rw [← tombstone_canon f.2, hcanon, tombstone_canon]
    rw [hl] at h
    rw [hfl]
    simp only [Option.bind_some, htomb] at h ⊢
    cases hx : j.find k with
    | none =>
      rw [hx] at h
      cases htg : g.2.tombstone with
      | true => rfl
      | false => simp [htg] at h
    | some x =>
      rw [hx] at h
      cases htg : g.2.tombstone with
      | true => simp [htg] at h
      | false =>
        simp only [htg, Bool.false_eq_true, if_false, Option.some.injEq, exists_eq_left'] at h ⊢
        rwa [← sameContent_canon, hcanon, sameContent_canon]

/-! ## What an edit does to a key -/

section Edit

variable {bts ts : HLCTimestamp} {bfs : List (Bytes × CrdtValue)}
  {fields : List (Bytes × JsonValue)}

/-- An edit of an object is an object. -/
lemma apply_object_shape (ts bts : HLCTimestamp) (bfs : List (Bytes × CrdtValue))
    (fields : List (Bytes × JsonValue)) (seq : UInt64) : ∃ t wfs,
    (applyJsonUpdate ts (.object bts false bfs) (.object fields) seq).1 = .object t false wfs := by
  rcases apply_cases ts (.object bts false bfs) (.object fields) seq with ⟨-, h⟩ |
    ⟨_, _, _, -, -, -, h⟩ | ⟨_, _, _, he, -⟩ | ⟨hd, -, -⟩
  · exact ⟨bts, bfs, by rw [h]⟩
  · exact ⟨_, _, by rw [h]⟩
  · cases he
  · exact absurd trivial hd

/-- An edit keeps the node of every key it does not change. -/
lemma denoteFields_of_unchanged {t : HLCTimestamp} {wfs : List (Bytes × CrdtValue)} {seq : UInt64}
    {k : Bytes} (hb : Distinct Prod.fst bfs)
    (hw : (applyJsonUpdate ts (.object bts false bfs) (.object fields) seq).1 = .object t false wfs)
    (hk : unchanged (toJson (.object bts false bfs)) (.object fields) k = true) :
    denoteFields wfs k = denoteFields bfs k := by
  rw [unchanged, find_toJson hb, JsonValue.find, JsonValue.fields] at hk
  rcases apply_cases ts (.object bts false bfs) (.object fields) seq with ⟨-, h⟩ |
    ⟨_, _, _, he, he', -, h⟩ | ⟨_, _, _, he, -⟩ | ⟨hd, -, -⟩
  · rw [h] at hw
    cases hw
    rfl
  · cases he
    cases he'
    rw [h] at hw
    cases hw
    rw [denoteFields_eq, denoteFields_eq]
    rcases updated_object_cases ts bfs k fields seq with ⟨f, hf, g, hg, n, hn⟩ |
      ⟨f, hf, hg, n, hn⟩ | ⟨hf, g, hg, -, hn⟩ | ⟨hf, g, hg, hd, hn⟩ | ⟨hf, hg, hn⟩
    · rw [hf, hg] at hk
      cases hd : g.2.tombstone with
      | true => simp [hd] at hk
      | false =>
        have hnoop : isNoop g.2 f.2 = true := by simpa [isNoop, hd] using hk
        rw [hn, hg, apply_of_isNoop hnoop]
        rfl
    · simp [hf, hg] at hk
    · rw [hn, hg]
    · simp [hf, hg, hd] at hk
    · rw [hn, hg]
  · cases he
  · exact absurd trivial hd

lemma freshCovers_of_not_diffable {v : CrdtValue} {j : JsonValue} (h : ¬ Diffable v j) :
    freshCovers j v = true := by
  rcases v with _ | ⟨_, d, es⟩ | ⟨_, d, fs⟩
  · cases j <;> rfl
  · cases d <;> cases j <;> first | rfl | exact absurd trivial h
  · cases d <;> cases j <;> first | rfl | exact absurd trivial h

/-- A write always covers the document it was applied to. -/
lemma writeCovers_self (v : CrdtValue) (j : JsonValue) : writeCovers v j v = true := by
  refine update_induction v.ts (P := fun v j _ => writeCovers v j v = true) ?_ ?_ ?_ ?_ v j 0
  · exact fun _ _ hn => writeCovers_of_isNoop hn
  · intro pts pfs fields seq hn ih
    rw [writeCovers_object hn, writeCoversFields_iff]
    intro f hf p hp g hg
    rw [hp] at hg
    cases hg
    exact ih f hf p hp 0
  · exact fun _ _ _ _ _ => writeCovers_array
  · intro previous j seq hd hn
    rw [writeCovers_replace hn hd]
    exact freshCovers_of_not_diffable hd

/-- An edit absorbs the document it was made on. -/
lemma absorbs_apply_self {base : CrdtValue} {j : JsonValue} (hb : base.All (Sound (· < ts)))
    (hj : j.UniqueKeys) (hc : j.elemCount ≤ 2 ^ 64) (seq : UInt64) :
    LwwTree.Absorbs (applyJsonUpdate ts base j seq).1.denote base.denote :=
  (absorbs_apply hb hj hc seq hb (LwwTree.absorbs_iff.mpr (LwwTree.merge_self _))).mpr
    (writeCovers_self base j)

/-- Merging an edit with the document it was made on, from either side, gives the edit back. -/
lemma merge_apply_self {base : CrdtValue} {j : JsonValue} (hb : base.All (Sound (· < ts)))
    (hj : j.UniqueKeys) (hc : j.elemCount ≤ 2 ^ 64) (seq : UInt64) :
    let w := (applyJsonUpdate ts base j seq).1
    LwwTree.merge w.denote base.denote = w.denote ∧ LwwTree.merge base.denote w.denote = w.denote := by
  have hself := LwwTree.absorbs_iff.mp (absorbs_apply_self hb hj hc seq)
  refine ⟨hself, ?_⟩
  have hcompat : LwwTree.Compat (applyJsonUpdate ts base j seq).1.denote base.denote :=
    compat_apply j seq (wellFormed_of_sound hb) (LwwTree.Compat.refl _)
      (avoids_denote (All.mono hb fun _ h => h.2.2.ne))
  rw [← LwwTree.merge_comm hcompat, hself]

/-- **An edit of an object, key by key**: it keeps the node of a key it does not change, absorbs
the base from either side, and shows what was written. -/
lemma edit_object (hb : All (Sound (· < ts)) (.object bts false bfs))
    (hj : JsonValue.UniqueKeys (.object fields)) (hc : JsonValue.elemCount (.object fields) ≤ 2 ^ 64)
    (seq : UInt64) : ∃ s wfs,
    (applyJsonUpdate ts (.object bts false bfs) (.object fields) seq).1 = .object s false wfs ∧
    WellFormed (.object s false wfs) ∧ ∀ k,
      (unchanged (toJson (.object bts false bfs)) (.object fields) k = true →
        denoteFields wfs k = denoteFields bfs k) ∧
      LwwTree.merge (denoteFields wfs k) (denoteFields bfs k) = denoteFields wfs k ∧
      LwwTree.merge (denoteFields bfs k) (denoteFields wfs k) = denoteFields wfs k ∧
      ShowsAt (toJson (.object s false wfs)) (.object fields) k := by
  obtain ⟨s, wfs, hw⟩ := apply_object_shape ts bts bfs fields seq
  have hwf := wellFormed_apply hb hj hc seq
  obtain ⟨hright, hleft⟩ := merge_apply_self hb hj hc seq
  have hshow := sameContent_apply ts (.object bts false bfs) hj seq
  rw [hw] at hwf hright hleft hshow
  rw [denote_object, denote_object, LwwTree.merge_node, LwwTree.node.injEq] at hright hleft
  have hd := (wellFormed_object.mp hwf).1
  refine ⟨s, wfs, hw, hwf, fun k => ⟨denoteFields_of_unchanged (wellFormed_object.mp
    (wellFormed_of_sound hb)).1 hw, congrFun hright.2.2.2 k, congrFun hleft.2.2.2 k, ?_⟩⟩
  exact showsAt_of_sameContent (distinct_toJsonFields hd) hshow k

end Edit

/-! ## Arrays -/

/-- The tag is live in an array. -/
def LiveTag (elems : List (CrdtArrayElem CrdtValue)) (tag : Bytes) : Prop :=
  ∃ e ∈ elems, e.tag = tag ∧ e.tombstone = false

/-- An array as an edit under the stamp `ts` leaves it: every base element is still there, removed
if it was removed, and every other element has a tag of the edit's own. -/
def Extends (ts : HLCTimestamp) (base elems : List (CrdtArrayElem CrdtValue)) : Prop :=
  (∀ g ∈ base, ∃ e ∈ elems, e.tag = g.tag ∧ (g.tombstone = true → e.tombstone = true)) ∧
    ∀ e ∈ elems, e.tag ∈ base.map CrdtArrayElem.tag ∨ ∃ n, e.tag = nextTag ts n

/-- What an edit can turn a node into: itself, an update of it, or a tombstone. -/
def Edited (ts : HLCTimestamp) (b w : CrdtValue) : Prop :=
  w = b ∨ (∃ j seq, w = (applyJsonUpdate ts b j seq).1) ∨ w = makeTombstone ts

section Arrays

variable {ts : HLCTimestamp} {b w b' w' : CrdtValue} {p : PathStep}

/-- One step down, an edit of a node is an edit of the child. -/
lemma Edited.child (hb : b.WellFormed) (hfresh : b.All (FreshHere ts)) (h : Edited ts b w)
    (hc : b.child p = some b') (hc' : w.child p = some w') : Edited ts b' w' := by
  rcases h with rfl | ⟨j, seq, rfl⟩ | rfl
  · rw [hc] at hc'
    cases hc'
    exact Or.inl rfl
  · rcases apply_cases ts b j seq with ⟨-, h⟩ | ⟨bts, bfs, fields, rfl, rfl, -, h⟩ |
      ⟨bts, bes, items, rfl, rfl, -, h⟩ | ⟨hd, -, h⟩
    · rw [h, hc] at hc'
      cases hc'
      exact Or.inl rfl
    · cases p with
      | tag t => cases hc
      | key k =>
        rw [h] at hc'
        obtain ⟨g, hg, rfl⟩ := Option.map_eq_some_iff.mp hc
        obtain ⟨x, hx, rfl⟩ := Option.map_eq_some_iff.mp hc'
        rcases updated_object_cases ts bfs k fields seq with ⟨f, -, g', hg', n, hn⟩ |
          ⟨f, -, hg', -⟩ | ⟨-, g', hg', -, hn⟩ | ⟨-, g', -, -, hn⟩ | ⟨-, hg', -⟩
        · cases hg.symm.trans hg'
          cases hx.symm.trans hn
          exact Or.inr (Or.inl ⟨f.2, n, rfl⟩)
        · cases hg.symm.trans hg'
        · cases hg.symm.trans hg'
          cases hx.symm.trans hn
          exact Or.inl rfl
        · cases hx.symm.trans hn
          exact Or.inr (Or.inr rfl)
        · cases hg.symm.trans hg'
    · cases p with
      | key k => cases hc
      | tag t =>
        rw [h] at hc'
        rw [wellFormed_array] at hb
        obtain ⟨g, hg, rfl⟩ := Option.map_eq_some_iff.mp hc
        obtain ⟨x, hx, rfl⟩ := Option.map_eq_some_iff.mp hc'
        have htags : x.tag = g.tag := (key_of_lookup hx).trans (key_of_lookup hg).symm
        rcases mem_updated_array ts items bes seq x (mem_of_lookup hx) with
          ⟨g', hg', htag, hval, -⟩ | hnew
        · obtain rfl := eq_of_key_eq hb.1 hg' (mem_of_lookup hg) (htag.symm.trans htags)
          exact Or.inl hval
        · obtain ⟨-, -, i, -, hi⟩ := mem_newElems items _ seq hnew
          exact absurd (htags.symm.trans hi) (hfresh.root g (mem_of_lookup hg) _)
    · rcases b with _ | ⟨_, _ | _, es⟩ | ⟨_, _ | _, fs⟩ <;> cases p <;> cases j <;>
        first | exact absurd trivial hd | cases hc | cases hc'
  · cases p <;> cases hc'

lemma All.child {q : CrdtValue → Prop} (h : b.All q) (hc : b.child p = some b') : b'.All q :=
  fun x hx => h x (mem_nodes_of_child hc hx)

variable {path : List PathStep} {bes es : List (CrdtArrayElem CrdtValue)} {bt t : HLCTimestamp}
  {d : Bool}

/-- At every place of the document an edit is an edit of what was there. -/
lemma Edited.nodeAt (hb : b.WellFormed) (hfresh : b.All (FreshHere ts)) (h : Edited ts b w)
    (hbp : b.nodeAt path = some b') (hwp : w.nodeAt path = some w') : Edited ts b' w' := by
  induction path generalizing b w with
  | nil =>
    obtain rfl : b = b' := Option.some_injective _ hbp
    obtain rfl : w = w' := Option.some_injective _ hwp
    exact h
  | cons p path ih =>
    obtain ⟨c, hc, hcb⟩ := Option.bind_eq_some_iff.mp hbp
    obtain ⟨c', hc', hcw⟩ := Option.bind_eq_some_iff.mp hwp
    exact ih (All.child hb hc) (hfresh.child hc) (h.child hb hfresh hc hc') hcb hcw

/-- **Where an edit leaves an array**, it extends the one it found there. -/
lemma Edited.extends (h : Edited ts (.array bt d bes) (.array t d es)) : Extends ts bes es := by
  have hrefl : Extends ts bes bes := ⟨fun g hg => ⟨g, hg, rfl, id⟩,
    fun e he => Or.inl (mem_map_of_mem he)⟩
  rcases h with he | ⟨j, seq, he⟩ | he
  · cases he
    exact hrefl
  · rcases apply_cases ts (.array bt d bes) j seq with ⟨-, h⟩ | ⟨_, _, _, hb', -⟩ |
      ⟨_, pes, items, hb', rfl, -, h⟩ | ⟨hd, -, h⟩
    · rw [h] at he
      cases he
      exact hrefl
    · cases hb'
    · cases hb'
      rw [h] at he
      cases he
      refine ⟨fun g hg => ?_, fun e he => ?_⟩
      · obtain ⟨e, he, htag, -, hdead⟩ := exists_updated_array hg ts items seq
        exact ⟨e, he, htag, hdead⟩
      · rcases mem_updated_array ts items bes seq e he with ⟨g, hg, htag, -⟩ | hnew
        · exact Or.inl (htag ▸ mem_map_of_mem hg)
        · obtain ⟨-, -, i, -, hi⟩ := mem_newElems items _ seq hnew
          exact Or.inr ⟨_, hi⟩
    · rw [h] at he
      cases j <;> cases he
      exact absurd trivial hd
  · cases he

lemma child_merge {a a' : CrdtValue} (ha : a.WellFormed) (hb : b.WellFormed)
    (hc : a.child p = some a') (hc' : b.child p = some b') :
    (merge a b).child p = some (merge a' b') := by
  rcases a with _ | ⟨_, _ | _, es⟩ | ⟨_, _ | _, fs⟩ <;> cases p <;>
    simp only [child, reduceCtorEq] at hc <;>
    rcases b with _ | ⟨_, _ | _, es'⟩ | ⟨_, _ | _, fs'⟩ <;>
    simp only [child, reduceCtorEq] at hc'
  · obtain ⟨e, he, rfl⟩ := Option.map_eq_some_iff.mp hc
    obtain ⟨g, hg, rfl⟩ := Option.map_eq_some_iff.mp hc'
    rw [wellFormed_array] at ha hb
    rw [merge_array, child, lookup_join tag_mergeElem ha.1 hb.1, he, hg]
    rfl
  · obtain ⟨f, hf, rfl⟩ := Option.map_eq_some_iff.mp hc
    obtain ⟨g, hg, rfl⟩ := Option.map_eq_some_iff.mp hc'
    rw [wellFormed_object] at ha hb
    rw [merge_object, child, lookup_join key_mergeField ha.1 hb.1, hf, hg]
    rfl

/-- Merging goes down any path that both documents have. -/
lemma nodeAt_merge {a x y : CrdtValue} (ha : a.WellFormed) (hb : b.WellFormed)
    (hx : a.nodeAt path = some x) (hy : b.nodeAt path = some y) :
    (merge a b).nodeAt path = some (merge x y) := by
  induction path generalizing a b with
  | nil =>
    cases Option.some_injective _ hx
    cases Option.some_injective _ hy
    rfl
  | cons p path ih =>
    obtain ⟨c, hc, hcx⟩ := Option.bind_eq_some_iff.mp hx
    obtain ⟨c', hc', hcy⟩ := Option.bind_eq_some_iff.mp hy
    rw [nodeAt, child_merge ha hb hc hc']
    exact ih (All.child ha hc) (All.child hb hc') hcx hcy

lemma liveTag_iff (h : Distinct CrdtArrayElem.tag es) {tag : Bytes} :
    LiveTag es tag ↔ ∃ e, lookup CrdtArrayElem.tag tag es = some e ∧ e.tombstone = false := by
  simp only [LiveTag, lookup_eq_some_iff h, and_assoc]

/-- The live tags of two merged edits of one array. -/
lemma liveTag_join {t₁ t₂ : HLCTimestamp} {es₁ es₂ : List (CrdtArrayElem CrdtValue)} (hne : t₁ ≠ t₂)
    (h₁ : Extends t₁ bes es₁) (h₂ : Extends t₂ bes es₂) (hd₁ : Distinct CrdtArrayElem.tag es₁)
    (hd₂ : Distinct CrdtArrayElem.tag es₂) (tag : Bytes) :
    LiveTag (join CrdtArrayElem.tag mergeElem es₁ es₂) tag ↔
      (LiveTag bes tag ∧ LiveTag es₁ tag ∧ LiveTag es₂ tag) ∨
      (tag ∉ bes.map CrdtArrayElem.tag ∧ (LiveTag es₁ tag ∨ LiveTag es₂ tag)) := by
  rw [liveTag_iff (Distinct.join tag_mergeElem hd₁ hd₂), lookup_join tag_mergeElem hd₁ hd₂,
    liveTag_iff hd₁, liveTag_iff hd₂]
  by_cases htag : tag ∈ bes.map CrdtArrayElem.tag
  · -- A base tag is present on both sides, and live in the base if it is live in an edit.
    obtain ⟨g, hg, rfl⟩ := mem_map.mp htag
    obtain ⟨e₁, he₁, ht₁, hdead₁⟩ := h₁.1 g hg
    obtain ⟨e₂, he₂, ht₂, -⟩ := h₂.1 g hg
    rw [(lookup_eq_some_iff hd₁).mpr ⟨he₁, ht₁⟩, (lookup_eq_some_iff hd₂).mpr ⟨he₂, ht₂⟩]
    have hlive : e₁.tombstone = false → LiveTag bes g.tag := fun h =>
      ⟨g, hg, rfl, Bool.eq_false_iff.mpr fun hg' => Bool.false_ne_true (h ▸ hdead₁ hg')⟩
    simpa [htag, mergeElem] using fun h _ => hlive h
  · -- Any other tag belongs to one edit only.
    have hold : ¬ LiveTag bes tag := by
      rintro ⟨g, hg, ht, -⟩
      exact htag (ht ▸ mem_map_of_mem hg)
    have hown : ∀ {ts es e}, Extends ts bes es → lookup CrdtArrayElem.tag tag es = some e →
        ∃ n, tag = nextTag ts n := by
      intro ts es e h he
      obtain rfl := key_of_lookup he
      exact (h.2 e (mem_of_lookup he)).resolve_left htag
    cases he₁ : lookup CrdtArrayElem.tag tag es₁ with
    | none => simp [hold, htag]
    | some e₁ =>
      cases he₂ : lookup CrdtArrayElem.tag tag es₂ with
      | none => simp [hold, htag]
      | some e₂ =>
        obtain ⟨m, hm⟩ := hown h₁ he₁
        obtain ⟨n, hn⟩ := hown h₂ he₂
        exact absurd (nextTag_inj (hm.symm.trans hn)).1 hne

end Arrays

/-! ## Two edits -/

section Edits

variable {bts t₁ t₂ : HLCTimestamp} {bfs : List (Bytes × CrdtValue)}
  {fs₁ fs₂ : List (Bytes × JsonValue)}

/-- **Concurrent edits survive.**  Two edits `j₁` and `j₂` of an object document, under distinct
stamps later than all of its own, are merged.  If no key is changed by both, the result shows
`j₁` on the keys `j₁` changes, `j₂` on the keys `j₂` changes and the base elsewhere, up to the
order of array items.  And wherever both edits leave an array of the base as an array, the live
tags of the result are the live base tags that both keep and the new tags of each. -/
theorem concurrent_edits_survive (seq₁ seq₂ : UInt64)
    (hb₁ : All (Sound (· < t₁)) (.object bts false bfs))
    (hb₂ : All (Sound (· < t₂)) (.object bts false bfs)) (hne : t₁ ≠ t₂)
    (hj₁ : JsonValue.UniqueKeys (.object fs₁)) (hj₂ : JsonValue.UniqueKeys (.object fs₂))
    (hc₁ : JsonValue.elemCount (.object fs₁) ≤ 2 ^ 64)
    (hc₂ : JsonValue.elemCount (.object fs₂) ≤ 2 ^ 64) :
    let base := CrdtValue.object bts false bfs
    let w₁ := (applyJsonUpdate t₁ base (.object fs₁) seq₁).1
    let w₂ := (applyJsonUpdate t₂ base (.object fs₂) seq₂).1
    let m := merge w₁ w₂
    ((∀ k, unchanged base.toJson (.object fs₁) k = true ∨
        unchanged base.toJson (.object fs₂) k = true) → ∀ k,
      (unchanged base.toJson (.object fs₁) k = false → ShowsAt m.toJson (.object fs₁) k) ∧
      (unchanged base.toJson (.object fs₂) k = false → ShowsAt m.toJson (.object fs₂) k) ∧
      (unchanged base.toJson (.object fs₁) k = true →
        unchanged base.toJson (.object fs₂) k = true → ShowsAt m.toJson base.toJson k)) ∧
    ∀ path bt bes s₁ es₁ s₂ es₂, base.nodeAt path = some (.array bt false bes) →
      w₁.nodeAt path = some (.array s₁ false es₁) → w₂.nodeAt path = some (.array s₂ false es₂) →
      ∃ s es, m.nodeAt path = some (.array s false es) ∧ ∀ tag, LiveTag es tag ↔
        (LiveTag bes tag ∧ LiveTag es₁ tag ∧ LiveTag es₂ tag) ∨
        (tag ∉ bes.map CrdtArrayElem.tag ∧ (LiveTag es₁ tag ∨ LiveTag es₂ tag)) := by
  intro base w₁ w₂ m
  have hwf : base.WellFormed := wellFormed_of_sound hb₁
  refine ⟨fun hdisj k => ?_, fun path bt bes s₁ es₁ s₂ es₂ hbp h₁ h₂ => ?_⟩
  · obtain ⟨s₁, wfs₁, hw₁, hwf₁, hk₁⟩ := edit_object hb₁ hj₁ hc₁ seq₁
    obtain ⟨s₂, wfs₂, hw₂, hwf₂, hk₂⟩ := edit_object hb₂ hj₂ hc₂ seq₂
    obtain ⟨hkeep₁, hright₁, -, hshow₁⟩ := hk₁ k
    obtain ⟨hkeep₂, -, hleft₂, hshow₂⟩ := hk₂ k
    have hm : m = .object (max s₁ s₂) false (join Prod.fst mergeField wfs₁ wfs₂) := by
      rw [← merge_object, ← hw₁, ← hw₂]
    have hmwf := hwf₁.merge hwf₂
    rw [merge_object] at hmwf
    have hmk : denoteFields (join Prod.fst mergeField wfs₁ wfs₂) k =
        LwwTree.merge (denoteFields wfs₁ k) (denoteFields wfs₂ k) := by
      rw [wellFormed_object] at hwf₁ hwf₂
      exact denote_join_fields hwf₁.1 hwf₂.1
        (fun f hf g hg => denote_merge (hwf₁.2 f hf) (hwf₂.2 g hg)) k
    -- A key one edit leaves alone has the node of the other.
    have hfirst : unchanged base.toJson (.object fs₂) k = true →
        denoteFields (join Prod.fst mergeField wfs₁ wfs₂) k = denoteFields wfs₁ k := fun h => by
      rw [hmk, hkeep₂ h, hright₁]
    have hsecond : unchanged base.toJson (.object fs₁) k = true →
        denoteFields (join Prod.fst mergeField wfs₁ wfs₂) k = denoteFields wfs₂ k := fun h => by
      rw [hmk, hkeep₁ h, hleft₂]
    rw [hm]
    refine ⟨fun h => ?_, fun h => ?_, fun h h' => ?_⟩
    · have h₂ := (hdisj k).resolve_left (Bool.eq_false_iff.mp h)
      exact showsAt_congr hmwf hwf₁ (hfirst h₂) hshow₁
    · have h₁ := (hdisj k).resolve_right (Bool.eq_false_iff.mp h)
      exact showsAt_congr hmwf hwf₂ (hsecond h₁) hshow₂
    · refine showsAt_congr hmwf hwf ((hfirst h').trans (hkeep₁ h)) ?_
      exact showsAt_of_sameContent (distinct_toJsonFields (wellFormed_object.mp hwf).1)
        (sameContent_refl (uniqueKeys_toJson hwf)) k
  · have hwf₁ := wellFormed_apply hb₁ hj₁ hc₁ seq₁
    have hwf₂ := wellFormed_apply hb₂ hj₂ hc₂ seq₂
    have hx₁ := (Edited.nodeAt hwf (fresh_of_lt hb₁) (Or.inr (Or.inl ⟨_, seq₁, rfl⟩)) hbp h₁).extends
    have hx₂ := (Edited.nodeAt hwf (fresh_of_lt hb₂) (Or.inr (Or.inl ⟨_, seq₂, rfl⟩)) hbp h₂).extends
    have hd₁ := (hwf₁ _ (mem_nodes_of_nodeAt h₁))
    have hd₂ := (hwf₂ _ (mem_nodes_of_nodeAt h₂))
    have hmp := nodeAt_merge hwf₁ hwf₂ h₁ h₂
    rw [merge_array] at hmp
    exact ⟨_, _, hmp, liveTag_join hne hx₁ hx₂ hd₁ hd₂⟩

end Edits

/-! ## The order of array items -/

/-- A document with an empty array `x` and a number `y`. -/
def emptyArrayDoc : CrdtValue :=
  .object ⟨1, 0, [97]⟩ false
    [([120], .array ⟨1, 0, [97]⟩ false []), ([121], .scalar ⟨1, 0, [97]⟩ false (.int 1))]

/-- The document's content with two items in the array. -/
def twoItems : List (Bytes × JsonValue) :=
  [([120], .array [.scalar (.int 1), .scalar (.int 2)]), ([121], .scalar (.int 1))]

/-- The document's content without the number. -/
def noNumber : List (Bytes × JsonValue) := [([120], .array [])]

/-- The order of array items is not kept: an edit that writes `[1, 2]` when nine tags have been
drawn, merged with a concurrent edit of another key, is shown as `[2, 1]`, since its tags end in
`#9` and `#10`. -/
theorem array_order_lost :
    let w₁ := (applyJsonUpdate ⟨2, 0, [97]⟩ emptyArrayDoc (.object twoItems) 9).1
    let w₂ := (applyJsonUpdate ⟨3, 0, [98]⟩ emptyArrayDoc (.object noNumber) 0).1
    jsonEquals (merge w₁ w₂).toJson
      (.object [([120], .array [.scalar (.int 2), .scalar (.int 1)])]) = true ∧
    ∀ x ∈ (merge w₁ w₂).toJson.find [120],
      jsonEquals x (.array [.scalar (.int 1), .scalar (.int 2)]) = false := by
  decide +kernel

/-- The same two edits as the general result has them. -/
theorem concurrent_edits_sample :
    let w₁ := (applyJsonUpdate ⟨2, 0, [97]⟩ emptyArrayDoc (.object twoItems) 9).1
    let w₂ := (applyJsonUpdate ⟨3, 0, [98]⟩ emptyArrayDoc (.object noNumber) 0).1
    ShowsAt (merge w₁ w₂).toJson (.object twoItems) [120] ∧
      ShowsAt (merge w₁ w₂).toJson (.object noNumber) [121] := by
  have hsound : ∀ t : HLCTimestamp, ⟨1, 0, [97]⟩ < t → emptyArrayDoc.All (Sound (· < t)) := by
    intro t ht
    refine all_object.mpr ⟨⟨by decide, trivial, ht⟩, ?_⟩
    refine forall_mem_cons.mpr ⟨?_, forall_mem_singleton.mpr ?_⟩
    · exact all_array.mpr ⟨⟨by decide, by simp [StampedHere], ht⟩, by simp⟩
    · exact all_scalar.mpr ⟨trivial, trivial, ht⟩
  have h := (@concurrent_edits_survive _ _ _ _ twoItems noNumber 9 0
    (hsound ⟨2, 0, [97]⟩ (by decide)) (hsound ⟨3, 0, [98]⟩ (by decide)) (by decide) (by decide)
    (by decide) (by decide) (by decide)).1
  have hdisj : ∀ k, unchanged emptyArrayDoc.toJson (.object twoItems) k = true ∨
      unchanged emptyArrayDoc.toJson (.object noNumber) k = true := by
    intro k
    by_cases hk : k = [120]
    · subst hk
      exact Or.inr (by decide +kernel)
    · by_cases hk' : k = [121]
      · subst hk'
        exact Or.inl (by decide +kernel)
      · refine Or.inl ?_
        simp [unchanged, JsonValue.find, JsonValue.fields, twoItems, emptyArrayDoc, toJson,
          toJsonFields, tombstone, lookup_cons, Ne.symm hk, Ne.symm hk']
  exact ⟨(h hdisj [120]).1 (by decide +kernel), (h hdisj [121]).2.1 (by decide +kernel)⟩

end CrdtValue

end DeSentry
