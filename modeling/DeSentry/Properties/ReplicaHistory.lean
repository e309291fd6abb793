import DeSentry.Properties.DocumentUpdate

/-!
# Replicas and the order of merging

The documents of a deployment come out of one history of writes and merges: `Produced used pool`
says that `pool` was built by `FromJson`, `ApplyJsonUpdate` and `Merge`, every write under a
stamp of its own, and that `used` are the stamps spent.  In such a pool equal stamps mean equal
writes (`Produced.compat`), so merging is commutative and idempotent throughout.

It is not associative.  A field that is an object on one replica, a scalar on a second and an
object again on a third is resolved as a whole against the scalar and piecewise against the other
object; which happens first decides whether the older object's fields survive
(`merge_not_associative`).  `merge_assoc_iff` states the exact condition on the three documents.
-/

namespace DeSentry

open ByteCodec KeyedList
open List hiding lookup lookup_nil

namespace CrdtValue

/-! ## Writes under fresh stamps -/

section Fresh

variable {ts : HLCTimestamp} {z : DocTree CrdtValue}

lemma avoids_denote {v : CrdtValue} (h : v.All fun x => x.ts ≠ ts) :
    LwwTree.Avoids ts v.denote := by
  have hleaf : ∀ v : CrdtValue, (v.All fun x => x.ts ≠ ts) → v.IsLeaf →
      LwwTree.Avoids ts v.denote := by
    intro v h hl
    rw [denote_of_isLeaf hl]
    exact h.root
  induction v with
  | scalar t d s => exact h.root
  | array t d elems ih =>
    cases d with
    | true => exact hleaf _ h rfl
    | false =>
      rw [all_array] at h
      refine ⟨h.1, fun k => ?_⟩
      rw [denoteElems_eq]
      cases hk : lookup CrdtArrayElem.tag k elems with
      | none => exact trivial
      | some e => exact ih e (mem_of_lookup hk) (h.2 e (mem_of_lookup hk))
  | object t d fields ih =>
    cases d with
    | true => exact hleaf _ h rfl
    | false =>
      rw [all_object] at h
      refine ⟨h.1, fun k => ?_⟩
      rw [denoteFields_eq]
      cases hk : lookup Prod.fst k fields with
      | none => exact trivial
      | some f => exact ih f (mem_of_lookup hk) (h.2 f (mem_of_lookup hk))

lemma compat_fromJson (j : JsonValue) (seq : UInt64) (hz : LwwTree.Avoids ts z) :
    LwwTree.Compat (fromJson ts j seq).1.denote z := by
  induction j generalizing seq z with
  | scalar s => exact hz.compat rfl fun h => h
  | array items ih =>
    rw [fromJson_array]
    refine hz.compat_node fun s dead child hzc k => ?_
    subst hzc
    rw [denoteElems_eq]
    cases hk : lookup CrdtArrayElem.tag k (newElems ts items [] seq) with
    | none => exact LwwTree.compat_absent_left _
    | some e =>
      obtain ⟨-, ⟨x, hx, n, hv⟩, -⟩ := mem_newElems items [] seq (mem_of_lookup hk)
      rw [Option.map_some, hv]
      exact ih x hx n (hz.2 k)
  | object fields ih =>
    rw [fromJson_object]
    refine hz.compat_node fun s dead child hzc k => ?_
    subst hzc
    obtain ⟨n, hn⟩ := lookup_updateFields ts [] k fields seq
    rw [denoteFields_eq, hn]
    cases hk : lookup Prod.fst k fields with
    | none => exact LwwTree.compat_absent_left _
    | some f =>
      rw [Option.map_some]
      exact ih f (mem_of_lookup hk) n (hz.2 k)

/-- An update stays compatible with everything the previous document is compatible with, as
long as its stamp is fresh. -/
lemma compat_apply {previous : CrdtValue} (j : JsonValue) (seq : UInt64)
    (hp : previous.WellFormed) (hc : LwwTree.Compat previous.denote z)
    (hz : LwwTree.Avoids ts z) :
    LwwTree.Compat (applyJsonUpdate ts previous j seq).1.denote z := by
  refine update_induction ts (P := fun previous _ w => previous.WellFormed → ∀ z : DocTree CrdtValue,
    LwwTree.Compat previous.denote z → LwwTree.Avoids ts z → LwwTree.Compat w.denote z)
    ?_ ?_ ?_ ?_ previous j seq hp z hc hz
  · exact fun _ _ _ _ _ hc _ => hc
  · intro pts pfs fields seq _ ih hp z hc hz
    rw [wellFormed_object] at hp
    refine hz.compat_node fun s dead child hzc k => ?_
    subst hzc
    have hck := LwwTree.compat_node.mp hc k
    rw [denoteFields_eq] at hck ⊢
    rcases updated_object_cases ts pfs k fields seq with ⟨f, hf, g, hg, n, hn⟩ |
      ⟨f, hf, hg, n, hn⟩ | ⟨hf, g, hg, -, hn⟩ | ⟨hf, g, hg, -, hn⟩ | ⟨hf, hg, hn⟩
    · rw [hn]
      rw [hg] at hck
      obtain rfl := key_of_lookup hf
      exact ih f (mem_of_lookup hf) g hg n (hp.2 g (mem_of_lookup hg)) _ hck (hz.2 f.1)
    · rw [hn]
      exact compat_fromJson f.2 n (hz.2 k)
    · rw [hn]
      rw [hg] at hck
      exact hck
    · rw [hn]
      exact (hz.2 k).compat rfl fun h => h
    · rw [hn]
      exact LwwTree.compat_absent_left _
  · intro pts pes items seq _ hp z hc hz
    rw [wellFormed_array] at hp
    refine hz.compat_node fun s dead child hzc k => ?_
    subst hzc
    have hck := LwwTree.compat_node.mp hc k
    rw [denoteElems_eq] at hck ⊢
    cases hk : lookup CrdtArrayElem.tag k _ with
    | none => exact LwwTree.compat_absent_left _
    | some e =>
      obtain rfl := key_of_lookup hk
      rcases mem_updated_array ts items pes seq e (mem_of_lookup hk) with
        ⟨g, hg, htag, hval, -⟩ | he
      · rw [htag, lookup_of_mem hp.1 hg] at hck
        rw [Option.map_some, hval, htag]
        exact hck
      · obtain ⟨-, ⟨x, -, n, hv⟩, -⟩ := mem_newElems items _ seq he
        rw [Option.map_some, hv]
        exact compat_fromJson x n (hz.2 e.tag)
  · exact fun _ j seq _ _ _ _ _ hz => compat_fromJson j seq hz

end Fresh

/-! ## Histories -/

/-- `Produced used pool`: the documents of `pool` come out of one history in which every write
has a stamp of its own, `used` being the stamps spent so far.  A write may start from any value
of the tag counter, but does not make it wrap. -/
inductive Produced : List HLCTimestamp → List CrdtValue → Prop
  | empty : Produced [] []
  | fromJson {used pool} (ts : HLCTimestamp) (j : JsonValue) (seq : UInt64)
      (hist : Produced used pool) (fresh : ts ∉ used) (keys : j.UniqueKeys)
      (tags : j.elemCount ≤ 2 ^ 64) : Produced (ts :: used) ((CrdtValue.fromJson ts j seq).1 :: pool)
  | update {used pool} (ts : HLCTimestamp) (previous : CrdtValue) (j : JsonValue) (seq : UInt64)
      (hist : Produced used pool) (mem : previous ∈ pool) (fresh : ts ∉ used)
      (keys : j.UniqueKeys) (tags : j.elemCount ≤ 2 ^ 64) :
      Produced (ts :: used) ((applyJsonUpdate ts previous j seq).1 :: pool)
  | merge {used pool} (a b : CrdtValue) (hist : Produced used pool) (memLeft : a ∈ pool)
      (memRight : b ∈ pool) : Produced used (CrdtValue.merge a b :: pool)

section Histories

variable {used : List HLCTimestamp} {pool : List CrdtValue} {a b c v : CrdtValue}

/-- A stamp outside those in use is fresh for a document. -/
lemma ts_ne_of_sound {ts : HLCTimestamp} (h : v.All (Sound (· ∈ used))) (hts : ts ∉ used) :
    v.All fun x => x.ts ≠ ts :=
  All.mono h fun _ hx he => hts (he ▸ hx.2.2)

lemma ts_merge_of_eq {x y : CrdtValue} (h : x.ts = y.ts) : (CrdtValue.merge x y).ts = x.ts := by
  by_cases hc : SameContainer x y
  · obtain ⟨t, t', es, es', rfl, rfl⟩ | ⟨t, t', fs, fs', rfl, rfl⟩ := hc.elim
    · obtain rfl : t = t' := h
      rw [merge_array]
      exact max_self t
    · obtain rfl : t = t' := h
      rw [merge_object]
      exact max_self t
  · rw [merge_of_not_sameContainer hc, later]
    split_ifs
    · exact h.symm
    · rfl

lemma all_sound_merge {p : HLCTimestamp → Prop} (ha : a.All (Sound p)) (hb : b.All (Sound p)) :
    (CrdtValue.merge a b).All (Sound p) := by
  have hmax : ∀ s t : HLCTimestamp, p s → p t → p (max s t) := fun s t hs ht => by
    rcases max_choice s t with h | h <;> rw [h] <;> assumption
  refine All.merge (fun ta tb ea eb hea heb => ?_) (fun ta tb fa fb hfa hfb => ?_) ha hb
  · rw [merge_array]
    refine ⟨Distinct.join tag_mergeElem hea.1 heb.1, fun e he => ?_, hmax _ _ hea.2.2 heb.2.2⟩
    rcases mem_join he with he | he | ⟨x, hx, y, hy, htag, rfl⟩
    · exact hea.2.1 e he
    · exact heb.2.1 e he
    · -- Two elements of one tag were created by one write, so their values have one stamp.
      obtain ⟨m, hm⟩ := hea.2.1 x hx
      obtain ⟨n, hn⟩ := heb.2.1 y hy
      have hts := (nextTag_inj (hm.symm.trans (htag.symm.trans hn))).1
      refine ⟨m, ?_⟩
      rw [mergeElem, ts_merge_of_eq hts, hm]
  · rw [merge_object]
    exact ⟨Distinct.join key_mergeField hfa.1 hfb.1, trivial, hmax _ _ hfa.2.2 hfb.2.2⟩

/-- Every document of a history is sound. -/
lemma Produced.sound (h : Produced used pool) : ∀ v ∈ pool, v.All (Sound (· ∈ used)) := by
  induction h with
  | empty => exact fun v hv => absurd hv not_mem_nil
  | fromJson ts j seq hist fresh keys tags ih =>
    refine forall_mem_cons.mpr ⟨all_sound_fromJson mem_cons_self keys tags seq, ?_⟩
    exact fun v hv => Sound.mono (ih v hv) fun t ht => mem_cons_of_mem ts ht
  | update ts previous j seq hist mem fresh keys tags ih =>
    have hmono : ∀ v : CrdtValue, v ∈ _ → v.All (Sound _) := fun v hv =>
      Sound.mono (ih v hv) fun t ht => mem_cons_of_mem ts ht
    exact forall_mem_cons.mpr ⟨all_sound_apply mem_cons_self (hmono previous mem)
      (ts_ne_of_sound (ih previous mem) fresh) keys tags seq, hmono⟩
  | merge a b hist ha hb ih => exact forall_mem_cons.mpr ⟨all_sound_merge (ih a ha) (ih b hb), ih⟩

lemma Produced.wellFormed (h : Produced used pool) (ha : a ∈ pool) : a.WellFormed :=
  wellFormed_of_sound (h.sound a ha)

/-- Compatibility of a pool extended by one document. -/
lemma compat_cons (h : ∀ a ∈ pool, ∀ b ∈ pool, LwwTree.Compat a.denote b.denote)
    (hv : ∀ b ∈ pool, LwwTree.Compat v.denote b.denote) :
    ∀ a ∈ v :: pool, ∀ b ∈ v :: pool, LwwTree.Compat a.denote b.denote := by
  intro a ha b hb
  rcases mem_cons.mp ha with rfl | ha' <;> rcases mem_cons.mp hb with rfl | hb'
  · exact LwwTree.Compat.refl _
  · exact hv b hb'
  · exact (hv a ha').symm
  · exact h a ha' b hb'

/-- **In a history equal stamps mean equal writes.** -/
lemma Produced.compat (h : Produced used pool) :
    ∀ a ∈ pool, ∀ b ∈ pool, LwwTree.Compat a.denote b.denote := by
  induction h with
  | empty => exact fun v hv => absurd hv not_mem_nil
  | fromJson ts j seq hist fresh keys tags ih =>
    exact compat_cons ih fun b hb =>
      compat_fromJson j seq (avoids_denote (ts_ne_of_sound (hist.sound b hb) fresh))
  | update ts previous j seq hist mem fresh keys tags ih =>
    exact compat_cons ih fun b hb => compat_apply j seq (hist.wellFormed mem)
      (ih previous mem b hb) (avoids_denote (ts_ne_of_sound (hist.sound b hb) fresh))
  | merge a b hist ha hb ih =>
    refine compat_cons ih fun c hc => ?_
    rw [denote_merge (hist.wellFormed ha) (hist.wellFormed hb)]
    exact (ih a ha c hc).merge_left (ih b hb c hc)

/-! ## Associativity -/

/-- **When the order of merging does not matter.**  For three documents of one history the two
bracketings give the same bytes whenever no place of the tree has an object or array discarded
on one side and merged on the other (`LwwTree.AssocOk`); and, below 4 GiB, only then. -/
theorem merge_assoc_iff (h : Produced used pool) (ha : a ∈ pool) (hb : b ∈ pool)
    (hc : c ∈ pool) :
    (LwwTree.AssocOk a.denote b.denote c.denote →
      (merge (merge a b) c).encode = (merge a (merge b c)).encode) ∧
    ((merge (merge a b) c).encode.length < 2 ^ 32 →
      (merge (merge a b) c).encode = (merge a (merge b c)).encode →
      LwwTree.AssocOk a.denote b.denote c.denote) := by
  have hwa := h.wellFormed ha
  have hwb := h.wellFormed hb
  have hwc := h.wellFormed hc
  have hleft := (hwa.merge hwb).merge hwc
  have hright := hwa.merge (hwb.merge hwc)
  have hiff : (merge (merge a b) c).denote = (merge a (merge b c)).denote ↔
      LwwTree.AssocOk a.denote b.denote c.denote := by
    rw [denote_merge (hwa.merge hwb) hwc, denote_merge hwa hwb,
      denote_merge hwa (hwb.merge hwc), denote_merge hwb hwc]
    exact LwwTree.assoc_iff (h.compat a ha c hc) (h.compat b hb c hc)
  refine ⟨fun hok => encode_eq_of_denote_eq hleft hright (hiff.mpr hok), fun hlen he => ?_⟩
  exact hiff.mp (denote_eq_of_encode_eq hleft hright hlen he)

end Histories

/-! ## The conflict that is not associative -/

/-- A write of `{"f": {"x": 1}}`. -/
def objectFirst : CrdtValue :=
  (fromJson ⟨1, 0, [97]⟩ (.object [([102], .object [([120], .scalar (.int 1))])]) 0).1

/-- A later write of `{"f": 5}` on another node. -/
def scalarBetween : CrdtValue :=
  (fromJson ⟨2, 0, [98]⟩ (.object [([102], .scalar (.int 5))]) 0).1

/-- A still later write of `{"f": {"y": 1}}` on a third node. -/
def objectLast : CrdtValue :=
  (fromJson ⟨3, 0, [99]⟩ (.object [([102], .object [([121], .scalar (.int 1))])]) 0).1

lemma produced_conflict : Produced [⟨3, 0, [99]⟩, ⟨2, 0, [98]⟩, ⟨1, 0, [97]⟩]
    [objectLast, scalarBetween, objectFirst] :=
  .fromJson _ _ _ (.fromJson _ _ _ (.fromJson _ _ _ .empty (by decide) (by decide) (by decide))
    (by decide) (by decide) (by decide)) (by decide) (by decide) (by decide)

/-- Three concurrent first writes of one document, merged in the order of their stamps on one
replica and from the other end on a second, leave the replicas with different bytes. -/
theorem merge_not_associative :
    Produced [⟨3, 0, [99]⟩, ⟨2, 0, [98]⟩, ⟨1, 0, [97]⟩]
      [objectLast, scalarBetween, objectFirst] ∧
    (merge (merge objectFirst scalarBetween) objectLast).encode ≠
      (merge objectFirst (merge scalarBetween objectLast)).encode :=
  ⟨produced_conflict, by decide +kernel⟩

/-- The same three writes are associative when the scalar comes last. -/
theorem merge_assoc_iff_conflict :
    LwwTree.AssocOk objectFirst.denote objectLast.denote scalarBetween.denote ∧
      ¬ LwwTree.AssocOk objectFirst.denote scalarBetween.denote objectLast.denote := by
  constructor
  · exact (merge_assoc_iff produced_conflict (a := objectFirst) (b := objectLast)
      (c := scalarBetween) (by simp) (by simp) (by simp)).2 (by decide +kernel) (by decide +kernel)
  · intro hok
    have hne : (merge (merge objectFirst scalarBetween) objectLast).encode ≠
        (merge objectFirst (merge scalarBetween objectLast)).encode := by decide +kernel
    exact hne ((merge_assoc_iff produced_conflict (by simp) (by simp) (by simp)).1 hok)

end CrdtValue

end DeSentry
