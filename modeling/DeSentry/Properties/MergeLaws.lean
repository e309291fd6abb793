import DeSentry.Properties.DocumentCodec

/-!
# Merging two replicas

Two replicas that exchange documents merge them in both orders and merge what they already have
again.  `Merge` breaks ties in favour of its first argument, so neither is harmless by itself;
both are once equal stamps at one place mean one write (`StampsAgree`).  Then merging is
commutative, idempotent and absorbs redelivery, byte for byte (`merge_laws`).

The proof is the one of the abstract trees; this file carries it to the bytes.
-/

namespace DeSentry

open ByteCodec KeyedList

/-- One step down a document: into a field or into an array element. -/
inductive PathStep where
  | key (k : Bytes)
  | tag (t : Bytes)
  deriving DecidableEq, Repr

namespace CrdtValue

/-! ## Paths -/

/-- The child of a live object or array one step down. -/
def child : CrdtValue → PathStep → Option CrdtValue
  | .object _ false fields, .key k => (lookup Prod.fst k fields).map Prod.snd
  | .array _ false elems, .tag t => (lookup CrdtArrayElem.tag t elems).map CrdtArrayElem.value
  | _, _ => none

/-- The node a path leads to. -/
def nodeAt : CrdtValue → List PathStep → Option CrdtValue
  | v, [] => some v
  | v, p :: path => (v.child p).bind fun c => c.nodeAt path

/-- Equal stamps mean equal writes: two nodes at one path with equal stamps are both live objects
or both live arrays, or they are the same scalar or tombstone. -/
def StampsAgree (a b : CrdtValue) : Prop :=
  ∀ path x y, a.nodeAt path = some x → b.nodeAt path = some y → x.ts = y.ts →
    SameContainer x y ∨ x.canon = y.canon

variable {p : PathStep} {x : CrdtValue}

lemma mem_nodes_of_child {v c : CrdtValue} (h : v.child p = some c) (hx : x ∈ c.nodes) :
    x ∈ v.nodes := by
  cases v with
  | scalar ts d s => cases p <;> cases h
  | array ts d elems =>
    cases d <;> cases p <;> simp only [child, reduceCtorEq, Option.map_eq_some_iff] at h
    obtain ⟨e, he, rfl⟩ := h
    rw [nodes, nodesElems_eq]
    exact List.mem_cons_of_mem _ (List.mem_flatMap.mpr ⟨e, mem_of_lookup he, hx⟩)
  | object ts d fields =>
    cases d <;> cases p <;> simp only [child, reduceCtorEq, Option.map_eq_some_iff] at h
    obtain ⟨f, hf, rfl⟩ := h
    rw [nodes, nodesFields_eq]
    exact List.mem_cons_of_mem _ (List.mem_flatMap.mpr ⟨f, mem_of_lookup hf, hx⟩)

lemma mem_nodes_of_nodeAt {v : CrdtValue} {path : List PathStep} (h : v.nodeAt path = some x) :
    x ∈ v.nodes := by
  induction path generalizing v with
  | nil =>
    obtain rfl : v = x := Option.some_injective _ h
    exact v.self_mem_nodes
  | cons p path ih =>
    obtain ⟨c, hc, hx⟩ := Option.bind_eq_some_iff.mp h
    exact mem_nodes_of_child hc (ih hx)

variable {a b : CrdtValue}

/-- Documents without a common stamp agree. -/
lemma stampsAgree_of_disjoint (h : ∀ x ∈ a.nodes, ∀ y ∈ b.nodes, x.ts ≠ y.ts) : StampsAgree a b :=
  fun _ _ _ hx hy hts => absurd hts (h _ (mem_nodes_of_nodeAt hx) _ (mem_nodes_of_nodeAt hy))

lemma StampsAgree.child {c c' : CrdtValue} (h : StampsAgree a b) (hc : a.child p = some c)
    (hc' : b.child p = some c') : StampsAgree c c' := by
  intro path x y hx hy hts
  refine h (p :: path) x y ?_ ?_ hts
  · rw [nodeAt, hc, Option.bind_some, hx]
  · rw [nodeAt, hc', Option.bind_some, hy]

/-! ## From paths to abstract trees -/

lemma SameContainer.elim (h : SameContainer a b) :
    (∃ t t' es es', a = .array t false es ∧ b = .array t' false es') ∨
      ∃ t t' fs fs', a = .object t false fs ∧ b = .object t' false fs' := by
  cases a <;> cases b <;> simp_all [SameContainer]

/-- Equal canonical forms of documents that do not merge piecewise are equal leaves. -/
lemma denote_eq_of_canon_eq (hc : ¬ SameContainer a b) (h : a.canon = b.canon) :
    a.denote = b.denote := by
  have hleaf : a.IsLeaf ∧ b.IsLeaf := by
    cases a <;> cases b <;> simp_all [canon, SameContainer, IsLeaf]
  have hts : a.ts = b.ts := by rw [← ts_canon a, ← ts_canon b, h]
  rw [denote_of_isLeaf hleaf.1, denote_of_isLeaf hleaf.2, h, hts]

lemma StampsAgree.compat (h : StampsAgree a b) :
    LwwTree.Compat a.denote b.denote := by
  induction a, b using merge_induction with
  | whole a b hc =>
    rw [LwwTree.compat_of_not_sameKind fun hk => hc (sameKind_denote.mp hk)]
    intro hs
    rw [stamp_denote, stamp_denote, WithBot.coe_inj] at hs
    exact denote_eq_of_canon_eq hc ((h [] a b rfl rfl hs).resolve_left hc)
  | array ta tb ea eb ih =>
    rw [denote_array]
    intro k
    rw [denoteElems_eq, denoteElems_eq]
    refine LwwTree.compat_getD fun e he g hg => ih e (mem_of_lookup he) g.value ?_
    exact h.child (p := .tag k) (congrArg (Option.map CrdtArrayElem.value) he)
      (congrArg (Option.map CrdtArrayElem.value) hg)
  | object ta tb fa fb ih =>
    rw [denote_object]
    intro k
    rw [denoteFields_eq, denoteFields_eq]
    refine LwwTree.compat_getD fun f hf g hg => ih f (mem_of_lookup hf) g.2 ?_
    exact h.child (p := .key k) (congrArg (Option.map Prod.snd) hf)
      (congrArg (Option.map Prod.snd) hg)

lemma compat_child {c c' : CrdtValue} (h : LwwTree.Compat a.denote b.denote)
    (hc : a.child p = some c) (hc' : b.child p = some c') :
    LwwTree.Compat c.denote c'.denote := by
  cases p with
  | key k =>
    cases a <;> simp only [CrdtValue.child, reduceCtorEq] at hc
    cases b <;> simp only [CrdtValue.child, reduceCtorEq] at hc'
    rename_i ta da fa tb db fb
    cases da <;> cases db <;> simp only [reduceCtorEq] at hc hc'
    obtain ⟨f, hf, rfl⟩ := Option.map_eq_some_iff.mp hc
    obtain ⟨g, hg, rfl⟩ := Option.map_eq_some_iff.mp hc'
    rw [denote_object] at h
    simpa [denoteFields_eq, hf, hg] using h k
  | tag t =>
    cases a <;> simp only [CrdtValue.child, reduceCtorEq] at hc
    cases b <;> simp only [CrdtValue.child, reduceCtorEq] at hc'
    rename_i ta da ea tb db eb
    cases da <;> cases db <;> simp only [reduceCtorEq] at hc hc'
    obtain ⟨e, he, rfl⟩ := Option.map_eq_some_iff.mp hc
    obtain ⟨g, hg, rfl⟩ := Option.map_eq_some_iff.mp hc'
    rw [denote_array] at h
    simpa [denoteElems_eq, he, hg] using h t

/-- Agreement along paths is compatibility of the abstract trees. -/
lemma stampsAgree_iff_compat :
    StampsAgree a b ↔ LwwTree.Compat a.denote b.denote := by
  refine ⟨StampsAgree.compat, fun h path => ?_⟩
  induction path generalizing a b with
  | nil =>
    intro x y hx hy hts
    obtain rfl : a = x := Option.some_injective _ hx
    obtain rfl : b = y := Option.some_injective _ hy
    by_cases hc : SameContainer a b
    · exact Or.inl hc
    · rw [LwwTree.compat_of_not_sameKind fun hk => hc (sameKind_denote.mp hk), stamp_denote,
        stamp_denote, WithBot.coe_inj] at h
      have hd := h hts
      -- Equal trees that are not containers of one kind are leaves.
      have hleaf : a.IsLeaf := by
        by_contra hl
        refine hc (sameKind_denote.mp ?_)
        rw [← hd]
        rcases a.shape_cases with hl' | ⟨t, es, rfl⟩ | ⟨t, fs, rfl⟩
        · exact absurd hl' hl
        · exact rfl
        · exact rfl
      exact Or.inr (canon_eq_of_isLeaf hleaf hd)
  | cons p path ih =>
    intro x y hx hy
    obtain ⟨c, hc, hcx⟩ := Option.bind_eq_some_iff.mp hx
    obtain ⟨c', hc', hcy⟩ := Option.bind_eq_some_iff.mp hy
    exact ih (compat_child h hc hc') x y hcx hcy

/-! ## The laws on the bytes -/

/-- Equal abstract trees are equal bytes. -/
lemma encode_eq_of_denote_eq (ha : a.WellFormed) (hb : b.WellFormed) (h : a.denote = b.denote) :
    a.encode = b.encode := by
  rw [← encode_canon a, ← encode_canon b, canon_eq_of_denote_eq ha hb h]

/-- Below the cast of lengths to 32 bits, equal bytes are equal abstract trees. -/
lemma denote_eq_of_encode_eq (ha : a.WellFormed) (hb : b.WellFormed)
    (hlen : a.encode.length < 2 ^ 32) (h : a.encode = b.encode) : a.denote = b.denote :=
  (canon_eq_iff ha hb).mp ((encode_eq_iff (hlen.trans (by decide))).mp h)

/-- **The laws of `Merge`.**  For documents with distinct keys and tags in which equal stamps mean
equal writes, merging is commutative and idempotent and absorbs redelivery, on the bytes. -/
theorem merge_laws (a b : CrdtValue) (ha : a.WellFormed) (hb : b.WellFormed)
    (h : StampsAgree a b) :
    (merge a b).encode = (merge b a).encode ∧ (merge a a).encode = a.encode ∧
      (merge (merge a b) b).encode = (merge a b).encode := by
  have hab := ha.merge hb
  refine ⟨encode_eq_of_denote_eq hab (hb.merge ha) ?_,
    encode_eq_of_denote_eq (ha.merge ha) ha ?_, encode_eq_of_denote_eq (hab.merge hb) hab ?_⟩
  · rw [denote_merge ha hb, denote_merge hb ha, LwwTree.merge_comm h.compat]
  · rw [denote_merge ha ha, LwwTree.merge_self]
  · rw [denote_merge hab hb, denote_merge ha hb, LwwTree.merge_merge_right]

/-- A document with a nested object, an array and a tombstone. -/
def sampleLeft : CrdtValue :=
  .object ⟨1, 0, [97]⟩ false
    [([120], .array ⟨1, 0, [97]⟩ false [⟨[49], .scalar ⟨1, 0, [97]⟩ false (.int 7), false⟩]),
     ([121], .object ⟨3, 0, [97]⟩ false [([122], .scalar ⟨3, 0, [97]⟩ true .null)])]

/-- The same keys, written elsewhere: an element removed, another added, a kind conflict. -/
def sampleRight : CrdtValue :=
  .object ⟨2, 0, [98]⟩ false
    [([121], .scalar ⟨2, 0, [98]⟩ false (.bool true)),
     ([120], .array ⟨2, 0, [98]⟩ false
       [⟨[50], .scalar ⟨2, 0, [98]⟩ false .null, false⟩,
        ⟨[49], .scalar ⟨2, 1, [98]⟩ false (.int 7), true⟩])]

/-- The laws at two documents that differ in every way a merge distinguishes. -/
theorem merge_laws_sample :
    (merge sampleLeft sampleRight).encode = (merge sampleRight sampleLeft).encode ∧
      (merge sampleLeft sampleLeft).encode = sampleLeft.encode ∧
      (merge (merge sampleLeft sampleRight) sampleRight).encode =
        (merge sampleLeft sampleRight).encode :=
  merge_laws sampleLeft sampleRight (by decide) (by decide)
    (stampsAgree_of_disjoint (by decide))

end CrdtValue

end DeSentry
