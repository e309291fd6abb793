import Mathlib

/-!
# Last-writer-wins trees

A replicated tree whose leaves are registers and whose inner nodes are maps.  A leaf is decided
by its stamp as a whole.  A node has a kind and, per key, a child and a removal flag; two nodes
of one kind merge key by key, and removal is sticky.  Two trees that do not agree on their shape
are decided by their stamps as wholes, the loser being discarded with everything below it.

The mixture of the two rules is what this file is about.  `merge` is commutative where equal
stamps mean equal writes (`merge_comm`), it is idempotent and absorbs redelivery, but it is not
associative: a node that loses a shape conflict is discarded with its children on one bracketing
and merged piecewise on the other.  `assoc_iff` says exactly when the two bracketings agree.

`Absorbs a b` says, without mentioning `merge`, that `b` holds nothing `a` does not already
have; `absorbs_iff` identifies it with `merge a b = a`.  What a tree has absorbed, a merge into it
can bring back: `absorbs_merge_iff` says when it does not.
-/

set_option linter.unusedSectionVars false

/-- A tree over keys `K`, stamps `S`, leaf payloads `V` and node kinds `C`. -/
inductive LwwTree (K S V C : Type*) where
  /-- Nothing was ever written here. -/
  | absent
  | leaf (s : S) (v : V)
  | node (s : S) (c : C) (dead : K → Bool) (child : K → LwwTree K S V C)

namespace LwwTree

variable {K S V C : Type*} [LinearOrder S] [DecidableEq C]

/-- The stamp of the root; below every stamp when nothing was written. -/
def stamp : LwwTree K S V C → WithBot S
  | absent => ⊥
  | leaf s _ => s
  | node s _ _ _ => s

/-- Both trees are nodes of the same kind. -/
def SameKind : LwwTree K S V C → LwwTree K S V C → Prop
  | node _ c _ _, node _ c' _ _ => c = c'
  | _, _ => False

instance : DecidableRel (SameKind (K := K) (S := S) (V := V) (C := C)) := fun a b => by
  cases a <;> cases b <;> unfold SameKind <;> infer_instance

/-- Whole-tree last-writer-wins; a tie keeps the first argument. -/
def newer (a b : LwwTree K S V C) : LwwTree K S V C := if a.stamp < b.stamp then b else a

/-- Merge of two trees. -/
def merge : LwwTree K S V C → LwwTree K S V C → LwwTree K S V C
  | node s c dead child, node s' c' dead' child' =>
    if c = c' then
      node (max s s') c (fun k => dead k || dead' k) fun k => merge (child k) (child' k)
    else newer (node s c dead child) (node s' c' dead' child')
  | a, b => newer a b

/-- Equal stamps at the same place mean the same write: of two trees that are not nodes of one
kind, equally stamped ones are equal, and so recursively below nodes of one kind. -/
def Compat : LwwTree K S V C → LwwTree K S V C → Prop
  | node s c _ child, node s' c' _ child' =>
    if c = c' then ∀ k, Compat (child k) (child' k) else s ≠ s'
  | a, b => a.stamp = b.stamp → a = b

/-- `a` already contains everything `b` has. -/
def Absorbs : LwwTree K S V C → LwwTree K S V C → Prop
  | node s c dead child, node s' c' dead' child' =>
    if c = c' then
      s' ≤ s ∧ (∀ k, dead' k = true → dead k = true) ∧ ∀ k, Absorbs (child k) (child' k)
    else s' ≤ s
  | a, b => b.stamp ≤ a.stamp

/-- The stamp occurs nowhere in the tree. -/
def Avoids (t : S) : LwwTree K S V C → Prop
  | absent => True
  | leaf s _ => s ≠ t
  | node s _ _ child => s ≠ t ∧ ∀ k, Avoids t (child k)

/-- No node is discarded on one bracketing of three trees and merged on the other, unless the
discarded one brought nothing.  Each clause is one way two nodes of a kind can be separated by a
third tree of another shape whose stamp lies between theirs. -/
def NothingLost (a b c : LwwTree K S V C) : Prop :=
  (SameKind a b → b.stamp < c.stamp → c.stamp ≤ a.stamp → Absorbs a b) ∧
  (SameKind a c → a.stamp < b.stamp → b.stamp < c.stamp → Absorbs c a) ∧
  (SameKind a c → b.stamp ≤ a.stamp → c.stamp ≤ b.stamp → Absorbs a c) ∧
  (SameKind b c → b.stamp ≤ a.stamp → a.stamp < c.stamp → Absorbs c b)

/-- The condition under which three trees merge associatively: at every place where the three
are not nodes of one kind, `NothingLost`. -/
def AssocOk : LwwTree K S V C → LwwTree K S V C → LwwTree K S V C → Prop
  | node s₁ c₁ d₁ f₁, node s₂ c₂ d₂ f₂, node s₃ c₃ d₃ f₃ =>
    if c₁ = c₂ ∧ c₂ = c₃ then ∀ k, AssocOk (f₁ k) (f₂ k) (f₃ k)
    else NothingLost (node s₁ c₁ d₁ f₁) (node s₂ c₂ d₂ f₂) (node s₃ c₃ d₃ f₃)
  | a, b, c => NothingLost a b c

/-- Merging `b` into `a` does not make room for `c` again: at every place where `b` replaces `a` as
a whole, `b` has absorbed `c`. -/
def Spares : LwwTree K S V C → LwwTree K S V C → LwwTree K S V C → Prop
  | node s₁ c₁ d₁ f₁, node s₂ c₂ d₂ f₂, node s₃ c₃ d₃ f₃ =>
    if c₁ = c₂ then c₂ = c₃ → ∀ k, Spares (f₁ k) (f₂ k) (f₃ k)
    else (node s₁ c₁ d₁ f₁).stamp < (node s₂ c₂ d₂ f₂).stamp →
      Absorbs (node s₂ c₂ d₂ f₂) (node s₃ c₃ d₃ f₃)
  | a, b, c => ¬ SameKind a b → a.stamp < b.stamp → Absorbs b c

/-! ## The two rules of `merge` -/

section Rules

variable {a b c : LwwTree K S V C} {s s' : S} {d : C} {dead dead' : K → Bool}
  {child child' : K → LwwTree K S V C}

lemma merge_node : merge (node s d dead child) (node s' d dead' child') =
    node (max s s') d (fun k => dead k || dead' k) fun k => merge (child k) (child' k) := by
  simp [merge]

lemma merge_of_not_sameKind (h : ¬ SameKind a b) : merge a b = newer a b := by
  cases a <;> cases b <;> simp_all [merge, SameKind]

lemma compat_node : Compat (node s d dead child) (node s' d dead' child') ↔
    ∀ k, Compat (child k) (child' k) := by
  simp [Compat]

lemma compat_of_not_sameKind (h : ¬ SameKind a b) : Compat a b ↔ (a.stamp = b.stamp → a = b) := by
  cases a <;> cases b <;> simp_all [Compat, SameKind, stamp]

lemma absorbs_node : Absorbs (node s d dead child) (node s' d dead' child') ↔
    s' ≤ s ∧ (∀ k, dead' k = true → dead k = true) ∧ ∀ k, Absorbs (child k) (child' k) := by
  simp [Absorbs]

lemma absorbs_of_not_sameKind (h : ¬ SameKind a b) : Absorbs a b ↔ b.stamp ≤ a.stamp := by
  cases a <;> cases b <;> simp_all [Absorbs, SameKind, stamp]

/-- Two trees of one kind are nodes of that kind. -/
lemma SameKind.elim (h : SameKind a b) : ∃ s s' d dead dead' child child',
    a = node s d dead child ∧ b = node s' d dead' child' := by
  cases a <;> cases b <;> simp_all [SameKind]

/-- A tree of the kind of a node is a node of that kind. -/
lemma SameKind.node_right (h : SameKind (node s d dead child) b) :
    ∃ s' dead' child', b = node s' d dead' child' := by
  cases b <;> simp_all [SameKind]

lemma SameKind.symm (h : SameKind a b) : SameKind b a := by
  cases a <;> cases b <;> simp_all [SameKind]

/-- Only the kind of a node matters. -/
lemma sameKind_node : SameKind (node s d dead child) b ↔ SameKind (node s' d dead' child') b := by
  cases b <;> rfl

lemma SameKind.trans (hab : SameKind a b) (hbc : SameKind b c) : SameKind a c := by
  cases a <;> cases b <;> cases c <;> simp_all [SameKind]

/-- **Pairwise induction**: a property of two trees holds when it holds off the diagonal of
kinds and passes from the children to nodes of one kind. -/
lemma pair_induction {P : LwwTree K S V C → LwwTree K S V C → Prop}
    (whole : ∀ a b, ¬ SameKind a b → P a b)
    (nodes : ∀ s s' d dead dead' child child', (∀ k, P (child k) (child' k)) →
      P (node s d dead child) (node s' d dead' child')) (a b : LwwTree K S V C) : P a b := by
  induction a generalizing b with
  | absent => exact whole _ _ fun h => h
  | leaf s v => exact whole _ _ fun h => h
  | node s d dead child ih =>
    by_cases h : SameKind (node s d dead child) b
    · cases b with
      | absent => exact absurd h fun h => h
      | leaf s' v => exact absurd h fun h => h
      | node s' d' dead' child' =>
        obtain rfl : d = d' := h
        exact nodes s s' d dead dead' child child' fun k => ih k (child' k)
    · exact whole _ _ h

end Rules

/-! ## Commutativity, idempotence, redelivery -/

section Algebra

variable {a b c : LwwTree K S V C}

lemma newer_eq_left (h : b.stamp ≤ a.stamp) : newer a b = a := if_neg (not_lt.mpr h)

lemma newer_eq_right (h : a.stamp < b.stamp) : newer a b = b := if_pos h

variable (a b)

lemma stamp_newer : (newer a b).stamp = max a.stamp b.stamp := by
  rw [newer]
  split_ifs with h
  · exact (max_eq_right h.le).symm
  · exact (max_eq_left (not_lt.mp h)).symm

lemma stamp_merge : (merge a b).stamp = max a.stamp b.stamp := by
  by_cases h : SameKind a b
  · obtain ⟨s, s', d, dead, dead', child, child', rfl, rfl⟩ := h.elim
    rw [merge_node]
    exact WithBot.coe_max s s'
  · rw [merge_of_not_sameKind h, stamp_newer]

@[simp] lemma merge_absent_left : merge absent a = a := by
  have h : ¬ SameKind absent a := fun h => h
  rw [merge_of_not_sameKind h, newer]
  cases a with
  | absent => rfl
  | leaf s v => exact if_pos (WithBot.bot_lt_coe s)
  | node s c dead child => exact if_pos (WithBot.bot_lt_coe s)

@[simp] lemma merge_absent_right : merge a absent = a := by
  have h : ¬ SameKind a absent := by cases a <;> exact fun h => h
  rw [merge_of_not_sameKind h]
  exact newer_eq_left bot_le

lemma merge_self : merge a a = a := by
  induction a with
  | absent => exact newer_eq_left le_rfl
  | leaf s v => exact newer_eq_left le_rfl
  | node s d dead child ih => simp [merge_node, ih]

variable {a b}

lemma Compat.symm (h : Compat a b) : Compat b a := by
  induction a, b using pair_induction with
  | whole a b hk =>
    rw [compat_of_not_sameKind hk] at h
    rw [compat_of_not_sameKind fun hk' => hk hk'.symm]
    exact fun hs => (h hs.symm).symm
  | nodes s s' d dead dead' child child' ih =>
    rw [compat_node] at h ⊢
    exact fun k => ih k (h k)

variable (a)

lemma Compat.refl : Compat a a := by
  induction a with
  | absent => exact fun _ => rfl
  | leaf s v => exact fun _ => rfl
  | node s d dead child ih => exact compat_node.mpr ih

@[simp] lemma compat_absent_left : Compat absent a := by
  cases a with
  | absent => exact fun _ => rfl
  | leaf s v => exact fun h => absurd h (WithBot.bot_ne_coe)
  | node s c dead child => exact fun h => absurd h (WithBot.bot_ne_coe)

@[simp] lemma compat_absent_right : Compat a absent :=
  (compat_absent_left a).symm

variable {a}

/-- Compatibility of two optional children, from that of two present ones. -/
lemma compat_getD {α β : Type*} {f : α → LwwTree K S V C} {g : β → LwwTree K S V C}
    {x : Option α} {y : Option β} (h : ∀ e ∈ x, ∀ e' ∈ y, Compat (f e) (g e')) :
    Compat ((x.map f).getD absent) ((y.map g).getD absent) := by
  cases x with
  | none => exact compat_absent_left _
  | some e =>
    cases y with
    | none => exact compat_absent_right _
    | some e' => exact h e rfl e' rfl

/-- **Commutativity**, where equal stamps mean equal writes. -/
lemma merge_comm (h : Compat a b) : merge a b = merge b a := by
  induction a, b using pair_induction with
  | whole a b hk =>
    rw [merge_of_not_sameKind hk, merge_of_not_sameKind fun hk' => hk hk'.symm]
    rw [compat_of_not_sameKind hk] at h
    rcases lt_trichotomy a.stamp b.stamp with hs | hs | hs
    · rw [newer_eq_right hs, newer_eq_left hs.le]
    · rw [h hs]
    · rw [newer_eq_left hs.le, newer_eq_right hs]
  | nodes s s' d dead dead' child child' ih =>
    rw [compat_node] at h
    simp only [merge_node, max_comm s s', Bool.or_comm]
    exact congrArg _ (funext fun k => ih k (h k))

/-- `Absorbs` is the fixed-point relation of `merge`. -/
lemma absorbs_iff : Absorbs a b ↔ merge a b = a := by
  induction a, b using pair_induction with
  | whole a b hk =>
    rw [absorbs_of_not_sameKind hk, merge_of_not_sameKind hk, newer]
    split_ifs with h
    · refine ⟨fun hle => absurd h (not_lt.mpr hle), fun he => ?_⟩
      rw [he]
    · exact ⟨fun _ => rfl, fun _ => not_lt.mp h⟩
  | nodes s s' d dead dead' child child' ih =>
    rw [absorbs_node, merge_node, node.injEq, funext_iff, funext_iff, max_eq_left_iff]
    simp only [ih, true_and, Bool.or_eq_left_iff_imp]

@[simp] lemma absorbs_absent_right (a : LwwTree K S V C) : Absorbs a absent := by
  cases a <;> exact bot_le

@[simp] lemma absorbs_absent_left : Absorbs absent a ↔ a = absent := by
  rw [absorbs_iff, merge_absent_left]

variable (a b)

/-- **Redelivery is absorbed.** -/
lemma merge_merge_right : merge (merge a b) b = merge a b := by
  induction a, b using pair_induction with
  | whole a b hk =>
    rw [merge_of_not_sameKind hk, newer]
    split_ifs with h
    · exact merge_self b
    · rw [merge_of_not_sameKind hk, newer_eq_left (not_lt.mp h)]
  | nodes s s' d dead dead' child child' ih =>
    simp only [merge_node, ih, max_assoc, max_self, Bool.or_assoc, Bool.or_self]

/-- Merging in what has absorbed this value already is merging in the rest of it. -/
lemma merge_merge_left : merge b (merge a b) = merge b a := by
  induction a, b using pair_induction with
  | whole a b hk =>
    rw [merge_of_not_sameKind hk, newer]
    split_ifs with h
    · rw [merge_self, merge_of_not_sameKind fun hk' => hk hk'.symm, newer_eq_left h.le]
    · rfl
  | nodes s s' d dead dead' child child' ih =>
    simp only [merge_node, ih, max_comm s s', ← max_assoc, max_self, Bool.or_left_comm,
      Bool.or_self, Bool.or_comm]

/-- The merges of two values in the two orders have nothing to give to each other: where they
differ there is a tie, and each keeps its own. -/
lemma merge_cross : merge (merge a b) (merge b a) = merge a b := by
  induction a, b using pair_induction with
  | whole a b hk =>
    rw [merge_of_not_sameKind hk, merge_of_not_sameKind fun hk' => hk hk'.symm]
    rcases lt_trichotomy a.stamp b.stamp with hs | hs | hs
    · rw [newer_eq_right hs, newer_eq_left hs.le, merge_self]
    · rw [newer_eq_left hs.ge, newer_eq_left hs.le, merge_of_not_sameKind hk,
        newer_eq_left hs.ge]
    · rw [newer_eq_left hs.le, newer_eq_right hs, merge_self]
  | nodes s s' d dead dead' child child' ih =>
    simp only [merge_node, ih, max_comm s' s, max_self, Bool.or_comm, Bool.or_self]

variable {a b}

/-- A value that absorbs another one from the right absorbs it from the left. -/
lemma absorbed_symm (h : merge a b = b) : merge b a = b := by
  induction a, b using pair_induction with
  | whole a b hk =>
    rw [merge_of_not_sameKind hk, newer] at h
    split_ifs at h with hs
    · rw [merge_of_not_sameKind fun hk' => hk hk'.symm, newer_eq_left hs.le]
    · rw [h, merge_self]
  | nodes s s' d dead dead' child child' ih =>
    rw [merge_node, node.injEq, funext_iff, funext_iff] at h
    obtain ⟨hs, -, hdead, hchild⟩ := h
    rw [merge_node, node.injEq, funext_iff, funext_iff]
    refine ⟨by rw [max_comm, hs], rfl, fun k => ?_, fun k => ih k (hchild k)⟩
    rw [Bool.or_comm, hdead k]

/-- Where merging commutes, equal stamps mean equal writes. -/
lemma merge_comm_iff : merge a b = merge b a ↔ Compat a b := by
  refine ⟨fun h => ?_, merge_comm⟩
  induction a, b using pair_induction with
  | whole a b hk =>
    rw [compat_of_not_sameKind hk]
    intro hs
    rwa [merge_of_not_sameKind hk, merge_of_not_sameKind fun hk' => hk hk'.symm,
      newer_eq_left hs.ge, newer_eq_left hs.le] at h
  | nodes s s' d dead dead' child child' ih =>
    rw [merge_node, merge_node, node.injEq, funext_iff, funext_iff] at h
    exact compat_node.mpr fun k => ih k (h.2.2.2 k)

lemma Avoids.stamp_ne {t : S} (h : Avoids t a) : a.stamp ≠ t := by
  cases a with
  | absent => exact WithBot.bot_ne_coe
  | leaf s v => exact fun he => h (WithBot.coe_injective he)
  | node s c dead child => exact fun he => h.1 (WithBot.coe_injective he)

/-- Trees decided by their stamps are compatible when the stamp of one is fresh for the other. -/
lemma Avoids.compat {t : S} (h : Avoids t b) (ha : a.stamp = t) (hk : ¬ SameKind a b) :
    Compat a b := by
  rw [compat_of_not_sameKind hk]
  intro hs
  exact absurd (hs.symm.trans ha) h.stamp_ne

/-- To be compatible with a node of a fresh stamp it is enough to be compatible below it. -/
lemma Avoids.compat_node {t : S} (hb : Avoids t b)
    (h : ∀ s' dead' child', b = node s' d dead' child' → ∀ k, Compat (child k) (child' k)) :
    Compat (node t d dead child) b := by
  by_cases hk : SameKind (node t d dead child) b
  · obtain ⟨s', dead', child', rfl⟩ := hk.node_right
    exact LwwTree.compat_node.mpr (h s' dead' child' rfl)
  · exact hb.compat rfl hk

/-- A merge stays compatible with what both sides are compatible with. -/
lemma Compat.merge_left (ha : Compat a c) (hb : Compat b c) : Compat (merge a b) c := by
  induction a, b using pair_induction generalizing c with
  | whole a b hk =>
    rw [merge_of_not_sameKind hk, newer]
    split_ifs
    · exact hb
    · exact ha
  | nodes s s' d dead dead' child child' ih =>
    rw [merge_node]
    by_cases hk : SameKind (node s d dead child) c
    · obtain ⟨s₃, dead₃, child₃, rfl⟩ := hk.node_right
      rw [compat_node] at ha hb ⊢
      exact fun k => ih k (ha k) (hb k)
    · -- Of the two stamps the merged node keeps one, and neither is the stamp of `c`.
      have hne : ∀ (s : S) (dead : K → Bool) (child : K → LwwTree K S V C),
          Compat (node s d dead child) c → (s : WithBot S) ≠ c.stamp := by
        intro s dead child h hs
        have hk' : ¬ SameKind (node s d dead child) c := fun h => hk (sameKind_node.mp h)
        have he := (compat_of_not_sameKind hk').mp h hs
        exact hk' (he ▸ rfl)
      rw [compat_of_not_sameKind fun h => hk (sameKind_node.mp h)]
      intro hs
      rcases max_choice s s' with h | h
      · exact absurd (h ▸ hs) (hne s dead child ha)
      · exact absurd (h ▸ hs) (hne s' dead' child' hb)

end Algebra

/-! ## Associativity -/

section Associativity

variable {a b c : LwwTree K S V C}

lemma assocOk_node {s₁ s₂ s₃ : S} {d : C} {dead₁ dead₂ dead₃ : K → Bool}
    {f₁ f₂ f₃ : K → LwwTree K S V C} :
    AssocOk (node s₁ d dead₁ f₁) (node s₂ d dead₂ f₂) (node s₃ d dead₃ f₃) ↔
      ∀ k, AssocOk (f₁ k) (f₂ k) (f₃ k) := by
  simp [AssocOk]

lemma assocOk_of_not_sameKind (h : ¬ (SameKind a b ∧ SameKind b c)) :
    AssocOk a b c ↔ NothingLost a b c := by
  cases a <;> cases b <;> cases c <;> simp_all [AssocOk, SameKind]

lemma sameKind_merge (hab : SameKind a b) : SameKind (merge a b) c ↔ SameKind a c := by
  obtain ⟨s, s', d, dead, dead', child, child', rfl, rfl⟩ := hab.elim
  rw [merge_node]
  exact sameKind_node

lemma newer_assoc (a b c : LwwTree K S V C) : newer (newer a b) c = newer a (newer b c) := by
  rcases lt_or_ge a.stamp b.stamp with hab | hab
  · rcases lt_or_ge b.stamp c.stamp with hbc | hbc
    · rw [newer_eq_right hab, newer_eq_right hbc, newer_eq_right (hab.trans hbc)]
    · rw [newer_eq_right hab, newer_eq_left hbc, newer_eq_right hab]
  · rcases lt_or_ge b.stamp c.stamp with hbc | hbc
    · rw [newer_eq_left hab, newer_eq_right hbc]
    · rw [newer_eq_left hbc, newer_eq_left hab, newer_eq_left (hbc.trans hab)]

/-- The third tree has another shape than the first two. -/
lemma assoc_iff_last (hab : SameKind a b) (hbc : ¬ SameKind b c) :
    merge (merge a b) c = merge a (merge b c) ↔ NothingLost a b c := by
  have hac : ¬ SameKind a c := fun h => hbc (hab.symm.trans h)
  have hmc : ¬ SameKind (merge a b) c := fun h => hac ((sameKind_merge hab).mp h)
  simp only [NothingLost, hab, hac, hbc, false_implies, and_true, true_implies]
  rw [merge_of_not_sameKind hmc, merge_of_not_sameKind hbc]
  rcases lt_or_ge b.stamp c.stamp with hs | hs
  · rw [newer_eq_right hs, merge_of_not_sameKind hac]
    rcases lt_or_ge a.stamp c.stamp with hs' | hs'
    · rw [newer_eq_right hs', newer_eq_right (by rw [stamp_merge]; exact max_lt hs' hs)]
      simp [not_le.mpr hs']
    · rw [newer_eq_left hs', newer_eq_left (by rw [stamp_merge]; exact le_max_of_le_left hs')]
      simp [hs, hs', absorbs_iff]
  · rw [newer_eq_left hs, newer_eq_left (by rw [stamp_merge]; exact le_max_of_le_right hs)]
    simp [not_lt.mpr hs]

/-- The middle tree has another shape than the outer two. -/
lemma assoc_iff_middle (hac : SameKind a c) (hab : ¬ SameKind a b) (hcompat : Compat a c) :
    merge (merge a b) c = merge a (merge b c) ↔ NothingLost a b c := by
  have hbc : ¬ SameKind b c := fun h => hab (hac.trans h.symm)
  simp only [NothingLost, hab, hac, hbc, false_implies, and_true, true_and, true_implies]
  rw [merge_of_not_sameKind hab, merge_of_not_sameKind hbc]
  rcases lt_or_ge a.stamp b.stamp with hs | hs
  · rw [newer_eq_right hs, merge_of_not_sameKind hbc]
    rcases lt_or_ge b.stamp c.stamp with hs' | hs'
    · rw [newer_eq_right hs', merge_comm hcompat, eq_comm]
      simp [hs, hs', not_le.mpr hs, absorbs_iff]
    · rw [newer_eq_left hs', merge_of_not_sameKind hab, newer_eq_right hs]
      simp [not_le.mpr hs, not_lt.mpr hs']
  · rw [newer_eq_left hs]
    rcases lt_or_ge b.stamp c.stamp with hs' | hs'
    · rw [newer_eq_right hs']
      simp [not_lt.mpr hs, not_le.mpr hs']
    · rw [newer_eq_left hs', merge_of_not_sameKind hab, newer_eq_left hs]
      simp [hs, hs', not_lt.mpr hs, absorbs_iff]

/-- The first tree has another shape than the last two. -/
lemma assoc_iff_first (hbc : SameKind b c) (hab : ¬ SameKind a b) (hcompat : Compat b c) :
    merge (merge a b) c = merge a (merge b c) ↔ NothingLost a b c := by
  have hac : ¬ SameKind a c := fun h => hab (h.trans hbc.symm)
  have ham : ¬ SameKind a (merge b c) := fun h =>
    hab ((sameKind_merge hbc).mp h.symm).symm
  simp only [NothingLost, hab, hac, hbc, false_implies, true_and, true_implies]
  rw [merge_of_not_sameKind hab, merge_of_not_sameKind ham]
  rcases lt_or_ge a.stamp b.stamp with hs | hs
  · rw [newer_eq_right hs, newer_eq_right (by rw [stamp_merge]; exact lt_max_of_lt_left hs)]
    simp [not_le.mpr hs]
  · rw [newer_eq_left hs, merge_of_not_sameKind hac]
    rcases lt_or_ge a.stamp c.stamp with hs' | hs'
    · rw [newer_eq_right hs', newer_eq_right (by rw [stamp_merge]; exact lt_max_of_lt_right hs'),
        merge_comm hcompat, eq_comm]
      simp [hs, hs', absorbs_iff]
    · rw [newer_eq_left hs', newer_eq_left (by rw [stamp_merge]; exact max_le hs hs')]
      simp [not_lt.mpr hs']

/-- Three trees no two of which are nodes of one kind: pure last-writer-wins. -/
lemma assoc_of_no_sameKind (hab : ¬ SameKind a b) (hac : ¬ SameKind a c) (hbc : ¬ SameKind b c) :
    merge (merge a b) c = merge a (merge b c) := by
  have hl : ¬ SameKind (newer a b) c := by
    rw [newer]
    split_ifs
    · exact hbc
    · exact hac
  have hr : ¬ SameKind a (newer b c) := by
    rw [newer]
    split_ifs
    · exact hac
    · exact hab
  rw [merge_of_not_sameKind hab, merge_of_not_sameKind hbc, merge_of_not_sameKind hl,
    merge_of_not_sameKind hr, newer_assoc]

/-- **When merge is associative.**  For trees in which equal stamps mean equal writes, the two
bracketings agree exactly under `AssocOk`. -/
theorem assoc_iff (hac : Compat a c) (hbc : Compat b c) :
    merge (merge a b) c = merge a (merge b c) ↔ AssocOk a b c := by
  induction a, b using pair_induction generalizing c with
  | whole a b hab =>
    rw [assocOk_of_not_sameKind fun h => hab h.1]
    by_cases hkac : SameKind a c
    · exact assoc_iff_middle hkac hab hac
    by_cases hkbc : SameKind b c
    · exact assoc_iff_first hkbc hab hbc
    · simp [assoc_of_no_sameKind hab hkac hkbc, NothingLost, hab, hkac, hkbc]
  | nodes s s' d dead dead' child child' ih =>
    by_cases hk : SameKind (node s' d dead' child') c
    · obtain ⟨s₃, dead₃, child₃, rfl⟩ := hk.node_right
      rw [compat_node] at hac hbc
      simp only [merge_node, assocOk_node, max_assoc, Bool.or_assoc, node.injEq, true_and,
        funext_iff]
      exact forall_congr' fun k => ih k (hac k) (hbc k)
    · rw [assocOk_of_not_sameKind fun h => hk h.2]
      exact assoc_iff_last rfl hk

end Associativity

/-! ## What a merge keeps absorbed -/

section Spares

variable {a b c : LwwTree K S V C}

lemma spares_of_not_sameKind (h : ¬ SameKind a b) :
    Spares a b c ↔ (a.stamp < b.stamp → Absorbs b c) := by
  cases a <;> cases b <;> cases c <;> simp_all [Spares, SameKind]

lemma spares_node {s₁ s₂ s₃ : S} {d : C} {dead₁ dead₂ dead₃ : K → Bool}
    {f₁ f₂ f₃ : K → LwwTree K S V C} :
    Spares (node s₁ d dead₁ f₁) (node s₂ d dead₂ f₂) (node s₃ d dead₃ f₃) ↔
      ∀ k, Spares (f₁ k) (f₂ k) (f₃ k) := by
  simp [Spares]

lemma spares_of_other_kind (hab : SameKind a b) (hbc : ¬ SameKind b c) : Spares a b c := by
  cases a <;> cases b <;> cases c <;> simp_all [Spares, SameKind]

lemma Absorbs.stamp_le (h : Absorbs a b) : b.stamp ≤ a.stamp := by
  have hmerge := congrArg stamp (absorbs_iff.mp h)
  rw [stamp_merge] at hmerge
  exact max_eq_left_iff.mp hmerge

lemma absorbs_merge_right (a b : LwwTree K S V C) : Absorbs (merge a b) b :=
  absorbs_iff.mpr (merge_merge_right a b)

lemma Absorbs.refl (a : LwwTree K S V C) : Absorbs a a := absorbs_iff.mpr (merge_self a)

/-- **What stays absorbed**: a merge keeps what its first argument has absorbed exactly if it
spares it. -/
theorem absorbs_merge_iff (h : Absorbs a c) : Absorbs (merge a b) c ↔ Spares a b c := by
  induction a, b using pair_induction generalizing c with
  | whole a b hk =>
    rw [merge_of_not_sameKind hk, spares_of_not_sameKind hk, newer]
    split_ifs with hs
    · exact ⟨fun hb _ => hb, fun hb => hb hs⟩
    · exact iff_of_true h fun hs' => absurd hs' hs
  | nodes s s' d dead dead' child child' ih =>
    by_cases hk : SameKind (node s' d dead' child') c
    · obtain ⟨s₃, dead₃, child₃, rfl⟩ := hk.node_right
      rw [absorbs_node] at h
      rw [merge_node, absorbs_node, spares_node]
      refine ⟨fun hm k => (ih k (h.2.2 k)).mp (hm.2.2 k), fun hsp => ⟨h.1.trans (le_max_left s s'),
        fun k hd => ?_, fun k => (ih k (h.2.2 k)).mpr (hsp k)⟩⟩
      rw [h.2.1 k hd, Bool.true_or]
    · -- a tree of another shape is decided by its stamp, which a merge only raises
      have hm : ¬ SameKind (merge (node s d dead child) (node s' d dead' child')) c := by
        rw [merge_node]
        exact fun h => hk (sameKind_node.mp h)
      refine iff_of_true ?_ (spares_of_other_kind rfl hk)
      rw [absorbs_of_not_sameKind hm, stamp_merge]
      exact h.stamp_le.trans (le_max_left _ _)

end Spares

end LwwTree
