import Mathlib

/-!
# Anti-entropy between two replicas of a value

Two replicas compare fingerprints: how new their value is (`top`), and a hash that tells different
values apart.  A replica whose value is newer, or as new but different, offers it; the other one
merges.  The side that asked first merges what it is offered, and what it then gives to the other
side is the merged value.

The merge breaks ties in favour of its first argument, so it need not commute; `TieMerge` lists what
is true of such a merge without any condition.  `settle` says what a round does to the two values,
whoever starts it.  `settle_settle_iff` is the main result: two rounds lead to agreement exactly if
the merge commutes on the two values and, unless they are equally new, is as new as the newer one.
-/

namespace AntiEntropy

variable {T L : Type*} [LinearOrder L]

/-- A merge whose first argument wins ties, with a measure of how new a value is. -/
structure TieMerge (merge : T → T → T) (top : T → L) : Prop where
  merge_self : ∀ a, merge a a = a
  merge_merge_right : ∀ a b, merge (merge a b) b = merge a b
  merge_merge_left : ∀ a b, merge b (merge a b) = merge b a
  merge_cross : ∀ a b, merge (merge a b) (merge b a) = merge a b
  absorbed_symm : ∀ a b, merge a b = b → merge b a = b
  top_merge_le : ∀ a b, top (merge a b) ≤ max (top a) (top b)

section Rounds

variable (merge : T → T → T) (top : T → L)

/-- The holder of `b` offers it to the holder of `a`. -/
def Offers (b a : T) : Prop := top a < top b ∨ (top a = top b ∧ a ≠ b)

variable [DecidableEq T]

instance (b a : T) : Decidable (Offers top b a) := inferInstanceAs (Decidable (_ ∨ _))

/-- A round that the holder of the first value starts. -/
def exchange (a b : T) : T × T :=
  let a' := if Offers top b a then merge a b else a
  (a', if Offers top a b then merge b a' else b)

/-- What a round does, whoever starts it. -/
def settle (s : T × T) : T × T :=
  (if Offers top s.2 s.1 then merge s.1 s.2 else s.1,
    if Offers top s.1 s.2 then merge s.2 s.1 else s.2)

/-- The condition under which two values can be brought to agree. -/
def Reconcilable (a b : T) : Prop :=
  merge a b = merge b a ∧ (top a = top b ∨ top (merge a b) = max (top a) (top b))

end Rounds

variable {merge : T → T → T} {top : T → L} {a b : T}

lemma not_offers_self (a : T) : ¬ Offers top a a :=
  fun h => h.elim (lt_irrefl _) fun h => h.2 rfl

lemma offers_of_lt (h : top a < top b) : Offers top b a := Or.inl h

lemma not_offers_of_lt (h : top a < top b) : ¬ Offers top a b :=
  fun h' => h'.elim (lt_asymm h) fun h' => h.ne h'.1.symm

lemma offers_of_eq (h : top a = top b) (hne : a ≠ b) : Offers top b a := Or.inr ⟨h, hne⟩

lemma Reconcilable.symm (h : Reconcilable merge top a b) : Reconcilable merge top b a := by
  refine ⟨h.1.symm, h.2.imp Eq.symm fun htop => ?_⟩
  rw [← h.1, htop, max_comm]

variable [DecidableEq T]

lemma settle_self (a : T) : settle merge top (a, a) = (a, a) := by
  rw [settle, if_neg (not_offers_self a)]

lemma settle_of_lt (h : top a < top b) : settle merge top (a, b) = (merge a b, b) := by
  rw [settle, if_pos (offers_of_lt h), if_neg (not_offers_of_lt h)]

lemma settle_of_eq (h : top a = top b) (hne : a ≠ b) :
    settle merge top (a, b) = (merge a b, merge b a) := by
  rw [settle, if_pos (offers_of_eq h hne), if_pos (offers_of_eq h.symm hne.symm)]

/-- The value that is given back is the merged one, which makes no difference. -/
lemma exchange_eq_settle (h : TieMerge merge top) (a b : T) :
    exchange merge top a b = settle merge top (a, b) := by
  unfold exchange settle
  dsimp only
  by_cases hwant : Offers top a b
  · by_cases hpush : Offers top b a
    · rw [if_pos hwant, if_pos hpush, if_pos hwant, h.merge_merge_left]
    · rw [if_neg hpush]
  · rw [if_neg hwant, if_neg hwant]

/-- Two rounds, when the second value is the newer one. -/
lemma settle_settle_of_lt (h : TieMerge merge top) (hlt : top a < top b) :
    (let s := settle merge top (settle merge top (a, b))
    s.1 = s.2) ↔ Reconcilable merge top a b := by
  have hle : top (merge a b) ≤ top b := by
    have hle := h.top_merge_le a b
    rwa [max_eq_right hlt.le] at hle
  rw [settle_of_lt hlt]
  unfold Reconcilable
  rw [max_eq_right hlt.le]
  rcases hle.lt_or_eq with hold | htop
  · -- the newest stamp is lost in the merge: the second round repeats the first
    rw [settle_of_lt hold, h.merge_merge_right]
    refine iff_of_false (fun heq : merge a b = b => ?_) fun hrec => ?_
    · rw [heq] at hold
      exact lt_irrefl _ hold
    · exact hrec.2.elim hlt.ne hold.ne
  · rw [and_iff_left (Or.inr htop)]
    by_cases heq : merge a b = b
    · rw [heq, settle_self, h.absorbed_symm a b heq]
    · rw [settle_of_eq htop heq, h.merge_merge_right, h.merge_merge_left]

/-- **Two rounds lead to agreement exactly if the values are reconcilable.** -/
theorem settle_settle_iff (h : TieMerge merge top) (a b : T) :
    (let s := settle merge top (settle merge top (a, b))
    s.1 = s.2) ↔ Reconcilable merge top a b := by
  rcases lt_trichotomy (top a) (top b) with hlt | htop | hgt
  · exact settle_settle_of_lt h hlt
  · by_cases hab : a = b
    · rw [hab]
      exact iff_of_true rfl ⟨rfl, Or.inl rfl⟩
    · rw [settle_of_eq htop hab, Reconcilable, and_iff_left (Or.inl htop)]
      by_cases hcomm : merge a b = merge b a
      · rw [hcomm, settle_self]
      · -- each side keeps what it has, whatever is offered
        have hkeep : settle merge top (merge a b, merge b a) = (merge a b, merge b a) := by
          unfold settle
          rw [h.merge_cross a b, h.merge_cross b a, ite_self, ite_self]
        rw [hkeep]
  · refine Iff.trans ?_ ((settle_settle_of_lt h hgt).trans ⟨.symm, .symm⟩)
    exact eq_comm

end AntiEntropy
