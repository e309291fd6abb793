import Mathlib

/-!
# Runs of a transducer

A component that answers calls is a step function `σ → ι → σ × ο`: from a state and a call it
gives the next state and what it returned.  This file has the two list recursions such a
component is observed through, `final` and `outputs`, the guard `Guarded` that says each call
was made in a state where it was allowed, and the two induction rules that turn a fact about
one step into a fact about every run.

`final_invariant` is the invariant rule.  `pairwise_outputs` is the rule for orderings: if the
state always *dominates* what was returned so far, and a step returns something related to
everything the state dominates, then the returned values are pairwise related.
-/

namespace Runs

variable {σ ι ο : Type*} (step : σ → ι → σ × ο)

/-- The state after a list of calls. -/
def final : σ → List ι → σ
  | s, [] => s
  | s, i :: is => final (step s i).1 is

/-- What a list of calls returned, in order. -/
def outputs : σ → List ι → List ο
  | _, [] => []
  | s, i :: is => (step s i).2 :: outputs (step s i).1 is

/-- Every call of the list was made in a state that allowed it. -/
def Guarded (ok : σ → ι → Prop) : σ → List ι → Prop
  | _, [] => True
  | s, i :: is => ok s i ∧ Guarded ok (step s i).1 is

variable {step} {ok : σ → ι → Prop} {Inv : σ → Prop}

/-- **The invariant rule**: what every allowed step keeps, every guarded run keeps. -/
lemma final_invariant (hstep : ∀ s i, ok s i → Inv s → Inv (step s i).1) {s : σ} {is : List ι}
    (hs : Inv s) (his : Guarded step ok s is) : Inv (final step s is) := by
  induction is generalizing s with
  | nil => exact hs
  | cons i is ih => exact ih (hstep s i his.1 hs) his.2

variable {ok' : σ → ι → Prop}

/-- What a guard implies in the states a run passes through. -/
lemma Guarded.of_invariant (hstep : ∀ s i, ok s i → Inv s → Inv (step s i).1)
    (himp : ∀ s i, ok s i → Inv s → ok' s i) {s : σ} {is : List ι} (hs : Inv s)
    (his : Guarded step ok s is) : Guarded step ok' s is := by
  induction is generalizing s with
  | nil => trivial
  | cons i is ih => exact ⟨himp s i his.1 hs, ih (hstep s i his.1 hs) his.2⟩

/-- Two guards at once. -/
lemma Guarded.and {s : σ} {is : List ι} (h : Guarded step ok s is) (h' : Guarded step ok' s is) :
    Guarded step (fun s i => ok s i ∧ ok' s i) s is := by
  induction is generalizing s with
  | nil => trivial
  | cons i is ih => exact ⟨⟨h.1, h'.1⟩, ih h.2 h'.2⟩

/-- Guards that agree on every call agree on every run. -/
lemma guarded_congr (h : ∀ s i, ok s i ↔ ok' s i) (s : σ) (is : List ι) :
    Guarded step ok s is ↔ Guarded step ok' s is := by
  induction is generalizing s with
  | nil => exact Iff.rfl
  | cons i is ih => exact and_congr (h s i) (ih _)

/-- What every step returns, every run returns. -/
lemma forall_outputs {P : ο → Prop} (h : ∀ s i, P (step s i).2) (s : σ) (is : List ι) :
    ∀ o ∈ outputs step s is, P o := by
  induction is generalizing s with
  | nil => exact fun o ho => absurd ho List.not_mem_nil
  | cons i is ih => exact List.forall_mem_cons.mpr ⟨h s i, ih _⟩

/-- **The ordering rule.**  `Above s o` says the state has moved past the output `o`.  Steps
keep that, establish it for their own output, and return something `R`-related to every output
the state had moved past; then any two outputs of a guarded run are `R`-related. -/
lemma pairwise_outputs (Above : σ → ο → Prop) {R : ο → ο → Prop}
    (keep : ∀ s i o, ok s i → Above s o → Above (step s i).1 o)
    (emit : ∀ s i, ok s i → Above (step s i).1 (step s i).2)
    (rel : ∀ s i o, ok s i → Above s o → R o (step s i).2)
    {s : σ} {is : List ι} (his : Guarded step ok s is) : (outputs step s is).Pairwise R := by
  -- Carry along one output the state is already above; the head of the list is the next one.
  suffices h : ∀ (is : List ι) (s : σ), Guarded step ok s is →
      (∀ o, Above s o → ∀ o' ∈ outputs step s is, R o o') ∧ (outputs step s is).Pairwise R from
    (h is s his).2
  intro is
  induction is with
  | nil => exact fun s _ => ⟨fun o _ o' ho' => absurd ho' (List.not_mem_nil), .nil⟩
  | cons i is ih =>
    intro s hg
    obtain ⟨hpast, hpair⟩ := ih (step s i).1 hg.2
    refine ⟨fun o ho o' ho' => ?_, .cons (hpast _ (emit s i hg.1)) hpair⟩
    rcases List.mem_cons.mp ho' with rfl | ho'
    · exact rel s i o hg.1 ho
    · exact hpast o (keep s i o hg.1 ho) o' ho'

end Runs
