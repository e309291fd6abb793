import Mathlib

/-!
# Files and crashes

A program that writes files is a list of steps, each of which the file system makes atomic: a whole
file is written, removed, or renamed over another.  A crash lets any number of the first steps
happen and none of the others.

`replace` is the usual way to put new contents into a file: write them beside it, remove the file,
and rename.  `crash_replace_self` says what is in the file at each crash point; between the second
and the third step there is nothing.
-/

namespace FileSteps

open Function List

variable {ν β : Type*} [DecidableEq ν]

/-- One atomic change of the files. -/
inductive Step (ν β : Type*) where
  | write (name : ν) (contents : β)
  | remove (name : ν)
  | rename (source target : ν)

/-- The files after a step; a file that is not there cannot be renamed. -/
def Step.apply (files : ν → Option β) : Step ν β → ν → Option β
  | .write name contents => update files name (some contents)
  | .remove name => update files name none
  | .rename source target =>
    match files source with
    | none => files
    | some contents => update (update files target (some contents)) source none

/-- The files after a list of steps. -/
def run (steps : List (Step ν β)) (files : ν → Option β) : ν → Option β :=
  steps.foldl Step.apply files

/-- The files when the `k`-th step is not made any more. -/
def crash (steps : List (Step ν β)) (k : ℕ) (files : ν → Option β) : ν → Option β :=
  run (steps.take k) files

lemma crash_append (steps more : List (Step ν β)) (k : ℕ) (files : ν → Option β) :
    crash (steps ++ more) k files = crash more (k - steps.length) (crash steps k files) := by
  rw [crash, crash, crash, run, run, run, take_append, foldl_append]

/-- Without a crash all steps are made. -/
lemma crash_of_length_le {steps : List (Step ν β)} {k : ℕ} (h : steps.length ≤ k)
    (files : ν → Option β) : crash steps k files = run steps files := by
  rw [crash, take_of_length_le h]

/-- New contents for a file, by way of a temporary one. -/
def replace (temporary name : ν) (contents : β) : List (Step ν β) :=
  [.write temporary contents, .remove name, .rename temporary name]

variable {temporary name : ν} {contents : β}

lemma run_replace (h : temporary ≠ name) (files : ν → Option β) :
    run (replace temporary name contents) files =
      update (update files name (some contents)) temporary none := by
  have hsource : update (update files temporary (some contents)) name none
      temporary = some contents := by
    rw [update_of_ne h, update_self]
  have hrun : run (replace temporary name contents) files = update (update
      (update (update files temporary (some contents)) name none) name
        (some contents)) temporary none := by
    simp only [run, replace, foldl_cons, foldl_nil, Step.apply, hsource]
  rw [hrun, update_idem]
  funext n
  by_cases htmp : n = temporary
  · rw [htmp, update_self, update_self]
  · rw [update_of_ne htmp, update_of_ne htmp]
    by_cases hname : n = name
    · rw [hname, update_self, update_self]
    · rw [update_of_ne hname, update_of_ne hname, update_of_ne htmp]

/-- What is in a file that is being replaced. -/
lemma crash_replace_self (h : temporary ≠ name) (files : ν → Option β) (k : ℕ) :
    crash (replace temporary name contents) k files name =
      if k ≤ 1 then files name else if k = 2 then none else some contents := by
  match k with
  | 0 => rfl
  | 1 => exact update_of_ne h.symm _ _
  | 2 => exact update_self _ _ _
  | k + 3 =>
    have hlen : (replace temporary name contents).length ≤ k + 3 := Nat.le_add_left 3 k
    rw [crash_of_length_le hlen, run_replace h, update_of_ne h.symm, update_self,
      if_neg (by omega), if_neg (by omega)]

/-- Other files are left alone. -/
lemma crash_replace_of_ne (h : temporary ≠ name) {other : ν} (htmp : other ≠ temporary)
    (hname : other ≠ name) (files : ν → Option β) (k : ℕ) :
    crash (replace temporary name contents) k files other = files other := by
  match k with
  | 0 => rfl
  | 1 => exact update_of_ne htmp _ _
  | 2 => exact (update_of_ne hname _ _).trans (update_of_ne htmp _ _)
  | k + 3 =>
    have hlen : (replace temporary name contents).length ≤ k + 3 := Nat.le_add_left 3 k
    rw [crash_of_length_le hlen, run_replace h, update_of_ne htmp,
      update_of_ne hname]

end FileSteps
