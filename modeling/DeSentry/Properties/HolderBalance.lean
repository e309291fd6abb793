import DeSentry.Framework.CyclicWindows
import DeSentry.Properties.StripedClaim

/-!
# The striping of chunks over holders

`SelectTransitHolders` ranks the candidates and takes a window of the ranking that slides with the
chunk index.  The ranking depends on the set of candidates only, and over a full turn of chunks
every candidate has the same share.  With `max_holders` 0 nobody is chosen.
-/

namespace DeSentry

open KeyedList CyclicWindows List

section HolderBalance

variable {c : Crypto} {owner docKeyHash x : Bytes} {candidates : List Bytes}
  {maxHolders : UInt32}

/-- The ranking has the candidates, each once. -/
lemma perm_rankedHolders (hne : [] ∉ candidates) :
    (rankedHolders c owner docKeyHash candidates).Perm candidates := by
  have hall : (candidates.filter fun candidate => decide (candidate ≠ [])) = candidates := by
    refine filter_eq_self.mpr fun candidate hmem => decide_eq_true ?_
    rintro rfl
    exact hne hmem
  unfold rankedHolders
  rw [hall]
  exact sortBy_perm _

/-- The holders are a window of the ranking. -/
lemma selectTransitHolders_eq (hne : [] ∉ candidates) (i : UInt32) :
    selectTransitHolders c owner docKeyHash candidates maxHolders i =
      window (rankedHolders c owner docKeyHash candidates) maxHolders.toNat i.toNat := by
  unfold selectTransitHolders
  split_ifs with h
  · rcases h with rfl | rfl
    · simp [window, rankedHolders, sortBy]
    · simp [window]
  · rfl

lemma head?_selectTransitHolders (hne : [] ∉ candidates) (hpos : maxHolders ≠ 0) (i : UInt32) :
    (selectTransitHolders c owner docKeyHash candidates maxHolders i).head? = some x ↔
      x ∈ window (rankedHolders c owner docKeyHash candidates) 1 i.toNat := by
  have hwidth : 1 ≤ maxHolders.toNat := Nat.pos_of_ne_zero fun h => hpos (UInt32.toNat_inj.mp h)
  rw [selectTransitHolders_eq hne]
  unfold window
  generalize hlen : (rankedHolders c owner docKeyHash candidates).length = n
  generalize hrot : (rankedHolders c owner docKeyHash candidates).rotate (i.toNat % n) = l
  have hn : l.length = n := by rw [← hrot, length_rotate, hlen]
  cases l with
  | nil => simp
  | cons a rest =>
    have hpos : 1 ≤ n := hn ▸ Nat.le_add_left 1 _
    obtain ⟨w, hw⟩ := Nat.exists_eq_add_of_le (le_min hwidth hpos)
    rw [hw, Nat.min_eq_left hpos, Nat.add_comm 1 w]
    simp [eq_comm]

/-- **The selection of holders is a function of the set of candidates, and it is balanced.**  The
clause about the first holder needs that a holder is chosen at all. -/
theorem selectTransitHolders_balanced (c : Crypto) (owner docKeyHash : Bytes)
    (candidates : List Bytes) (hnodup : candidates.Nodup) (hne : [] ∉ candidates)
    (maxHolders : UInt32) :
    let holders := selectTransitHolders c owner docKeyHash candidates maxHolders
    (∀ i, (holders i).length = min maxHolders.toNat candidates.length ∧ (holders i).Nodup ∧
      (∀ x ∈ holders i, x ∈ candidates) ∧ ∀ candidates', candidates'.Perm candidates →
        selectTransitHolders c owner docKeyHash candidates' maxHolders i = holders i) ∧
    ∀ start, start + candidates.length ≤ 2 ^ 32 → ∀ x ∈ candidates,
      (maxHolders ≠ 0 → ((Finset.Ico start (start + candidates.length)).filter fun i =>
        (holders (.ofNat i)).head? = some x).card = 1) ∧
      ((Finset.Ico start (start + candidates.length)).filter fun i =>
        x ∈ holders (.ofNat i)).card = min maxHolders.toNat candidates.length := by
  intro holders
  have hperm : (rankedHolders c owner docKeyHash candidates).Perm candidates :=
    perm_rankedHolders hne
  have hranked := hperm.nodup_iff.mpr hnodup
  refine ⟨fun i => ?_, fun start hend x hx => ?_⟩
  · have hrot := rotate_perm (rankedHolders c owner docKeyHash candidates)
      (i.toNat % (rankedHolders c owner docKeyHash candidates).length)
    refine ⟨?_, ?_, ?_, fun _ h => selectTransitHolders_congr hnodup h i⟩
    all_goals rw [show holders i = _ from selectTransitHolders_eq hne i]
    · simp [window, hperm.length_eq]
    · exact (take_sublist _ _).nodup (hrot.nodup_iff.mpr hranked)
    · exact fun x hx => hperm.mem_iff.mp (hrot.mem_iff.mp (mem_of_mem_take hx))
  · have hx := hperm.mem_iff.mpr hx
    -- the indexes are 32-bit numbers
    have hindex : ∀ i ∈ Finset.Ico start (start + candidates.length),
        (UInt32.ofNat i).toNat = i := fun i hi =>
      Nat.mod_eq_of_lt ((Finset.mem_Ico.mp hi).2.trans_le hend)
    rw [← hperm.length_eq] at hindex ⊢
    constructor
    · intro hpos
      rw [card_window hranked hx fun i hi => by
        rw [head?_selectTransitHolders hne hpos, hindex i hi]]
      exact Nat.min_eq_left (length_pos_of_mem hx)
    · refine card_window hranked hx fun i hi => ?_
      rw [show holders (.ofNat i) = _ from selectTransitHolders_eq hne _, hindex i hi]

theorem selectTransitHolders_balanced_three :
    let holders := selectTransitHolders sampleCrypto [7] [8] [[1], [2], [3]] 2
    ((Finset.Ico 5 8).filter fun i => (holders (.ofNat i)).head? = some [2]).card = 1 ∧
      ((Finset.Ico 5 8).filter fun i => [2] ∈ holders (.ofNat i)).card = 2 := by
  have h := (selectTransitHolders_balanced sampleCrypto [7] [8] [[1], [2], [3]] (by decide)
    (by decide) 2).2 5 (by decide) [2] (by decide)
  exact ⟨h.1 (by decide), h.2⟩

/-- Without holders there is no first one. -/
theorem selectTransitHolders_none : ((Finset.Ico 0 1).filter fun i =>
    (selectTransitHolders sampleCrypto [7] [8] [[1]] 0 (.ofNat i)).head? = some [1]).card ≠ 1 := by
  decide

end HolderBalance

end DeSentry
