import DeSentry.Construction.Storage.Quota

/-!
# The split of the quota

The share of the data plane, rounded up to mebibytes, is dealt out to the engines one mebibyte at a
time.  The budgets differ by one at most and add up to the share.  But a share of fewer mebibytes than
there are engines leaves some engine with none, which the backend reads as no limit; and the product
of quota and percentage wraps around for a quota of 2^44 mebibytes and more.  `quota_split_iff` says
that these two are all that can go wrong.
-/

namespace DeSentry

open List

namespace StorageRouter.Options

variable (o : Options)

/-- The share of the data plane in whole mebibytes, rounded up. -/
def shareMb : ℕ := (o.quotaMb.toNat * o.dbSharePct.toNat + 99) / 100

/-! ## Dealing -/

/-- What the `i`-th of `n` gets of a total that is dealt out one by one. -/
def dealt (total n i : ℕ) : ℕ := total / n + if i < total % n then 1 else 0

/-- **Nothing is lost.** -/
lemma sum_dealt (total : ℕ) {n : ℕ} (hn : 0 < n) : ((List.range n).map (dealt total n)).sum = total := by
  have hextra : (Finset.range n).filter (fun i => i < total % n) = Finset.range (total % n) := by
    ext i
    have hlt := Nat.mod_lt total hn
    simp only [Finset.mem_filter, Finset.mem_range]
    omega
  calc ((List.range n).map (dealt total n)).sum
      = ∑ i ∈ Finset.range n, dealt total n i := rfl
    _ = n * (total / n) + total % n := by
        simp only [dealt, Finset.sum_add_distrib, Finset.sum_const, Finset.card_range, smul_eq_mul,
          Finset.sum_boole, hextra, Nat.cast_id]
    _ = total := Nat.div_add_mod total n

lemma dealt_le_succ (total n i j : ℕ) : dealt total n i ≤ dealt total n j + 1 := by
  unfold dealt
  split_ifs <;> omega

/-- Everyone gets something exactly if there is enough. -/
lemma forall_dealt_pos_iff (total : ℕ) {n : ℕ} (hn : 0 < n) :
    (∀ i < n, dealt total n i ≠ 0) ↔ n ≤ total := by
  constructor
  · intro h
    by_contra hlt
    have htotal : total < n := Nat.not_le.mp hlt
    refine h total htotal ?_
    rw [dealt, Nat.div_eq_of_lt htotal, Nat.mod_eq_of_lt htotal, if_neg (lt_irrefl total)]
  · intro h i _
    have hpos : 0 < total / n := Nat.div_pos h hn
    unfold dealt
    omega

/-! ## The share -/

/-- The bytes of the share, without a bound on their number. -/
def shareBytes : ℕ := o.quotaMb.toNat * 1024 * 1024 * o.dbSharePct.toNat

variable {o}

lemma toNat_dbBytes (hquota : o.quotaMb ≠ 0) :
    o.dbBytes.toNat = o.shareBytes % 2 ^ 64 / 100 := by
  rw [dbBytes, if_neg hquota, UInt64.toNat_div]
  refine congrArg (· / 100) ?_
  simp only [UInt64.toNat_mul, UInt32.toNat_toUInt64, Nat.mod_mul_mod, shareBytes]
  rfl

/-- The share is computed right exactly if its bytes, times hundred, fit. -/
lemma dbBytes_exact_iff (hquota : o.quotaMb ≠ 0) :
    o.dbBytes.toNat = o.shareBytes / 100 ↔ o.shareBytes < 2 ^ 64 := by
  rw [toNat_dbBytes hquota]
  constructor
  · intro h
    omega
  · intro h
    rw [Nat.mod_eq_of_lt h]

lemma shareBytes_eq : o.shareBytes = o.quotaMb.toNat * o.dbSharePct.toNat * 1048576 := by
  rw [shareBytes]
  ring

/-- Without a wrap-around, the total is the share. -/
lemma toNat_totalMb (hquota : o.quotaMb ≠ 0) (hpct : 1 ≤ o.dbSharePct)
    (hfits : o.shareBytes < 2 ^ 64) : o.totalMb.toNat = o.shareMb := by
  have hbytes := (dbBytes_exact_iff hquota).mpr hfits
  have hpos : 0 < o.quotaMb.toNat * o.dbSharePct.toNat :=
    Nat.mul_pos (Nat.pos_of_ne_zero fun h => hquota (UInt64.toNat_inj.mp h)) hpct
  rw [shareBytes_eq] at hbytes hfits
  have hne : o.dbBytes ≠ 0 := by
    intro h
    rw [h, UInt64.toNat_zero] at hbytes
    omega
  have hmib : kMiB.toNat = 1048576 := rfl
  have hone : (1 : UInt64).toNat = 1 := rfl
  rw [totalMb, if_neg hne, UInt64.toNat_div, UInt64.toNat_sub, UInt64.toNat_add, hbytes, hmib, hone,
    shareMb]
  generalize o.quotaMb.toNat * o.dbSharePct.toNat = share at *
  have hlt : share * 1048576 / 100 + 1048576 < 2 ^ 64 := by omega
  have hpred : (2 ^ 64 - 1 + (share * 1048576 / 100 + 1048576)) % 2 ^ 64 =
      share * 1048576 / 100 + 1048575 := by omega
  rw [Nat.mod_eq_of_lt hlt]
  omega

/-- The budgets are dealt. -/
lemma toNat_engineMb (hquota : o.quotaMb ≠ 0) (hpct : 1 ≤ o.dbSharePct)
    (hfits : o.shareBytes < 2 ^ 64) {n i : ℕ} (hn : n ≤ o.shareMb) (hi : i < n) :
    (o.engineMb n i).toNat = dealt o.shareMb n i := by
  have htotal := toNat_totalMb hquota hpct hfits
  have hlt : o.shareMb < 2 ^ 64 := by
    rw [← htotal]
    exact o.totalMb.toNat_lt
  have hofNat : ∀ m : ℕ, m ≤ o.shareMb → (UInt64.ofNat m).toNat = m := fun m hm => by
    rw [UInt64.toNat_ofNat', Nat.mod_eq_of_lt (hm.trans_lt hlt)]
  have hextra : UInt64.ofNat i < o.totalMb % UInt64.ofNat n ↔ i < o.shareMb % n := by
    rw [UInt64.lt_iff_toNat_lt, UInt64.toNat_mod, hofNat i (by omega), hofNat n hn, htotal]
  have hsum : dealt o.shareMb n i < 2 ^ 64 := by
    have hn1 : n = 1 ∨ o.shareMb / n < o.shareMb := by
      by_cases h1 : n = 1
      · exact Or.inl h1
      · exact Or.inr (Nat.div_lt_self (by omega) (by omega))
    unfold dealt
    rcases hn1 with rfl | hlt'
    · rw [Nat.mod_one, if_neg (Nat.not_lt_zero i)]
      omega
    · split_ifs <;> omega
  have hn0 : n ≠ 0 := by omega
  rw [engineMb, if_neg hn0, if_neg hn0, UInt64.toNat_add, UInt64.toNat_div, hofNat n hn, htotal]
  unfold dealt at hsum ⊢
  by_cases hi' : i < o.shareMb % n
  · rw [if_pos (hextra.mpr hi')]
    rw [if_pos hi'] at hsum ⊢
    exact Nat.mod_eq_of_lt hsum
  · rw [if_neg (mt hextra.mp hi')]
    rw [if_neg hi'] at hsum ⊢
    exact Nat.mod_eq_of_lt hsum

/-! ## The theorem -/

variable (o)

/-- What the split should be: the share is computed without a wrap-around, no engine is without a
limit, no two budgets differ by more than a mebibyte, and together they are the share. -/
structure SplitsWell : Prop where
  exact : o.dbBytes.toNat = o.shareBytes / 100
  limited : ∀ b ∈ o.budgets, b.2 ≠ 0
  even : ∀ b ∈ o.budgets, ∀ b' ∈ o.budgets, b.2.toNat ≤ b'.2.toNat + 1
  sum_eq : (o.budgets.map fun b => b.2.toNat).sum = o.shareMb

variable {o}

lemma unique_ne_nil {l : List Bytes} (h : l ≠ []) : unique l ≠ [] := by
  induction l with
  | nil => exact absurd rfl h
  | cons x rest ih =>
    cases rest with
    | nil => exact cons_ne_nil x []
    | cons y rest =>
      rw [unique]
      split_ifs
      · exact ih (cons_ne_nil y rest)
      · exact cons_ne_nil _ _

lemma length_engineNames_pos : 0 < o.engineNames.length := by
  have hne : ∀ l : List Bytes,
      (if o.defaultEngine ∈ l then l else l ++ [o.defaultEngine]) ≠ [] := by
    intro l
    split_ifs with hmem
    · exact ne_nil_of_mem hmem
    · exact append_ne_nil_of_right_ne_nil l (cons_ne_nil _ _)
  refine length_pos_iff.mpr (unique_ne_nil fun h => ?_)
  have hlen := congrArg List.length h
  rw [KeyedList.length_sortBy] at hlen
  exact hne _ (length_eq_zero_iff.mp hlen)

/-- The budgets, by position. -/
lemma map_budgets : (o.budgets.map fun b => b.2) =
    (List.range o.engineNames.length).map (o.engineMb o.engineNames.length) := by
  refine ext_getElem (by simp [budgets]) fun i _ _ => ?_
  simp [budgets]

/-- **The split of the quota**: it is as it should be exactly if the product of quota and percentage
fits into 64 bits and there is a mebibyte for every engine. -/
theorem quota_split_iff (hquota : o.quotaMb ≠ 0) (hpct : 1 ≤ o.dbSharePct) :
    o.SplitsWell ↔ o.shareBytes < 2 ^ 64 ∧ o.engineNames.length ≤ o.shareMb := by
  constructor
  · intro h
    refine ⟨(dbBytes_exact_iff hquota).mp h.exact, ?_⟩
    have hlen : o.budgets.length = o.engineNames.length := length_mapIdx
    have hpos : ∀ n ∈ o.budgets.map fun b => b.2.toNat, 1 ≤ n := by
      intro n hn
      obtain ⟨b, hb, rfl⟩ := mem_map.mp hn
      exact Nat.pos_of_ne_zero fun hzero => h.limited b hb (UInt64.toNat_inj.mp hzero)
    have hle := length_le_sum_of_one_le _ hpos
    rwa [length_map, hlen, h.sum_eq] at hle
  · rintro ⟨hfits, hn⟩
    have hn0 : 0 < o.engineNames.length := length_engineNames_pos
    have hdealt : ∀ i < o.engineNames.length, (o.engineMb o.engineNames.length i).toNat =
        dealt o.shareMb o.engineNames.length i := fun i hi =>
      toNat_engineMb hquota hpct hfits hn hi
    have hmem : ∀ b ∈ o.budgets, ∃ i < o.engineNames.length,
        b.2.toNat = dealt o.shareMb o.engineNames.length i := by
      intro b hb
      have hb2 : b.2 ∈ o.budgets.map fun b => b.2 := mem_map_of_mem hb
      rw [map_budgets] at hb2
      obtain ⟨i, hi, hbi⟩ := mem_map.mp hb2
      have hi := mem_range.mp hi
      exact ⟨i, hi, by rw [← hbi, hdealt i hi]⟩
    refine ⟨(dbBytes_exact_iff hquota).mpr hfits, fun b hb hzero => ?_, fun b hb b' hb' => ?_, ?_⟩
    · obtain ⟨i, hi, hbi⟩ := hmem b hb
      rw [hzero] at hbi
      exact (forall_dealt_pos_iff o.shareMb hn0).mpr hn i hi hbi.symm
    · obtain ⟨i, -, hbi⟩ := hmem b hb
      obtain ⟨j, -, hbj⟩ := hmem b' hb'
      rw [hbi, hbj]
      exact dealt_le_succ ..
    · calc (o.budgets.map fun b => b.2.toNat).sum
          = ((o.budgets.map fun b => b.2).map UInt64.toNat).sum := by rw [map_map]; rfl
        _ = ((List.range o.engineNames.length).map
              (dealt o.shareMb o.engineNames.length)).sum := by
            rw [map_budgets, map_map]
            exact congrArg List.sum (map_congr_left fun i hi => hdealt i (mem_range.mp hi))
        _ = o.shareMb := sum_dealt _ hn0

/-- A node of one mebibyte with two engines. -/
def sampleSmallNode : Options where
  quotaMb := 1
  dbSharePct := 60
  engines := [text "kv", text "graph_adj"]

/-- Its second engine has no limit. -/
theorem small_node_unlimited : ¬ sampleSmallNode.SplitsWell ∧
    (text "kv", (0 : UInt64)) ∈ sampleSmallNode.budgets := by
  have hmem : (text "kv", (0 : UInt64)) ∈ sampleSmallNode.budgets := by decide +kernel
  exact ⟨fun h => h.limited _ hmem rfl, hmem⟩

/-- With five mebibytes, the two engines get three together. -/
theorem quota_split_sample :
    ({ sampleSmallNode with quotaMb := 5 } : Options).SplitsWell :=
  (quota_split_iff (by decide) (by decide)).mpr (by decide +kernel)

end StorageRouter.Options

end DeSentry
