import DeSentry.Construction.Net.NetworkManager

/-!
# The quorum of a checkpoint

Two checkpoints at one height that agree on different hashes need two sets of replicas without a
common member.  The quorum of a replication factor is the largest odd number up to it, so the two
sets do not fit unless the factor is 2, where each node is a quorum of its own, or so large that the
size of the quorum does not fit an `int` (`checkpoint_quorum_iff`).

A report without a signature counts as a vote (`unsigned_votes_count`): the gate takes an empty
signature for one that was not asked for.
-/

namespace DeSentry

open ByteCodec List

/-! ## The votes of an evaluation -/

/-- The tips an evaluation sees: those of distinct replicas, each with the hash the replica has for
that entry. -/
structure Ballot (members : Finset Bytes) (vote : Bytes → Int64 → Bytes) (own : ReplicaTip)
    (replicas : List ReplicaTip) : Prop where
  distinct : ((own :: replicas).map ReplicaTip.nodeId).Nodup
  members : ∀ t ∈ own :: replicas, t.nodeId ∈ members
  votes : ∀ t ∈ own :: replicas, t.entryHash = vote t.nodeId t.entryId

/-- The nodes `EvaluateCheckpoint` counts as agreeing. -/
def agreeingNodes (own : ReplicaTip) (replicas : List ReplicaTip) : List Bytes :=
  own.nodeId :: (replicas.filter fun t => decide (tipVote own t = .agreeing)).map ReplicaTip.nodeId

variable {own : ReplicaTip} {replicas : List ReplicaTip} {rf : UInt32}

lemma tipVote_eq_agreeing {t : ReplicaTip} : tipVote own t = .agreeing ↔
    t.entryId = own.entryId ∧ t.entryHash = own.entryHash ∧
      (t.selfVerified = true ∧ (t.signature = [] ∨ t.signatureValid = true)) := by
  unfold tipVote
  split_ifs with hid hhash hverified <;> simp_all

/-- **What an evaluation that proceeds has counted.** -/
lemma evaluateCheckpoint_proceed (h : (evaluateCheckpoint own replicas rf).proceed = true) :
    (evaluateCheckpoint own replicas rf).checkpointLsn = own.entryId ∧
      (evaluateCheckpoint own replicas rf).agreedEntryHash = own.entryHash ∧
      checkpointQuorumSize rf ≤ (agreeingNodes own replicas).length := by
  unfold evaluateCheckpoint at h ⊢
  dsimp only at h ⊢
  split_ifs at h ⊢ with hempty hself hconflict hquorum
  refine ⟨rfl, rfl, ?_⟩
  rw [agreeingNodes, length_cons, length_map, ← countP_eq_length_filter]
  rw [List.count, countP_map] at hquorum
  have hcount : replicas.countP ((· == TipVote.agreeing) ∘ tipVote own) =
      replicas.countP fun t => decide (tipVote own t = .agreeing) := rfl
  omega

section Ballot

variable {members : Finset Bytes} {vote : Bytes → Int64 → Bytes}

lemma Ballot.nodup_agreeingNodes (h : Ballot members vote own replicas) :
    (agreeingNodes own replicas).Nodup :=
  h.distinct.sublist ((filter_sublist.map _).cons_cons _)

/-- Every agreeing node is a member and has the hash of the evaluating one. -/
lemma Ballot.of_mem_agreeingNodes (h : Ballot members vote own replicas) {id : Bytes}
    (hid : id ∈ agreeingNodes own replicas) : id ∈ members ∧ vote id own.entryId = own.entryHash := by
  rcases mem_cons.mp hid with rfl | hid
  · exact ⟨h.members own mem_cons_self, (h.votes own mem_cons_self).symm⟩
  · obtain ⟨t, ht, rfl⟩ := mem_map.mp hid
    obtain ⟨ht, hvote⟩ := mem_filter.mp ht
    obtain ⟨hentry, hhash, -⟩ := tipVote_eq_agreeing.mp (of_decide_eq_true hvote)
    refine ⟨h.members t (mem_cons_of_mem _ ht), ?_⟩
    rw [← hentry, ← hhash, h.votes t (mem_cons_of_mem _ ht)]

/-- Two evaluations of one entry with different hashes count different nodes. -/
lemma Ballot.disjoint {own' : ReplicaTip} {replicas' : List ReplicaTip}
    (h : Ballot members vote own replicas) (h' : Ballot members vote own' replicas')
    (hentry : own.entryId = own'.entryId) (hhash : own.entryHash ≠ own'.entryHash) :
    (agreeingNodes own replicas).length + (agreeingNodes own' replicas').length ≤
      members.card := by
  rw [← toFinset_card_of_nodup h.nodup_agreeingNodes,
    ← toFinset_card_of_nodup h'.nodup_agreeingNodes, ← Finset.card_union_of_disjoint]
  · refine Finset.card_le_card (Finset.union_subset (fun id hid => ?_) fun id hid => ?_)
    · exact (h.of_mem_agreeingNodes (mem_toFinset.mp hid)).1
    · exact (h'.of_mem_agreeingNodes (mem_toFinset.mp hid)).1
  · refine Finset.disjoint_left.mpr fun id hid hid' => hhash ?_
    rw [← (h.of_mem_agreeingNodes (mem_toFinset.mp hid)).2, hentry]
    exact (h'.of_mem_agreeingNodes (mem_toFinset.mp hid')).2

end Ballot

/-! ## The quorum -/

/-- No two evaluations among the replicas of a factor proceed at one entry with different hashes. -/
def QuorumSafe (rf : UInt32) : Prop :=
  ∀ (members : Finset Bytes) (vote : Bytes → Int64 → Bytes) (own own' : ReplicaTip)
    (replicas replicas' : List ReplicaTip), members.card = rf.toNat →
    Ballot members vote own replicas → Ballot members vote own' replicas' →
    (evaluateCheckpoint own replicas rf).proceed = true →
    (evaluateCheckpoint own' replicas' rf).proceed = true →
    (evaluateCheckpoint own replicas rf).checkpointLsn =
      (evaluateCheckpoint own' replicas' rf).checkpointLsn →
    (evaluateCheckpoint own replicas rf).agreedEntryHash =
      (evaluateCheckpoint own' replicas' rf).agreedEntryHash

/-- The quorum of a factor whose quorum fits an `int`. -/
lemma checkpointQuorumSize_of_le (h0 : rf ≠ 0) (h : rf.toNat ≤ 2 ^ 31) :
    (rf.toNat : ℤ) - 1 ≤ checkpointQuorumSize rf := by
  rw [checkpointQuorumSize, if_neg h0]
  rw [Int.bmod_eq_of_le] <;> omega

/-- A node alone is a quorum of two, and of a factor whose quorum does not fit. -/
lemma checkpointQuorumSize_le_one (h : rf = 2 ∨ 2 ^ 31 < rf.toNat) :
    checkpointQuorumSize rf ≤ 1 := by
  rcases h with rfl | h
  · decide
  · have h0 : rf ≠ 0 := by
      rintro rfl
      exact absurd h (by decide)
    have hlt := rf.toNat_lt
    rw [checkpointQuorumSize]
    rw [Int.bmod_def]
    split_ifs <;> omega

/-- A verified tip at the given hash, of a node without any reports. -/
def loneTip (id hash : Bytes) : ReplicaTip :=
  { nodeId := id, entryId := 0, entryHash := hash, selfVerified := true }

/-- Where a node alone is a quorum, it proceeds. -/
lemma proceed_loneTip (h : checkpointQuorumSize rf ≤ 1) (id hash : Bytes) :
    evaluateCheckpoint (loneTip id hash) [] rf =
      { proceed := true, agreeing := 1, required := checkpointQuorumSize rf, checkpointLsn := 0,
        agreedEntryHash := hash } := by
  unfold evaluateCheckpoint loneTip
  dsimp only
  rw [if_neg (by decide), if_neg (by decide), if_neg (by simp), if_neg (by simpa using h)]
  rfl

/-- The factors with a safe quorum. -/
lemma quorumSafe_iff : QuorumSafe rf ↔ rf ≠ 2 ∧ rf.toNat ≤ 2 ^ 31 := by
  constructor
  · intro hsafe
    by_contra hrf
    have hone : checkpointQuorumSize rf ≤ 1 := by
      refine checkpointQuorumSize_le_one ?_
      by_contra hnot
      exact hrf ⟨fun h => hnot (Or.inl h), not_lt.mp fun h => hnot (Or.inr h)⟩
    have htwo : 2 ≤ rf.toNat := by
      by_contra hlt
      refine hrf ⟨?_, by omega⟩
      rintro rfl
      exact hlt (by decide)
    -- Two of the members, each with a hash of its own.
    obtain ⟨members, -, hcard⟩ := Infinite.exists_superset_card_eq (∅ : Finset Bytes) rf.toNat
      (by simp)
    obtain ⟨a, ha, b, hb, hab⟩ := Finset.one_lt_card.mp (by omega : 1 < members.card)
    have hballot : ∀ id ∈ members, Ballot members (fun id _ => id) (loneTip id id) [] := by
      intro id hid
      refine ⟨by simp, ?_, ?_⟩
      · simpa [loneTip] using hid
      · simp [loneTip]
    have hagree := hsafe members (fun id _ => id) (loneTip a a) (loneTip b b) [] [] hcard
      (hballot a ha) (hballot b hb)
    simp only [proceed_loneTip hone, forall_const] at hagree
    exact hab hagree
  · rintro ⟨hne, hle⟩ members vote own own' replicas replicas' hcard hballot hballot' hproceed
      hproceed' hlsn
    obtain ⟨hentry, hhash, hquorum⟩ := evaluateCheckpoint_proceed hproceed
    obtain ⟨hentry', hhash', hquorum'⟩ := evaluateCheckpoint_proceed hproceed'
    rw [hhash, hhash']
    by_contra hdiffer
    have hdisjoint := hballot.disjoint hballot' (hentry.symm.trans (hlsn.trans hentry')) hdiffer
    have hpos : 0 < (agreeingNodes own replicas).length := Nat.succ_pos _
    have hpos' : 0 < (agreeingNodes own' replicas').length := Nat.succ_pos _
    have h0 : rf ≠ 0 := by
      rintro rfl
      have : members.card = 0 := hcard
      omega
    have hsize := checkpointQuorumSize_of_le h0 hle
    have htwo : rf.toNat ≠ 2 := fun h => hne (UInt32.toNat_inj.mp h)
    omega

/-! ## Who is counted -/

/-- `agreeing` is the number of distinct nodes with a verified report of the tip that has a
signature, and the evaluating node. -/
def CountsSigned (own : ReplicaTip) (replicas : List ReplicaTip) (rf : UInt32) : Prop :=
  ∃ nodes : Finset Bytes, nodes.card = (evaluateCheckpoint own replicas rf).agreeing ∧
    ∀ id ∈ nodes, id = own.nodeId ∨
      ∃ t ∈ replicas, t.nodeId = id ∧ tipVote own t = .agreeing ∧ t.signature ≠ []

/-- The count of an evaluation that gets to the votes. -/
lemma evaluateCheckpoint_agreeing (hentry : ¬ own.entryId < 0) (hself : own.selfVerified = true) :
    (evaluateCheckpoint own replicas rf).agreeing = (agreeingNodes own replicas).length := by
  have hcount : 1 + (replicas.map (tipVote own)).count .agreeing =
      (agreeingNodes own replicas).length := by
    rw [agreeingNodes, length_cons, length_map, ← countP_eq_length_filter,
      List.count, countP_map, Nat.add_comm]
    rfl
  unfold evaluateCheckpoint
  rw [if_neg hentry, if_neg (by rw [hself]; decide)]
  dsimp only
  split_ifs <;> exact hcount

/-- Only signed reports are counted exactly if no agreeing report is unsigned. -/
lemma countsSigned_iff (hdistinct : ((own :: replicas).map ReplicaTip.nodeId).Nodup)
    (hentry : ¬ own.entryId < 0) (hself : own.selfVerified = true) :
    CountsSigned own replicas rf ↔
      ∀ t ∈ replicas, tipVote own t = .agreeing → t.signature ≠ [] := by
  have hnodup : (agreeingNodes own replicas).Nodup :=
    hdistinct.sublist ((filter_sublist.map _).cons_cons _)
  unfold CountsSigned
  rw [evaluateCheckpoint_agreeing hentry hself]
  constructor
  · rintro ⟨nodes, hcard, hnodes⟩ t ht hvote hunsigned
    -- The counted nodes are among the agreeing ones, without that of `t`.
    have hsub : nodes ⊆ (agreeingNodes own replicas).toFinset.erase t.nodeId := by
      intro id hid
      have hne : t.nodeId ∉ [own.nodeId] := by
        intro hmem
        rw [mem_singleton] at hmem
        exact (nodup_cons.mp hdistinct).1 (hmem ▸ mem_map_of_mem ht)
      rcases hnodes id hid with rfl | ⟨t', ht', rfl, hvote', hsigned⟩
      · refine Finset.mem_erase.mpr ⟨fun h => hne (mem_singleton.mpr h.symm), ?_⟩
        exact mem_toFinset.mpr mem_cons_self
      · refine Finset.mem_erase.mpr ⟨fun h => ?_, ?_⟩
        · have := inj_on_of_nodup_map (nodup_cons.mp hdistinct).2 ht' ht h
          exact hsigned (this ▸ hunsigned)
        · refine mem_toFinset.mpr (mem_cons_of_mem _ (mem_map_of_mem ?_))
          exact mem_filter.mpr ⟨ht', decide_eq_true hvote'⟩
    have hmem : t.nodeId ∈ (agreeingNodes own replicas).toFinset :=
      mem_toFinset.mpr (mem_cons_of_mem _ (mem_map_of_mem
        (mem_filter.mpr ⟨ht, decide_eq_true hvote⟩)))
    have hle := Finset.card_le_card hsub
    rw [Finset.card_erase_of_mem hmem, toFinset_card_of_nodup hnodup] at hle
    have : 0 < (agreeingNodes own replicas).length := Nat.succ_pos _
    omega
  · intro hsigned
    refine ⟨(agreeingNodes own replicas).toFinset, toFinset_card_of_nodup hnodup,
      fun id hid => ?_⟩
    rcases mem_cons.mp (mem_toFinset.mp hid) with rfl | hid
    · exact Or.inl rfl
    · obtain ⟨t, ht, rfl⟩ := mem_map.mp hid
      obtain ⟨ht, hvote⟩ := mem_filter.mp ht
      exact Or.inr ⟨t, ht, rfl, of_decide_eq_true hvote, hsigned t ht (of_decide_eq_true hvote)⟩

/-- **Quorum safety.**  No two evaluations among the replicas of a factor proceed at one entry with
different hashes, exactly if the factor is not 2 and its quorum fits an `int`.  And an evaluation
that gets to the votes, over the tips of distinct replicas, counts every node once and only signed
reports, exactly if no report that agrees is unsigned. -/
theorem checkpoint_quorum_iff (rf : UInt32) :
    (QuorumSafe rf ↔ rf ≠ 2 ∧ rf.toNat ≤ 2 ^ 31) ∧
    ∀ (own : ReplicaTip) (replicas : List ReplicaTip),
      ((own :: replicas).map ReplicaTip.nodeId).Nodup → ¬ own.entryId < 0 →
      own.selfVerified = true → (CountsSigned own replicas rf ↔
        ∀ t ∈ replicas, tipVote own t = .agreeing → t.signature ≠ []) :=
  ⟨quorumSafe_iff, fun _ _ => countsSigned_iff⟩

/-- A report at the hash `[1]`, made of an answer without a signature. -/
def unsignedTips : List ReplicaTip :=
  NetworkManager.collectReplicaTips
    { engine := { nodeId := [110], sign := fun _ => [], clock := { nodeId := [110] }
                  storage := { wal := { path := [], originNodeId := [110] }, disk := {}
                               catalog := {}, router := {} }
                  transit := { holderNodeId := [110] } }
      peers := [⟨[98], 1, false⟩, ⟨[99], 1, false⟩] }
    (fun _ _ _ _ => false) fun _ => some
      { entries := [{ entryId := 0, operation := .kPut, keyHash := [], entryHash := [1]
                      prevHash := [], originNodeId := [], originSignature := []
                      hlcPhysicalMs := 0, hlcLogical := 0, transitHolder := []
                      transitSizeBytes := 0, transitChunkIndex := 0, transitChunkTotal := 0 }] }

/-- Two nodes with a factor of 2 proceed with different hashes; and two answers without a signature
make up a quorum of three. -/
theorem unsigned_votes_count :
    (evaluateCheckpoint (loneTip [97] [1]) [] 2).proceed = true ∧
    (evaluateCheckpoint (loneTip [98] [2]) [] 2).proceed = true ∧
    (evaluateCheckpoint (loneTip [97] [1]) [] 2).checkpointLsn =
      (evaluateCheckpoint (loneTip [98] [2]) [] 2).checkpointLsn ∧
    (evaluateCheckpoint (loneTip [97] [1]) [] 2).agreedEntryHash ≠
      (evaluateCheckpoint (loneTip [98] [2]) [] 2).agreedEntryHash ∧
    (evaluateCheckpoint (loneTip [97] [1]) [] 3).proceed = false ∧
    (evaluateCheckpoint (loneTip [97] [1]) unsignedTips 3).proceed = true ∧
    (evaluateCheckpoint (loneTip [97] [1]) unsignedTips 3).agreeing = 3 := by
  decide +kernel

/-- Three replicas, and one of them without any reports. -/
theorem checkpoint_quorum_three :
    QuorumSafe 3 ∧ CountsSigned (loneTip [97] [1]) [] 3 :=
  ⟨(checkpoint_quorum_iff 3).1.mpr (by decide),
    ((checkpoint_quorum_iff 3).2 (loneTip [97] [1]) [] (by decide) (by decide) rfl).mpr nofun⟩

end DeSentry
