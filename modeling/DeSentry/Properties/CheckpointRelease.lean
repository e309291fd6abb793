import DeSentry.Properties.CheckpointClaims

/-!
# What a checkpoint releases

Behind the prune a checkpoint releases held envelopes: it hands `Release` the key hashes of the
settled intents, and `Release` drops every envelope whose key hash is among them.  The two are
hashes of different things: the ledger's is of owner and key, the envelope's of collection and key,
or of a chunk of the two.  So which envelopes go does not depend on which are settled
(`checkpoint_releases_settled_iff`).  As a rule none goes at all, and an owner that is named like a
collection makes a checkpoint drop bytes nobody has collected
(`release_drops_unclaimed_envelope`).
-/

namespace DeSentry

open ByteCodec WriteAheadLog List

variable {c : Crypto} {records : List WalRecord}

/-! ## The loop of `Release` -/

/-- Two ways to remove elements of a list, one of which stops early, agree. -/
lemma filter_append_eq_filter_iff {α : Type*} [DecidableEq α] {p q : α → Bool} {as bs : List α} :
    as.filter p ++ bs = (as ++ bs).filter q ↔
      (∀ x ∈ as, p x = q x) ∧ ∀ x ∈ bs, q x = true := by
  constructor
  · intro h
    -- elements are compared by how often they occur, since they may occur on both sides
    have hcount : ∀ x, (as.filter p).count x + bs.count x = ((as ++ bs).filter q).count x := by
      intro x
      rw [← count_append, h]
    have hq : ∀ x, 0 < (as.filter p).count x + bs.count x → q x = true := by
      intro x hx
      rw [hcount x] at hx
      exact (mem_filter.mp (count_pos_iff.mp hx)).2
    refine ⟨fun x hx => ?_, fun x hx => hq x (Nat.add_pos_right _ (count_pos_iff.mpr hx))⟩
    by_cases hp : p x = true
    · rw [hp, hq x (Nat.add_pos_left (count_pos_iff.mpr (mem_filter.mpr ⟨hx, hp⟩)) _)]
    · have hzero : (as.filter p).count x = 0 :=
        count_eq_zero.mpr fun hmem => hp (mem_filter.mp hmem).2
      have hpos : 0 < as.count x := count_pos_iff.mpr hx
      have hlost := hcount x
      by_cases hkeep : q x = true
      · rw [count_filter hkeep, count_append] at hlost
        omega
      · rw [Bool.eq_false_of_not_eq_true hp, Bool.eq_false_of_not_eq_true hkeep]
  · rintro ⟨has, hbs⟩
    rw [filter_append, filter_congr has, filter_eq_self.mpr hbs]

namespace TransitStore

variable {env : ReleaseEnv} {wanted : List Bytes}

/-- The loop goes on behind the entry: it is kept, or its drop record is written. -/
def passes (env : ReleaseEnv) (wanted : List Bytes) (x : Bytes × TransitEnvelope) : Bool :=
  decide (x.2.keyHash ∉ wanted) || (env.dropped x.2).isOk

/-- The loop drops the wanted entries up to the first drop record it cannot write. -/
lemma entries_releaseFrom (entries : List (Bytes × TransitEnvelope)) :
    (releaseFrom env wanted entries).2 =
      (entries.takeWhile (passes env wanted)).filter (fun x => decide (x.2.keyHash ∉ wanted)) ++
        entries.dropWhile (passes env wanted) := by
  induction entries with
  | nil => rfl
  | cons x rest ih =>
    rw [releaseFrom]
    by_cases hwanted : x.2.keyHash ∉ wanted
    · have hpass : passes env wanted x = true := by simp [passes, hwanted]
      rw [if_pos hwanted, takeWhile_cons_of_pos hpass, dropWhile_cons_of_pos hpass,
        filter_cons_of_pos (by simpa using hwanted), cons_append, ← ih]
    · rw [if_neg hwanted]
      cases hdrop : env.dropped x.2 with
      | error st =>
        have hstop : ¬ passes env wanted x = true := by
          simp [passes, hwanted, hdrop, Except.isOk, Except.toBool]
        rw [takeWhile_cons_of_neg hstop, dropWhile_cons_of_neg hstop]
        rfl
      | ok u =>
        have hpass : passes env wanted x = true := by
          simp [passes, hdrop, Except.isOk, Except.toBool]
        rw [takeWhile_cons_of_pos hpass, dropWhile_cons_of_pos hpass,
          filter_cons_of_neg (by simpa using hwanted), ← ih]

lemma entries_release (store : TransitStore) : (store.release env wanted).2.entries =
    (store.entries.takeWhile (passes env wanted)).filter (fun x => decide (x.2.keyHash ∉ wanted)) ++
      store.entries.dropWhile (passes env wanted) := by
  unfold release
  split_ifs with hempty
  · have hpass : ∀ x ∈ store.entries, passes env wanted x = true := by simp [passes, hempty]
    rw [takeWhile_eq_self_iff.mpr hpass, dropWhile_eq_nil_iff.mpr hpass, append_nil,
      filter_eq_self.mpr (by simp [hempty])]
  · dsimp only
    split
    · exact entries_releaseFrom _
    · split_ifs
      · exact entries_releaseFrom _
      · exact entries_releaseFrom _

end TransitStore

/-! ## Settled envelopes -/

/-- The intent of the envelope and a later claim of it are both in the ledger, at or below the
checkpoint. -/
def TransitEnvelope.Settled (records : List WalRecord) (checkpointLsn : Int64)
    (envelope : TransitEnvelope) : Prop :=
  ∃ intent ∈ records, ∃ claim ∈ records,
    (intent.type = .kTransitIntent ∧ intent.lsn = envelope.intentLsn ∧
      intent.collection = envelope.ownerNode ∧ intent.documentBytes = envelope.keyHash) ∧
    (claim.type = .kTransitClaimed ∧ claim.collection = envelope.ownerNode ∧
      claim.documentBytes = envelope.keyHash) ∧ intent.lsn < claim.lsn ∧ claim.lsn ≤ checkpointLsn

instance (records : List WalRecord) (checkpointLsn : Int64) (envelope : TransitEnvelope) :
    Decidable (envelope.Settled records checkpointLsn) :=
  inferInstanceAs (Decidable (∃ intent ∈ records, ∃ claim ∈ records, _))

/-- **A checkpoint releases exactly the settled envelopes if and only if** the key hash of each
envelope the loop of `Release` comes to is that of a settled ledger entry just when the envelope is
settled, and the loop leaves no settled envelope behind. -/
theorem checkpoint_releases_settled_iff (c : Crypto) (env : CheckpointEnv) (e : NodeEngine)
    (own : ReplicaTip) (replicas : List ReplicaTip) (rf : UInt32) (now : HLCTimestamp)
    (outcome : CheckpointOutcome) (s' : CheckpointState) (records : List WalRecord)
    (hrun : runCheckpoint c env e.checkpointState own replicas rf now = (.ok outcome, s'))
    (hproceed : outcome.decision.proceed = true)
    (hread : e.storage.wal.readAll c e.storage.disk = .ok records) :
    let checkpointLsn := outcome.decision.checkpointLsn
    let settled := settledBelow records checkpointLsn
    s'.transit.entries = e.transit.entries.filter
        (fun x => decide (¬ x.2.Settled records checkpointLsn)) ↔
      (∀ x ∈ e.transit.entries.takeWhile (TransitStore.passes env.release settled),
        x.2.keyHash ∈ settled ↔ x.2.Settled records checkpointLsn) ∧
      ∀ x ∈ e.transit.entries.dropWhile (TransitStore.passes env.release settled),
        ¬ x.2.Settled records checkpointLsn := by
  intro checkpointLsn settled
  obtain ⟨entries, -, -, -, -, hentries, -, -, -, htransit⟩ := runCheckpoint_proceeds hrun hproceed
  obtain rfl : entries = records := Except.ok.inj (hentries.symm.trans hread)
  have hafter : s'.transit.entries =
      (e.transit.entries.takeWhile (TransitStore.passes env.release settled)).filter
        (fun x => decide (x.2.keyHash ∉ settled)) ++
      e.transit.entries.dropWhile (TransitStore.passes env.release settled) := by
    rw [htransit]
    exact TransitStore.entries_release _
  have hsplit := takeWhile_append_dropWhile (p := TransitStore.passes env.release settled)
    (l := e.transit.entries)
  have hbefore := congrArg
    (List.filter fun x => decide (¬ x.2.Settled entries checkpointLsn)) hsplit
  rw [hafter, ← hbefore, filter_append_eq_filter_iff]
  simp only [decide_eq_decide, not_iff_not, decide_eq_true_eq]

/-! ## An uncollected envelope is released -/

/-- After a hold for `[98]` and its claim, the node holds the key `k` of the collection `b` for
another owner; `[98]` are also the bytes of the name `b`. -/
def sampleCrossed : NodeEngine :=
  (sampleSettled.holdForOfflineOwner sampleCrypto (fun _ => { wall := 5000 }) 0 [120] (text "b")
    (text "k") [1] none []).2

/-- The second intent. -/
def sampleCrossedIntent : LedgerCall :=
  sampleSettled.intentCall sampleCrypto { wall := 5000 } [120] (text "b") (text "k") [1] [] 1 0

/-- The records of `sampleCrossed`. -/
def sampleCrossedRecords : List WalRecord :=
  sampleSettledRecords ++ [sampleCrossedIntent.record sampleCrypto sampleSettled.ledger]

lemma sampleCrossed_sound : Sound sampleCrypto [] sampleCrossed.ledger sampleCrossedRecords :=
  sampleSettled_sound.appended (i := sampleCrossedIntent) ⟨by decide +kernel, rfl⟩
    (by decide +kernel)

/-- The checkpoint at the tip proceeds.  It keeps the envelope that was collected and drops the one
that was not: the ledger's hash of the owner `b` and the key `k` is the envelope's hash of the
collection `b` and the key `k`. -/
theorem release_drops_unclaimed_envelope : ∃ outcome s',
    runCheckpoint sampleCrypto {} sampleCrossed.checkpointState (sampleTip 2) [] 1 {} =
        (.ok outcome, s') ∧ outcome.decision.proceed = true ∧
      sampleCrossed.storage.wal.readAll sampleCrypto sampleCrossed.storage.disk =
        .ok sampleCrossedRecords ∧
      (∃ x ∈ sampleCrossed.transit.entries, x ∉ s'.transit.entries ∧ x.2.collection = text "b" ∧
        ¬ x.2.Settled sampleCrossedRecords outcome.decision.checkpointLsn) ∧
      ∃ x ∈ s'.transit.entries, x.2.collection = text "c" ∧
        x.2.Settled sampleCrossedRecords outcome.decision.checkpointLsn := by
  obtain ⟨outcome, s', records', hrun, hdecision, -⟩ := checkpoint_runs sampleCrossed
    (sampleTip 2) [] 1 {} sampleCrossed_sound rfl rfl (by decide +kernel) (by decide +kernel) rfl
    ⟨by decide +kernel, rfl⟩ (by decide +kernel)
  have hproceed : outcome.decision.proceed = true := hdecision ▸ by decide +kernel
  have hlsn : outcome.decision.checkpointLsn = 2 := hdecision ▸ by decide +kernel
  have hread := sampleCrossed_sound.ledger.readAll_eq rfl
  obtain ⟨entries, -, -, -, -, hentries, -, -, -, htransit⟩ := runCheckpoint_proceeds hrun hproceed
  obtain rfl : entries = sampleCrossedRecords := Except.ok.inj (hentries.symm.trans hread)
  refine ⟨outcome, s', hrun, hproceed, hread, ?_⟩
  rw [htransit, hlsn]
  decide +kernel

/-- The node after a hold and its claim, for an owner with the name of the collection. -/
abbrev sampleNamesake : NodeEngine := sampleClaim (sampleHold sampleNode "b") "b"

/-- The records of `sampleNamesake`. -/
def sampleNamesakeRecords : List WalRecord :=
  [(sampleIntent sampleNode "b").record sampleCrypto sampleNode.ledger,
    (sampleClaimCall (sampleHold sampleNode "b") "b").record sampleCrypto
      (sampleHold sampleNode "b").ledger]

lemma sampleNamesake_sound :
    Sound sampleCrypto [] sampleNamesake.ledger sampleNamesakeRecords := by
  have hheld : Sound sampleCrypto [] (sampleHold sampleNode "b").ledger
      [(sampleIntent sampleNode "b").record sampleCrypto sampleNode.ledger] :=
    sampleNode_sound.appended (i := sampleIntent sampleNode "b") ⟨by decide +kernel, rfl⟩
      (by decide +kernel)
  exact hheld.appended (i := sampleClaimCall (sampleHold sampleNode "b") "b")
    ⟨by decide +kernel, rfl⟩ (by decide +kernel)

/-- Here the two hashes agree, and the checkpoint releases the one envelope, which is settled. -/
theorem checkpoint_releases_settled_iff_sample : ∃ outcome s',
    runCheckpoint sampleCrypto {} sampleNamesake.checkpointState (sampleTip 1) [] 1 {} =
        (.ok outcome, s') ∧ outcome.decision.proceed = true ∧
      s'.transit.entries = sampleNamesake.transit.entries.filter fun x =>
        decide (¬ x.2.Settled sampleNamesakeRecords outcome.decision.checkpointLsn) := by
  obtain ⟨outcome, s', records', hrun, hdecision, -⟩ := checkpoint_runs sampleNamesake
    (sampleTip 1) [] 1 {} sampleNamesake_sound rfl rfl (by decide +kernel) (by decide +kernel) rfl
    ⟨by decide +kernel, rfl⟩ (by decide +kernel)
  have hproceed : outcome.decision.proceed = true := hdecision ▸ by decide +kernel
  have hlsn : outcome.decision.checkpointLsn = 1 := hdecision ▸ by decide +kernel
  refine ⟨outcome, s', hrun, hproceed, (checkpoint_releases_settled_iff sampleCrypto {} sampleNamesake
    (sampleTip 1) [] 1 {} outcome s' sampleNamesakeRecords hrun hproceed
    (sampleNamesake_sound.ledger.readAll_eq rfl)).mpr ?_⟩
  rw [hlsn]
  decide +kernel

end DeSentry
