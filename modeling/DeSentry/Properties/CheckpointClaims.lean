import DeSentry.Construction.Ledger.Checkpoint
import DeSentry.Properties.ReadYourWrites
import DeSentry.Properties.WalChain

/-!
# What a checkpoint discards

A `TRANSIT_INTENT` says that bytes are held for an offline owner, a `TRANSIT_CLAIMED` that the owner
has them.  The ledger pairs the two by the key hash of the record, a digest of owner and key: the
collection and the chunk are only in the payload, and the order of the records does not count.  So
an intent counts as claimed when any claim for its owner and key is in the ledger, for another
collection, another chunk, or an earlier hold of the same document.

The histories in which nothing is confused are `TransitRun`: a chunk is held only while the ledger
has no claim with its key hash, and a claim is recorded only while all intents with its key hash are
the one it claims.  In such a history a checkpoint that proceeds finds every intent below it claimed,
and drops no intent without its own claim (`checkpoint_drops_claimed_intents`).  Nothing in the
code ensures the condition, and two collections with one key are enough to lose held bytes
(`alias_discards_unclaimed_intent`).
-/

namespace DeSentry

open ByteCodec WriteAheadLog NodeEngine List

variable {c : Crypto} {dek : Bytes} {records : List WalRecord} {r : WalRecord}

/-! ## Claims -/

/-- The claim settles the intent: same owner, key and payload, and a later record. -/
def Settles (claim intent : WalRecord) : Prop :=
  claim.collection = intent.collection ∧ claim.key = intent.key ∧
    claim.documentBytes = intent.documentBytes ∧ intent.lsn < claim.lsn

/-- Every claim in the ledger settles all intents with its key hash. -/
def ClaimsExact (records : List WalRecord) : Prop :=
  ∀ intent ∈ records, ∀ claim ∈ records, intent.type = .kTransitIntent →
    claim.type = .kTransitClaimed → claim.keyHash = intent.keyHash → Settles claim intent

variable {n : Int64}

lemma mem_claimedBelow {h : Bytes} (hh : h ∈ claimedBelow n records) :
    ∃ claim ∈ records, claim.type = .kTransitClaimed ∧ claim.keyHash = h ∧ claim.lsn ≤ n := by
  obtain ⟨claim, hclaim, rfl⟩ := mem_map.mp hh
  obtain ⟨hmem, htype⟩ := mem_filter.mp hclaim
  have hle : ¬ claim.lsn > n := by simpa using mem_takeWhile_imp hmem
  exact ⟨claim, takeWhile_subset _ hmem, of_decide_eq_true htype, rfl, Int64.not_lt.mp hle⟩

/-- What `Prune` drops is claimed. -/
lemma ClaimsExact.of_droppable (h : ClaimsExact records) (hr : r ∈ records)
    (htype : r.type = .kTransitIntent) (hdrop : droppable n (claimedBelow n records) r = true) :
    ∃ claim ∈ records, claim.type = .kTransitClaimed ∧ Settles claim r ∧ claim.lsn ≤ n := by
  simp only [droppable, Bool.and_eq_true, decide_eq_true_eq] at hdrop
  obtain ⟨claim, hclaim, hkind, hhash, hle⟩ := mem_claimedBelow hdrop.2
  exact ⟨claim, hclaim, hkind, h r hr claim hclaim htype hkind hhash, hle⟩

/-- In an ordered list the scan up to a bound reaches every record below it. -/
lemma mem_takeWhile_of_ordered {p : WalRecord → Bool} (hord : records.Pairwise (·.lsn < ·.lsn))
    (hr : r ∈ records) (hp : ∀ q ∈ records, q.lsn ≤ r.lsn → p q = true) :
    r ∈ records.takeWhile p := by
  induction records with
  | nil => exact absurd hr not_mem_nil
  | cons q qs ih =>
    obtain ⟨hq, hqs⟩ := pairwise_cons.mp hord
    rcases mem_cons.mp hr with rfl | hr
    · rw [takeWhile_cons_of_pos (hp r mem_cons_self (Int64.le_refl _))]
      exact mem_cons_self
    · rw [takeWhile_cons_of_pos (hp q mem_cons_self (Int64.le_of_lt (hq r hr)))]
      exact mem_cons_of_mem q (ih hqs hr fun x hx => hp x (mem_cons_of_mem q hx))

/-- What is below a checkpoint that passes the second gate is claimed. -/
lemma ClaimsExact.of_gate (h : ClaimsExact records) (hord : records.Pairwise (·.lsn < ·.lsn))
    (hgate : unclaimedIntentsBelow records n = []) (hr : r ∈ records)
    (htype : r.type = .kTransitIntent) (hlt : r.lsn < n) :
    ∃ claim ∈ records, claim.type = .kTransitClaimed ∧ Settles claim r ∧ claim.lsn ≤ n := by
  have hscan : r ∈ records.takeWhile fun r => ¬ r.lsn ≥ n := by
    refine mem_takeWhile_of_ordered hord hr fun q _ hq => ?_
    simpa using Int64.lt_of_le_of_lt hq hlt
  have hclaimed : r.keyHash ∈ claimedBelow n records := by
    by_contra hnot
    have hmem : r.keyHash ∈ unclaimedIntentsBelow records n := by
      rw [unclaimedIntentsBelow, mem_eraseDups]
      refine mem_map_of_mem (mem_filter.mpr ⟨hscan, ?_⟩)
      simp only [htype, decide_true, Bool.true_and, hnot, not_false_eq_true]
    rw [hgate] at hmem
    exact not_mem_nil hmem
  obtain ⟨claim, hclaim, hkind, hhash, hle⟩ := mem_claimedBelow hclaimed
  exact ⟨claim, hclaim, hkind, h r hr claim hclaim htype hkind hhash, hle⟩

/-- Old records, possibly relinked, pair as before. -/
lemma ClaimsExact.of_kept {rs : List WalRecord} (h : ClaimsExact records)
    (hrs : ∀ r ∈ rs, ∃ r' ∈ records, r = r' ∨ ∃ prev, r = relink c prev r') : ClaimsExact rs := by
  have hold : ∀ r ∈ rs, ∃ r' ∈ records, r.type = r'.type ∧ r.collection = r'.collection ∧
      r.key = r'.key ∧ r.documentBytes = r'.documentBytes ∧ r.keyHash = r'.keyHash ∧
      r.lsn = r'.lsn := by
    intro r hr
    obtain ⟨r', hr', rfl | ⟨prev, rfl⟩⟩ := hrs r hr
    · exact ⟨r, hr', rfl, rfl, rfl, rfl, rfl, rfl⟩
    · exact ⟨r', hr', rfl, rfl, rfl, rfl, rfl, rfl⟩
  intro intent hi claim hc hintent hclaim hhash
  obtain ⟨i, hi, hit, hic, hik, hid, hih, hil⟩ := hold intent hi
  obtain ⟨l, hl, hlt, hlc, hlk, hld, hlh, hll⟩ := hold claim hc
  have hs := h i hi l hl (hit ▸ hintent) (hlt ▸ hclaim) (by rw [← hih, ← hlh, hhash])
  simpa only [Settles, hic, hik, hid, hil, hlc, hlk, hld, hll] using hs

/-! ## Appends that do not confuse anything -/

/-- The append is stored and readable, or it fails and leaves no bytes. -/
def Logs (c : Crypto) (s : LogState) (i : LedgerCall) : Prop :=
  Stored c s i ∧ (i.record c s).Loggable s.1.subkey ∨
    (appendStep c s i).2 = none ∧ ¬ Writes c s i

/-- An intent finds no claim with its key hash in the ledger, and a claim finds no intent with its
key hash but the one it claims. -/
def Unconfused (c : Crypto) (s : LogState) (call : AppendCall) : Prop :=
  ∀ records, s.1.readAll c s.2 = .ok records → ∀ r ∈ records,
    r.keyHash = ledgerKeyHash c call.collection call.key →
      (call.type = .kTransitIntent → r.type ≠ .kTransitClaimed) ∧
      (call.type = .kTransitClaimed → r.type = .kTransitIntent →
        call.collection = r.collection ∧ call.key = r.key ∧ call.documentBytes = r.documentBytes)

/-- The fields of the record a call writes. -/
lemma record_fields (i : LedgerCall) (s : LogState) :
    (i.record c s).type = i.call.type ∧ (i.record c s).collection = i.call.collection ∧
      (i.record c s).key = i.call.key ∧ (i.record c s).documentBytes = i.call.documentBytes ∧
      (i.record c s).keyHash = ledgerKeyHash c i.call.collection i.call.key ∧
      (i.record c s).lsn = s.1.nextLsn := by
  simp only [LedgerCall.record, newRecord, draftRecord]
  split_ifs <;> exact ⟨rfl, rfl, rfl, rfl, rfl, rfl⟩

lemma ClaimsExact.concat (h : ClaimsExact records) (hlt : ∀ q ∈ records, q.lsn < r.lsn)
    (hintent : r.type = .kTransitIntent → ∀ q ∈ records, q.type = .kTransitClaimed →
      q.keyHash ≠ r.keyHash)
    (hclaim : r.type = .kTransitClaimed → ∀ q ∈ records, q.type = .kTransitIntent →
      q.keyHash = r.keyHash → r.collection = q.collection ∧ r.key = q.key ∧
        r.documentBytes = q.documentBytes) : ClaimsExact (records ++ [r]) := by
  intro i hi l hl hit hlt' hhash
  rw [mem_append, mem_singleton] at hi hl
  rcases hi with hi | rfl <;> rcases hl with hl | rfl
  · exact h i hi l hl hit hlt' hhash
  · obtain ⟨hcoll, hkey, hdoc⟩ := hclaim hlt' i hi hit hhash.symm
    exact ⟨hcoll, hkey, hdoc, hlt i hi⟩
  · exact absurd hhash (hintent hit l hl hlt')
  · rw [hit] at hlt'
    exact absurd hlt' (by decide)

/-- A ledger in which every claim settles its intents. -/
def Paired (c : Crypto) (dek : Bytes) (s : LogState) : Prop :=
  ∃ records, Sound c dek s records ∧ ClaimsExact records

variable {wal : WriteAheadLog}

lemma Ledger.readAll_eq {disk : WalDisk} (hopen : wal.isOpen = true)
    (h : Ledger c wal.subkey disk.file records) : wal.readAll c disk = .ok records := by
  have hledger : Ledger c wal.subkey (wal.contents disk) records := by
    rw [WriteAheadLog.contents, hopen]
    exact h
  exact bind_eq_ok.mpr ⟨_, Sound.readAllLocked_contents (s := (wal, disk)) hledger, rfl⟩

variable {s : LogState} {i : LedgerCall}

lemma ClaimsExact.appended (h : ClaimsExact records) (hsound : Sound c dek s records)
    (hopen : s.1.isOpen = true) (hu : Unconfused c s i.call) :
    ClaimsExact (records ++ [i.record c s]) := by
  have hread := hsound.ledger.readAll_eq hopen
  obtain ⟨htype, hcoll, hkey, hdoc, hhash, hlsn⟩ := record_fields i s
  refine h.concat ?_ ?_ ?_
  · intro q hq
    rw [hlsn, (hsound.object hopen).2]
    exact (hsound.ledger.lsn_bounds q hq).2
  · intro hit q hq hqt heq
    rw [hhash] at heq
    exact (hu records hread q hq heq).1 (htype ▸ hit) hqt
  · intro hit q hq hqt heq
    rw [hhash] at heq
    rw [hcoll, hkey, hdoc]
    exact (hu records hread q hq heq).2 (htype ▸ hit) hqt

lemma Stored.wasOpen (h : Stored c s i) : s.1.isOpen = true :=
  (appendStep_acked h.1).1.wasOpen

lemma Paired.append (h : Paired c dek s) (hi : Logs c s i) (hu : Unconfused c s i.call) :
    Paired c dek (appendStep c s i).1 := by
  obtain ⟨records, hsound, hexact⟩ := h
  rcases hi with ⟨hstored, hlog⟩ | ⟨hnone, hwrites⟩
  · exact ⟨_, hsound.appended hstored hlog, hexact.appended hsound hstored.wasOpen hu⟩
  · exact ⟨records, hsound.refused hnone hwrites, hexact⟩

/-! ## Histories of a node -/

namespace NodeEngine

/-- The ledger of a node. -/
def ledger (e : NodeEngine) : LogState := (e.storage.wal, e.storage.disk)

/-- What a checkpoint works on. -/
def checkpointState (e : NodeEngine) : CheckpointState :=
  ⟨e.storage.wal, e.storage.disk, e.transit⟩

/-- An append by the node itself. -/
def logCall (e : NodeEngine) (env : AppendEnv) (call : AppendCall) : LedgerCall :=
  { origin := e.storage.wal.originNodeId, signer := e.storage.wal.signer, call, env }

/-- The intent of one chunk. -/
def intentCall (e : NodeEngine) (c : Crypto) (env : ChunkEnv)
    (owner collection key doc messageId : Bytes) (chunkTotal i : UInt32) : LedgerCall :=
  e.logCall env.append
    { type := .kTransitIntent, collection := owner, key
      documentBytes := (e.chunkEnvelope c owner collection key doc messageId chunkTotal i).keyHash
      options :=
        { transitHolder := e.nodeId, transitSizeBytes := UInt64.ofNat doc.length
          transitChunkIndex := i, transitChunkTotal := chunkTotal, hlc := (e.now env.wall).2 } }

/-- The claim of `RecordRemoteClaim`. -/
def remoteClaimCall (e : NodeEngine) (env : ClaimEnv) (owner keyHash : Bytes) : LedgerCall :=
  e.logCall env.append
    { type := .kTransitClaimed, collection := owner, key := e.claimKey env.nowMs owner keyHash
      documentBytes := keyHash, options := { hlc := (e.now env.wall).2 } }

/-- The claim of `ApplyClaimedTransit`, behind its merge. -/
def ownClaimCall (e : NodeEngine) (c : Crypto) (env : ClaimEnv) (collection key : Bytes) :
    LedgerCall :=
  e.logCall env.append
    { type := .kTransitClaimed, collection := e.nodeId, key
      documentBytes := ledgerKeyHash c collection key, options := { hlc := (e.now env.wall).2 } }

variable {e : NodeEngine}

lemma ledger_holdChunk (env : ChunkEnv) (owner collection key doc messageId : Bytes)
    (chunkTotal i : UInt32) :
    (e.holdChunk c env owner collection key doc messageId chunkTotal i).2.ledger =
      (appendStep c e.ledger
        (e.intentCall c env owner collection key doc messageId chunkTotal i)).1 := by
  unfold holdChunk
  dsimp only
  split <;> rfl

/-- Without an intent nothing is held. -/
lemma intent_of_holdChunk {env : ChunkEnv} {owner collection key doc messageId : Bytes}
    {chunkTotal i : UInt32} {e' : NodeEngine}
    (h : e.holdChunk c env owner collection key doc messageId chunkTotal i = (.ok (), e')) :
    (appendStep c e.ledger
      (e.intentCall c env owner collection key doc messageId chunkTotal i)).2.isSome = true := by
  unfold holdChunk at h
  dsimp only at h
  split at h
  · cases h
  · rename_i hlsn
    rw [appendStep, Option.isSome_map]
    exact congrArg (fun lsn : Except Status Int64 => lsn.toOption.isSome) hlsn

lemma ledger_recordRemoteClaim (env : ClaimEnv) (owner keyHash : Bytes) :
    (e.recordRemoteClaim c env owner keyHash).2.ledger = e.ledger ∨
      (e.recordRemoteClaim c env owner keyHash).2.ledger =
        (appendStep c e.ledger (e.remoteClaimCall env owner keyHash)).1 := by
  unfold recordRemoteClaim
  split_ifs
  · exact Or.inl rfl
  · exact Or.inr rfl

lemma ledger_applyClaimedTransit (env : WriteEnv) (claim : ClaimEnv)
    (appended : Except Status Unit) (collection key doc : Bytes) :
    (e.applyClaimedTransit c env claim appended collection key doc).2.ledger =
        (e.mergeRemote c env appended collection key doc { nodeId := e.nodeId }).2.ledger ∨
      (e.applyClaimedTransit c env claim appended collection key doc).2.ledger =
        (appendStep c
          (e.mergeRemote c env appended collection key doc { nodeId := e.nodeId }).2.ledger
          ((e.mergeRemote c env appended collection key doc { nodeId := e.nodeId }).2.ownClaimCall c
            claim collection key)).1 := by
  unfold applyClaimedTransit
  rcases e.mergeRemote c env appended collection key doc { nodeId := e.nodeId } with
    ⟨failure | done, e'⟩
  · exact Or.inl rfl
  · right
    dsimp only
    split
    · rfl
    · rw [ledger, storage_persistClockIfDue]
      rfl

end NodeEngine

/-! ## What a checkpoint does to the ledger -/

/-- The marker record of a checkpoint. -/
def markerCall (decision : CheckpointDecision) (now : HLCTimestamp) : AppendCall :=
  { type := .kCheckpoint, collection := [], key := text "checkpoint"
    documentBytes := checkpointAttestation decision, options := { hlc := now } }

section Checkpoint

variable {env : CheckpointEnv} {s s' : CheckpointState} {own : ReplicaTip}
  {replicas : List ReplicaTip} {rf : UInt32} {now : HLCTimestamp} {outcome : CheckpointOutcome}

/-- A checkpoint leaves the ledger alone, or appends its marker, or prunes behind the marker. -/
lemma ledger_runCheckpoint (c : Crypto) (env : CheckpointEnv) (s : CheckpointState)
    (own : ReplicaTip) (replicas : List ReplicaTip) (rf : UInt32) (now : HLCTimestamp) :
    let out := (runCheckpoint c env s own replicas rf now).2
    let decision := evaluateCheckpoint own replicas rf
    let marked := (s.wal.append c env.append s.disk (markerCall decision now)).2
    (out.wal, out.disk) = (s.wal, s.disk) ∨ (out.wal, out.disk) = marked ∨
      (out.wal, out.disk) = (marked.1.prune c env.rewrite marked.2 decision.checkpointLsn).2 := by
  intro out decision marked
  simp only [out, runCheckpoint]
  split_ifs
  · exact Or.inl rfl
  cases s.wal.readAll c s.disk with
  | error failure => exact Or.inl rfl
  | ok entries =>
    dsimp only
    split_ifs
    · exact Or.inl rfl
    unfold settleCheckpoint
    dsimp only
    split
    · exact Or.inr (Or.inl rfl)
    · split
      · exact Or.inr (Or.inr rfl)
      · exact Or.inr (Or.inr rfl)

/-- A checkpoint both of whose gates open. -/
lemma runCheckpoint_eq (env : CheckpointEnv) (s : CheckpointState) {decision : CheckpointDecision}
    {entries : List WalRecord} {lsn : Int64} {wal : WriteAheadLog} {disk : WalDisk}
    {result : PruneResult} {pruned : LogState}
    (hdecision : evaluateCheckpoint own replicas rf = decision) (hproceed : decision.proceed = true)
    (hread : s.wal.readAll c s.disk = .ok entries)
    (hgate : unclaimedIntentsBelow entries decision.checkpointLsn = [])
    (hmarker : s.wal.append c env.append s.disk (markerCall decision now) = (.ok lsn, wal, disk))
    (hprune : wal.prune c env.rewrite disk decision.checkpointLsn = (.ok result, pruned)) :
    let released := s.transit.release env.release (settledBelow entries decision.checkpointLsn)
    runCheckpoint c env s own replicas rf now =
      (.ok
        { decision, checkpointEntryId := lsn
          entriesPruned := result.dropped
          envelopesReleased := released.1.toOption.getD 0
          previousTipHash := result.previousTipHash
          newTipHash := result.newTipHash }, ⟨pruned.1, pruned.2, released.2⟩) := by
  rw [markerCall] at hmarker
  unfold runCheckpoint settleCheckpoint
  simp only [hdecision, hproceed, hread, hgate, hmarker, hprune, Bool.not_true, Bool.false_eq_true,
    if_false, ne_eq, not_true]

/-- What a checkpoint that proceeds has done. -/
lemma runCheckpoint_proceeds (h : runCheckpoint c env s own replicas rf now = (.ok outcome, s'))
    (hproceed : outcome.decision.proceed = true) :
    ∃ entries lsn wal disk result, s.wal.readAll c s.disk = .ok entries ∧
      unclaimedIntentsBelow entries outcome.decision.checkpointLsn = [] ∧
      s.wal.append c env.append s.disk (markerCall outcome.decision now) = (.ok lsn, wal, disk) ∧
      wal.prune c env.rewrite disk outcome.decision.checkpointLsn =
        (.ok result, s'.wal, s'.disk) ∧
      s'.transit = (s.transit.release env.release
        (settledBelow entries outcome.decision.checkpointLsn)).2 := by
  unfold runCheckpoint at h
  by_cases hgate : (!(evaluateCheckpoint own replicas rf).proceed) = true
  · rw [if_pos hgate] at h
    obtain ⟨rfl, -⟩ := Prod.mk.inj h |>.imp Except.ok.inj id
    rw [Bool.not_eq_true'] at hgate
    rw [hgate] at hproceed
    cases hproceed
  rw [if_neg hgate] at h
  cases hread : s.wal.readAll c s.disk with
  | error failure =>
    rw [hread] at h
    cases h
  | ok entries =>
    rw [hread] at h
    dsimp only at h
    by_cases hunclaimed : unclaimedIntentsBelow entries
        (evaluateCheckpoint own replicas rf).checkpointLsn ≠ []
    · rw [if_pos hunclaimed] at h
      obtain ⟨rfl, -⟩ := Prod.mk.inj h |>.imp Except.ok.inj id
      cases hproceed
    rw [if_neg hunclaimed] at h
    rw [not_not] at hunclaimed
    unfold settleCheckpoint at h
    rcases hmarker : s.wal.append c env.append s.disk
      (markerCall (evaluateCheckpoint own replicas rf) now) with ⟨st | lsn, wal, disk⟩
    · rw [markerCall] at hmarker
      rw [hmarker] at h
      cases h
    · rw [markerCall] at hmarker
      rw [hmarker] at h
      dsimp only at h
      rcases hprune : wal.prune c env.rewrite disk
        (evaluateCheckpoint own replicas rf).checkpointLsn with ⟨failure | result, wal', disk'⟩
      · rw [hprune] at h
        cases h
      · rw [hprune] at h
        obtain ⟨rfl, rfl⟩ := Prod.mk.inj h |>.imp Except.ok.inj id
        exact ⟨entries, lsn, wal, disk, result, rfl, hunclaimed, hmarker, hprune, rfl⟩

end Checkpoint

/-! ## Runs -/

lemma lsns_rechain (g : Bytes) (rs : List WalRecord) :
    (rechain c g rs).map (·.lsn) = rs.map (·.lsn) := by
  induction rs generalizing g with
  | nil => rfl
  | cons r rs ih =>
    rw [rechain, map_cons, ih]
    rfl

variable {env : RewriteEnv}

/-- What a `Prune` that returns OK leaves in the ledger. -/
lemma Sound.pruned {s' : LogState} {result : PruneResult} (h : Sound c dek s records)
    (hopen : s.1.isOpen = true) (hprune : s.1.prune c env s.2 n = (.ok result, s')) :
    ∃ rs, s'.1.readAll c s'.2 = .ok rs ∧
      rs.map (·.lsn) =
        (records.filter fun r => !droppable n (claimedBelow n records) r).map (·.lsn) := by
  have hread := h.ledger.readAll_eq hopen
  unfold WriteAheadLog.prune at hprune
  simp only [hread] at hprune
  split_ifs at hprune with hdropped
  · obtain rfl := (Prod.mk.inj hprune).2
    have hall : records.filter (fun r => !droppable n (claimedBelow n records) r) = records := by
      refine filter_sublist.eq_of_length_le ?_
      omega
    exact ⟨records, hread, by rw [hall]⟩
  · rcases rewriteLocked_cases env s.1 s.2 (rechain c genesisHash (records.filter fun r =>
        !droppable n (claimedBelow n records) r)) with
      ⟨st, hrw⟩ | ⟨st, hrw⟩ | ⟨ps, hseal, ⟨st, hrw⟩ | hrw⟩ <;> rw [hrw] at hprune
    · cases hprune
    · cases hprune
    · cases hprune
    · obtain rfl := (Prod.mk.inj hprune).2
      refine ⟨rechain c genesisHash (records.filter fun r =>
        !droppable n (claimedBelow n records) r), Ledger.readAll_eq rfl ?_, lsns_rechain _ _⟩
      rw [file_writeHwmBestEffort]
      exact h.ledger.rechain_filter _ hseal

/-- **The histories in which no claim is confused.**  The node does anything that does not touch
the ledger, appends to it, runs checkpoints, and is opened again. -/
inductive TransitRun (c : Crypto) (dek : Bytes) : NodeEngine → Prop
  | opened {env : OpenEnv} {walFile nodeId : Bytes} {signer : Option (Bytes → Bytes)}
      {wal : WriteAheadLog} {disk : WalDisk} {e : NodeEngine}
      (h : openLog c env walFile dek {} = (.ok wal, disk))
      (he : e.ledger = (wal.setOrigin nodeId signer, disk)) : TransitRun c dek e
  | elsewhere {e e' : NodeEngine} (h : TransitRun c dek e) (he : e'.ledger = e.ledger) :
      TransitRun c dek e'
  | appended {e e' : NodeEngine} {i : LedgerCall} (h : TransitRun c dek e) (hi : Logs c e.ledger i)
      (hu : Unconfused c e.ledger i.call) (he : e'.ledger = (appendStep c e.ledger i).1) :
      TransitRun c dek e'
  | checkpointed {e e' : NodeEngine} (env : CheckpointEnv) (own : ReplicaTip)
      (replicas : List ReplicaTip) (rf : UInt32) (now : HLCTimestamp) (h : TransitRun c dek e)
      (hi : Logs c e.ledger (e.logCall env.append
        (markerCall (evaluateCheckpoint own replicas rf) now)))
      (he : let out := (runCheckpoint c env e.checkpointState own replicas rf now).2
        e'.ledger = (out.wal, out.disk)) : TransitRun c dek e'
  | reopened {env : OpenEnv} {walFile nodeId : Bytes} {signer : Option (Bytes → Bytes)}
      {wal : WriteAheadLog} {disk : WalDisk} {e e' : NodeEngine} (h : TransitRun c dek e)
      (hopen : openLog c env walFile dek e.storage.disk = (.ok wal, disk))
      (he : e'.ledger = (wal.setOrigin nodeId signer, disk)) : TransitRun c dek e'

lemma Paired.prune (h : Paired c dek s) (env : RewriteEnv) (n : Int64) :
    Paired c dek (s.1.prune c env s.2 n).2 := by
  obtain ⟨records, hsound, hexact⟩ := h
  obtain ⟨rs, hrs, hkept⟩ := hsound.prune env n
  exact ⟨rs, hrs, hexact.of_kept hkept⟩

/-- A marker is neither intent nor claim. -/
lemma unconfused_marker (s : LogState) (decision : CheckpointDecision) (now : HLCTimestamp) :
    Unconfused c s (markerCall decision now) := by
  have hintent : WalRecordType.kCheckpoint ≠ .kTransitIntent := by decide
  have hclaim : WalRecordType.kCheckpoint ≠ .kTransitClaimed := by decide
  exact fun _ _ _ _ _ => ⟨fun h => absurd h hintent, fun h => absurd h hclaim⟩

/-- **In such a history every claim settles its intents.** -/
lemma TransitRun.paired {e : NodeEngine} (h : TransitRun c dek e) : Paired c dek e.ledger := by
  induction h with
  | opened hopen he =>
    obtain ⟨subkey, hkey, rfl, rfl⟩ := openLog_new hopen
    rw [he]
    refine ⟨[], ?_, fun i hi => absurd hi not_mem_nil⟩
    exact Sound.setOrigin (s := (ofRecords _ subkey [], {}))
      ⟨hkey, ledger_nil c subkey, fun _ => ⟨rfl, rfl⟩⟩ _ _
  | elsewhere _ he ih => rwa [he]
  | appended _ hi hu he ih =>
    rw [he]
    exact ih.append hi hu
  | checkpointed env own replicas rf now _ hi he ih =>
    have hmarked := ih.append hi (unconfused_marker _ _ _)
    rw [he]
    rcases ledger_runCheckpoint c env _ own replicas rf now with hout | hout | hout
    · rw [hout]
      exact ih
    · rw [hout]
      exact hmarked
    · rw [hout]
      exact hmarked.prune env.rewrite _
  | reopened _ hopen he ih =>
    obtain ⟨records, hsound, hexact⟩ := ih
    rw [he]
    exact ⟨records, (hsound.reopened hopen).setOrigin _ _, hexact⟩

/-! ## The calls of a node -/

/-- No claim for the owner and the key is in the ledger. -/
def Unclaimed (c : Crypto) (s : LogState) (owner key : Bytes) : Prop :=
  ∀ records, s.1.readAll c s.2 = .ok records → ∀ r ∈ records, r.type = .kTransitClaimed →
    r.keyHash ≠ ledgerKeyHash c owner key

namespace TransitRun

variable {e : NodeEngine}

lemma recordRemoteClaim (h : TransitRun c dek e) {env : NodeEngine.ClaimEnv} {owner keyHash : Bytes}
    (hi : Logs c e.ledger (e.remoteClaimCall env owner keyHash))
    (hu : Unconfused c e.ledger (e.remoteClaimCall env owner keyHash).call) :
    TransitRun c dek (e.recordRemoteClaim c env owner keyHash).2 := by
  rcases ledger_recordRemoteClaim env owner keyHash with he | he
  · exact h.elsewhere he
  · exact h.appended hi hu he

lemma applyClaimedTransit {env : NodeEngine.WriteEnv} {claim : NodeEngine.ClaimEnv}
    {appended : Except Status Unit} {collection key doc : Bytes} {e' : NodeEngine}
    (he' : (e.mergeRemote c env appended collection key doc { nodeId := e.nodeId }).2 = e')
    (h : TransitRun c dek e') (hi : Logs c e'.ledger (e'.ownClaimCall c claim collection key))
    (hu : Unconfused c e'.ledger (e'.ownClaimCall c claim collection key).call) :
    TransitRun c dek (e.applyClaimedTransit c env claim appended collection key doc).2 := by
  subst he'
  rcases ledger_applyClaimedTransit env claim appended collection key
    doc with he | he
  · exact h.elsewhere he
  · exact h.appended hi hu he

section Hold

variable {env : UInt32 → NodeEngine.ChunkEnv} {owner collection key doc messageId : Bytes}
  {chunkTotal : UInt32}

/-- Every intent of the loop of `HoldForOfflineOwner` is stored, or fails and leaves no bytes. -/
def HoldLogs (c : Crypto) (env : UInt32 → NodeEngine.ChunkEnv)
    (owner collection key doc messageId : Bytes) (chunkTotal : UInt32) :
    NodeEngine → List UInt32 → Prop
  | _, [] => True
  | e, i :: rest =>
    Logs c e.ledger (e.intentCall c (env i) owner collection key doc messageId chunkTotal i) ∧
      HoldLogs c env owner collection key doc messageId chunkTotal
        (e.holdChunk c (env i) owner collection key doc messageId chunkTotal i).2 rest

variable {i : UInt32}

lemma unconfused_intent {env : NodeEngine.ChunkEnv} (h : Unclaimed c e.ledger owner key) :
    Unconfused c e.ledger
      (e.intentCall c env owner collection key doc messageId chunkTotal i).call := by
  intro records hread r hr hhash
  have hne : WalRecordType.kTransitIntent ≠ .kTransitClaimed := by decide
  exact ⟨fun _ hclaimed => h records hread r hr hclaimed hhash, fun hclaim => absurd hclaim hne⟩

/-- An intent is no claim, so the next chunk finds none either. -/
lemma unclaimed_holdChunk (h : TransitRun c dek e) {env : NodeEngine.ChunkEnv} {e' : NodeEngine}
    (hi : Logs c e.ledger (e.intentCall c env owner collection key doc messageId chunkTotal i))
    (hu : Unclaimed c e.ledger owner key)
    (hheld : e.holdChunk c env owner collection key doc messageId chunkTotal i = (.ok (), e')) :
    Unclaimed c e'.ledger owner key := by
  have hstep : e'.ledger = (appendStep c e.ledger
      (e.intentCall c env owner collection key doc messageId chunkTotal i)).1 := by
    rw [← ledger_holdChunk, hheld]
  obtain ⟨records, hsound, -⟩ := h.paired
  rcases hi with ⟨hstored, hlog⟩ | ⟨hnone, -⟩
  · have hread := hsound.ledger.readAll_eq hstored.wasOpen
    have hopen := (appendStep_acked hstored.1).1.isOpen.trans hstored.wasOpen
    have hread' := (hsound.appended hstored hlog).ledger.readAll_eq hopen
    intro records' hrecords' r hr hclaimed
    rw [hstep, hread'] at hrecords'
    rw [← Except.ok.inj hrecords', mem_append, mem_singleton] at hr
    rcases hr with hr | rfl
    · exact hu records hread r hr hclaimed
    · exact absurd hclaimed (show WalRecordType.kTransitIntent ≠ .kTransitClaimed by decide)
  · have hsome := intent_of_holdChunk hheld
    rw [hnone] at hsome
    cases hsome

lemma holdChunks (h : TransitRun c dek e) {indexes : List UInt32}
    (hi : HoldLogs c env owner collection key doc messageId chunkTotal e indexes)
    (hu : Unclaimed c e.ledger owner key) : TransitRun c dek
      (holdChunks c env owner collection key doc messageId chunkTotal e indexes).2 := by
  induction indexes generalizing e with
  | nil => exact h
  | cons i rest ih =>
    have hnext : TransitRun c dek
        (e.holdChunk c (env i) owner collection key doc messageId chunkTotal i).2 :=
      h.appended hi.1 (unconfused_intent hu) (ledger_holdChunk ..)
    rw [holdChunks]
    rcases hheld : e.holdChunk c (env i) owner collection key doc messageId chunkTotal i with
      ⟨st | u, e'⟩
    · rw [hheld] at hnext
      exact hnext
    · have hrest := hi.2
      rw [hheld] at hnext hrest
      exact ih hnext hrest (unclaimed_holdChunk h hi.1 hu hheld)

/-- `HoldForOfflineOwner`, for an owner and a key that have no claim in the ledger. -/
lemma holdForOfflineOwner (h : TransitRun c dek e) {nowMs : Int64} {onlyChunks : Option (List UInt32)}
    (hcount : transitChunkCount doc.length e.transitChunkBytes = chunkTotal)
    (hi : HoldLogs c env owner collection key doc messageId chunkTotal e
      (onlyChunks.getD ((List.range chunkTotal.toNat).map UInt32.ofNat)))
    (hu : Unclaimed c e.ledger owner key) : TransitRun c dek
      (e.holdForOfflineOwner c env nowMs owner collection key doc onlyChunks messageId).2 := by
  subst hcount
  unfold holdForOfflineOwner
  dsimp only
  split_ifs
  · exact h
  · exact h
  · exact h
  · exact h.holdChunks hi hu

end Hold

end TransitRun

/-! ## The checkpoint -/

/-- **A checkpoint discards no undelivered bytes**, in a history in which no claim is confused: when
it proceeds, every intent below it has its own claim, recorded after it and not above the
checkpoint, and so has every intent that is not in the ledger any more. -/
theorem checkpoint_drops_claimed_intents (c : Crypto) (dek : Bytes) (e : NodeEngine)
    (h : TransitRun c dek e) (env : CheckpointEnv) (own : ReplicaTip) (replicas : List ReplicaTip)
    (rf : UInt32) (now : HLCTimestamp) (outcome : CheckpointOutcome) (s' : CheckpointState)
    (records records' : List WalRecord)
    (hlog : Logs c e.ledger (e.logCall env.append (markerCall outcome.decision now)))
    (hrun : runCheckpoint c env e.checkpointState own replicas rf now = (.ok outcome, s'))
    (hproceed : outcome.decision.proceed = true)
    (hread : e.storage.wal.readAll c e.storage.disk = .ok records)
    (hread' : s'.wal.readAll c s'.disk = .ok records') :
    ∀ intent ∈ records, intent.type = .kTransitIntent →
      (intent.lsn < outcome.decision.checkpointLsn ∨ ∀ r ∈ records', r.lsn ≠ intent.lsn) →
      ∃ claim ∈ records, claim.type = .kTransitClaimed ∧ Settles claim intent ∧
        claim.lsn ≤ outcome.decision.checkpointLsn := by
  obtain ⟨entries, lsn, wal, disk, result, hentries, hgate, hmarker, hprune, -⟩ :=
    runCheckpoint_proceeds hrun hproceed
  obtain rfl : entries = records := Except.ok.inj (hentries.symm.trans hread)
  obtain ⟨rs, hsound, hexact⟩ := h.paired
  generalize outcome.decision.checkpointLsn = n at hgate hprune ⊢
  -- the marker was acknowledged, so the stream was open and the ledger is what was read
  generalize hcall : e.logCall env.append (markerCall outcome.decision now) = i at hlog
  have hstep : appendStep c e.ledger i = ((wal, disk), some (i.record c e.ledger)) := by
    subst hcall
    exact congrArg (fun answer : Except Status Int64 × LogState =>
      (answer.2, answer.1.toOption.map fun _ => _)) hmarker
  have hu : Unconfused c e.ledger i.call := by
    subst hcall
    exact unconfused_marker _ _ _
  obtain ⟨hstored, hloggable⟩ | ⟨hnone, -⟩ := hlog
  · have hopen := hstored.wasOpen
    obtain rfl : rs = entries :=
      Except.ok.inj ((hsound.ledger.readAll_eq hopen).symm.trans hentries)
    have hexact' := hexact.appended hsound hopen hu
    have hsound' := hsound.appended hstored hloggable
    have hopen' : (appendStep c e.ledger i).1.1.isOpen = true :=
      (appendStep_acked hstored.1).1.isOpen.trans hopen
    rw [hstep] at hsound' hopen'
    obtain ⟨rs', hback, hlsns⟩ := hsound'.pruned hopen' hprune
    obtain rfl : rs' = records' := Except.ok.inj (hback.symm.trans hread')
    intro intent hmem htype hgone
    rcases hgone with hlt | hgone
    · exact hexact.of_gate hsound.ledger.ordered hgate hmem htype hlt
    · have hdrop : droppable n (claimedBelow n (rs ++ [i.record c e.ledger])) intent = true := by
        by_contra hkeep
        have hin : intent.lsn ∈ rs'.map (·.lsn) := by
          rw [hlsns]
          exact mem_map_of_mem (mem_filter.mpr
            ⟨mem_append_left _ hmem, by simpa using hkeep⟩)
        obtain ⟨r, hr, hlsn⟩ := mem_map.mp hin
        exact hgone r hr hlsn
      obtain ⟨claim, hclaim, hkind, hsettles, hle⟩ :=
        hexact'.of_droppable (mem_append_left _ hmem) htype hdrop
      rcases mem_append.mp hclaim with hclaim | hclaim
      · exact ⟨claim, hclaim, hkind, hsettles, hle⟩
      · rw [mem_singleton.mp hclaim, ← hcall] at hkind
        exact absurd hkind (show WalRecordType.kCheckpoint ≠ .kTransitClaimed by decide)
  · rw [hstep] at hnone
    cases hnone

/-! ## Lost intents -/

lemma sealAll_plain (nonce : ℕ → Except Bytes Nonce) (n : ℕ) (rs : List WalRecord) :
    sealAll c nonce [] n rs = .ok (rs.map encodeBody) := by
  induction rs generalizing n with
  | nil => rfl
  | cons r rs ih =>
    rw [sealAll, ih]
    rfl

/-- Nothing fails during a `RewriteLocked`. -/
def RewriteEnv.Works (env : RewriteEnv) : Prop :=
  env.tmpOpened = true ∧ env.tmpWritten = true ∧ env.renamed = true ∧ env.reopened = true

lemma rewriteLocked_plain (henv : env.Works) (hkey : wal.subkey = []) (disk : WalDisk)
    (rs : List WalRecord) :
    wal.rewriteLocked c env disk rs = (.ok (), { wal with isOpen := true },
      { disk with file := walFormat.frames (rs.map encodeBody) }) := by
  obtain ⟨hopened, hwritten, hrenamed, hreopened⟩ := henv
  unfold rewriteLocked
  simp only [hkey, sealAll_plain, hopened, hwritten, hrenamed, hreopened, Bool.not_true,
    Bool.false_eq_true, if_false]

/-- A `Prune` of a plaintext ledger goes through when nothing fails. -/
lemma Sound.prune_plain (h : Sound c dek s records) (hopen : s.1.isOpen = true)
    (hkey : s.1.subkey = []) (n : Int64) :
    ∃ result s', s.1.prune c {} s.2 n = (.ok result, s') := by
  unfold WriteAheadLog.prune
  have henv : RewriteEnv.Works {} := ⟨rfl, rfl, rfl, rfl⟩
  simp only [h.ledger.readAll_eq hopen, rewriteLocked_plain henv hkey]
  split_ifs
  · exact ⟨_, _, rfl⟩
  · exact ⟨_, _, rfl⟩

/-- A checkpoint whose gates let it pass and whose marker is stored goes through on a plaintext
ledger when nothing fails. -/
lemma checkpoint_runs (e : NodeEngine) (own : ReplicaTip) (replicas : List ReplicaTip) (rf : UInt32)
    (now : HLCTimestamp) {decision : CheckpointDecision} {marker : WalRecord}
    (hsound : Sound c dek e.ledger records) (hkey : e.storage.wal.subkey = [])
    (hdecision : evaluateCheckpoint own replicas rf = decision) (hproceed : decision.proceed = true)
    (hgate : unclaimedIntentsBelow records decision.checkpointLsn = [])
    (hmarker : (e.logCall {} (markerCall decision now)).record c e.ledger = marker)
    (hstored : Stored c e.ledger (e.logCall {} (markerCall decision now)))
    (hlog : marker.Loggable []) :
    ∃ outcome s' records', runCheckpoint c {} e.checkpointState own replicas rf now =
        (.ok outcome, s') ∧ outcome.decision = decision ∧ s'.wal.readAll c s'.disk = .ok records' ∧
      records'.map (·.lsn) = ((records ++ [marker]).filter fun r => !droppable
        decision.checkpointLsn (claimedBelow decision.checkpointLsn (records ++ [marker])) r).map
          (·.lsn) := by
  have hread : e.storage.wal.readAll c e.storage.disk = .ok records :=
    hsound.ledger.readAll_eq hstored.wasOpen
  have hkey' : e.ledger.1.subkey = [] := hkey
  have hacked := (appendStep_acked hstored.1).1
  have hopen' := hacked.isOpen.trans hstored.wasOpen
  have hsound' := hsound.appended hstored (by rwa [hmarker, hkey'])
  rw [hmarker] at hsound'
  rcases hanswer : e.storage.wal.append c {} e.storage.disk (markerCall decision now) with
    ⟨st | lsn, wal, disk⟩
  · have hnone : (appendStep c e.ledger (e.logCall {} (markerCall decision now))).2 = none :=
      congrArg (fun answer : Except Status Int64 × LogState => answer.1.toOption.map fun _ => _)
        hanswer
    rw [Stored, hnone] at hstored
    cases hstored.1
  have hstep : (appendStep c e.ledger (e.logCall {} (markerCall decision now))).1 = (wal, disk) :=
    congrArg Prod.snd hanswer
  have hkey'' := hacked.subkey.trans hkey'
  rw [hstep] at hsound' hopen' hkey''
  obtain ⟨result, s', hprune⟩ := hsound'.prune_plain hopen' hkey'' decision.checkpointLsn
  obtain ⟨records', hread', hlsns⟩ := hsound'.pruned hopen' hprune
  have hrun := runCheckpoint_eq {} e.checkpointState hdecision hproceed hread hgate hanswer hprune
  exact ⟨_, _, records', hrun, rfl, hread', hlsns⟩

/-- The owner `[98]` is offline, and the node holds a document of one chunk for it. -/
def sampleHold (e : NodeEngine) (collection : String) : NodeEngine :=
  (e.holdForOfflineOwner sampleCrypto (fun _ => { wall := 5000 }) 0 [98] (text collection) (text "k")
    [1] none []).2

/-- The owner has collected the document. -/
def sampleClaim (e : NodeEngine) (collection : String) : NodeEngine :=
  (e.recordRemoteClaim sampleCrypto { wall := 5000 } [98]
    (ledgerKeyHash sampleCrypto (text collection) (text "k"))).2

/-- The intent of `sampleHold`. -/
def sampleIntent (e : NodeEngine) (collection : String) : LedgerCall :=
  e.intentCall sampleCrypto { wall := 5000 } [98] (text collection) (text "k") [1] [] 1 0

/-- The claim of `sampleClaim`. -/
def sampleClaimCall (e : NodeEngine) (collection : String) : LedgerCall :=
  e.remoteClaimCall { wall := 5000 } [98] (ledgerKeyHash sampleCrypto (text collection) (text "k"))

lemma sampleNode_sound : Sound sampleCrypto [] sampleNode.ledger [] :=
  ⟨rfl, ledger_nil _ _, fun _ => ⟨rfl, rfl⟩⟩

/-- The node after the hold of one document. -/
abbrev sampleHolder : NodeEngine := sampleHold sampleNode "c"

lemma sampleHolder_sound : Sound sampleCrypto [] sampleHolder.ledger
    [(sampleIntent sampleNode "c").record sampleCrypto sampleNode.ledger] :=
  sampleNode_sound.appended (i := sampleIntent sampleNode "c") ⟨by decide +kernel, rfl⟩
    (by decide +kernel)

/-- The node after the hold of the key `k` of two collections. -/
abbrev sampleHolderTwice : NodeEngine := sampleHold sampleHolder "d"

/-- The records of `sampleAliased`: two intents, and the claim of the first. -/
def sampleAliasedRecords : List WalRecord :=
  [(sampleIntent sampleNode "c").record sampleCrypto sampleNode.ledger,
    (sampleIntent sampleHolder "d").record sampleCrypto sampleHolder.ledger,
    (sampleClaimCall sampleHolderTwice "c").record sampleCrypto sampleHolderTwice.ledger]

/-- The node after the hold of the key `k` of two collections and the claim of one of them. -/
abbrev sampleAliased : NodeEngine := sampleClaim sampleHolderTwice "c"

lemma sampleAliased_sound :
    Sound sampleCrypto [] sampleAliased.ledger sampleAliasedRecords := by
  have htwice : Sound sampleCrypto [] sampleHolderTwice.ledger
      ([(sampleIntent sampleNode "c").record sampleCrypto sampleNode.ledger] ++
        [(sampleIntent sampleHolder "d").record sampleCrypto sampleHolder.ledger]) :=
    sampleHolder_sound.appended (i := sampleIntent sampleHolder "d") ⟨by decide +kernel, rfl⟩
      (by decide +kernel)
  exact htwice.appended (i := sampleClaimCall sampleHolderTwice "c") ⟨by decide +kernel, rfl⟩
    (by decide +kernel)

/-- The tip of a replication group of one. -/
def sampleTip (lsn : Int64) : ReplicaTip := { entryId := lsn, selfVerified := true }

/-- A node holds the key `k` of the collections `c` and `d` for one owner; the owner collects the
first.  The checkpoint proceeds and the ledger loses the intent of the second, which has no claim
of its own. -/
theorem alias_discards_unclaimed_intent : ∃ outcome s' records',
    runCheckpoint sampleCrypto {} sampleAliased.checkpointState (sampleTip 2) [] 1 {} =
        (.ok outcome, s') ∧ outcome.decision.proceed = true ∧
      sampleAliased.storage.wal.readAll sampleCrypto sampleAliased.storage.disk =
        .ok sampleAliasedRecords ∧
      s'.wal.readAll sampleCrypto s'.disk = .ok records' ∧
      ∃ intent ∈ sampleAliasedRecords, intent.type = .kTransitIntent ∧
        intent.lsn < outcome.decision.checkpointLsn ∧ (∀ r ∈ records', r.lsn ≠ intent.lsn) ∧
        ∀ claim ∈ sampleAliasedRecords, claim.type = .kTransitClaimed → ¬ Settles claim intent := by
  obtain ⟨outcome, s', records', hrun, hdecision, hread', hlsns⟩ := checkpoint_runs sampleAliased
    (sampleTip 2) [] 1 {} sampleAliased_sound rfl rfl (by decide +kernel) (by decide +kernel) rfl
    ⟨by decide +kernel, rfl⟩ (by decide +kernel)
  have hleft : records'.map (·.lsn) = [3] := hlsns.trans (by decide +kernel)
  have hproceed : outcome.decision.proceed = true := hdecision ▸ by decide +kernel
  have hlsn : outcome.decision.checkpointLsn = 2 := hdecision ▸ by decide +kernel
  refine ⟨outcome, s', records', hrun, hproceed, sampleAliased_sound.ledger.readAll_eq rfl, hread',
    (sampleIntent sampleHolder "d").record sampleCrypto sampleHolder.ledger,
    by simp [sampleAliasedRecords], rfl, ?_, ?_, ?_⟩
  · rw [hlsn]
    decide +kernel
  · intro r hr
    have hmem := mem_map_of_mem (f := (·.lsn)) hr
    rw [hleft, mem_singleton] at hmem
    rw [hmem]
    decide +kernel
  · unfold Settles
    decide +kernel

/-- The records of a hold and its claim. -/
def sampleSettledRecords : List WalRecord :=
  [(sampleIntent sampleNode "c").record sampleCrypto sampleNode.ledger,
    (sampleClaimCall sampleHolder "c").record sampleCrypto sampleHolder.ledger]

/-- The node after a hold and its claim. -/
abbrev sampleSettled : NodeEngine := sampleClaim sampleHolder "c"

lemma sampleSettled_sound : Sound sampleCrypto [] sampleSettled.ledger sampleSettledRecords :=
  sampleHolder_sound.appended (i := sampleClaimCall sampleHolder "c") ⟨by decide +kernel, rfl⟩
    (by decide +kernel)

lemma sampleSettled_run : TransitRun sampleCrypto [] sampleSettled := by
  have hopened : openLog sampleCrypto {} [] [] {} = (.ok { path := [] }, {}) := rfl
  have hnew : TransitRun sampleCrypto [] sampleNode := .opened hopened rfl
  have hheld : TransitRun sampleCrypto [] sampleHolder := by
    refine hnew.holdForOfflineOwner rfl ⟨Or.inl ⟨⟨by decide +kernel, rfl⟩, by decide +kernel⟩, trivial⟩
      ?_
    intro records hread r hr
    obtain rfl := Except.ok.inj ((sampleNode_sound.ledger.readAll_eq rfl).symm.trans hread)
    exact absurd hr not_mem_nil
  refine hheld.recordRemoteClaim (Or.inl ⟨⟨by decide +kernel, rfl⟩, by decide +kernel⟩) ?_
  intro records hread r hr hhash
  obtain rfl := Except.ok.inj ((sampleHolder_sound.ledger.readAll_eq rfl).symm.trans hread)
  obtain rfl := mem_singleton.mp hr
  exact ⟨fun h => absurd h (by decide), fun _ _ => by decide +kernel⟩

/-- A hold and its claim: the checkpoint proceeds, and the claim is the intent's own. -/
theorem checkpoint_drops_claimed_intents_sample : ∃ outcome s',
    runCheckpoint sampleCrypto {} sampleSettled.checkpointState (sampleTip 1) [] 1 {} =
        (.ok outcome, s') ∧ outcome.decision.proceed = true ∧
      ∃ claim ∈ sampleSettledRecords, claim.type = .kTransitClaimed ∧
        Settles claim ((sampleIntent sampleNode "c").record sampleCrypto sampleNode.ledger) := by
  obtain ⟨outcome, s', records', hrun, hdecision, hread', -⟩ := checkpoint_runs sampleSettled
    (sampleTip 1) [] 1 {} sampleSettled_sound rfl rfl (by decide +kernel) (by decide +kernel) rfl
    ⟨by decide +kernel, rfl⟩ (by decide +kernel)
  have hproceed : outcome.decision.proceed = true := hdecision ▸ by decide +kernel
  have hlsn : outcome.decision.checkpointLsn = 1 := hdecision ▸ by decide +kernel
  have hlog : Logs sampleCrypto sampleSettled.ledger
      (sampleSettled.logCall {} (markerCall outcome.decision {})) := by
    rw [hdecision]
    exact Or.inl ⟨⟨by decide +kernel, rfl⟩, by decide +kernel⟩
  obtain ⟨claim, hclaim, hkind, hsettles, -⟩ := checkpoint_drops_claimed_intents sampleCrypto []
    sampleSettled sampleSettled_run {} (sampleTip 1) [] 1 {} outcome s' sampleSettledRecords
    records' hlog hrun hproceed (sampleSettled_sound.ledger.readAll_eq rfl) hread' _
    mem_cons_self rfl (Or.inl (by rw [hlsn]; decide +kernel))
  exact ⟨outcome, s', hrun, hproceed, claim, hclaim, hkind, hsettles⟩

end DeSentry
