import DeSentry.Construction.Ledger.TransitStore

/-!
# Checkpoints (`ledger/checkpoint.h`)

A checkpoint is the one operation that deletes history: it prunes settled pairs of
`TRANSIT_INTENT` and `TRANSIT_CLAIMED` records from the ledger and releases the envelopes they
stand for.  Two gates come first: a quorum of replicas that report the local tip, and no unclaimed
intent below it.

The quorum size is computed in 64 bits and returned as an `int`, so it wraps for replication
factors near `2 ^ 32`; the vote counters are not bounded here.
-/

namespace DeSentry

open ByteCodec

/-! ## The quorum -/

/-- `struct ReplicaTip`. -/
structure ReplicaTip where
  nodeId : Bytes := []
  entryId : Int64 := kInvalidLsn
  entryHash : Bytes := []
  selfVerified : Bool := false
  signatureValid : Bool := false
  signature : Bytes := []
  deriving DecidableEq, Repr

/-- `struct CheckpointDecision`. -/
structure CheckpointDecision where
  proceed : Bool := false
  agreeing : ℕ := 0
  required : ℤ := 0
  conflicting : ℕ := 0
  unverified : ℕ := 0
  checkpointLsn : Int64 := kInvalidLsn
  agreedEntryHash : Bytes := []
  reason : Bytes := []
  deriving DecidableEq, Repr

/-- `struct CheckpointOutcome`. -/
structure CheckpointOutcome where
  decision : CheckpointDecision
  checkpointEntryId : Int64 := kInvalidLsn
  entriesPruned : ℕ := 0
  envelopesReleased : ℕ := 0
  previousTipHash : Bytes := []
  newTipHash : Bytes := []
  deriving DecidableEq, Repr

/-- `CheckpointQuorumSize`. -/
def checkpointQuorumSize (replicationFactor : UInt32) : ℤ :=
  if replicationFactor = 0 then 1
  else
    let f := (replicationFactor.toNat - 1) / 2
    Int.bmod (2 * f + 1) (2 ^ 32)

/-- What a replica's tip counts as. -/
inductive TipVote where
  /-- Lagging or ahead: neither vote nor veto. -/
  | absent
  | conflicting
  | agreeing
  | unverified
  deriving DecidableEq, Repr

/-- The body of the loop of `EvaluateCheckpoint`. -/
def tipVote (own replica : ReplicaTip) : TipVote :=
  if replica.entryId ≠ own.entryId then .absent
  else if replica.entryHash ≠ own.entryHash then .conflicting
  else if replica.selfVerified ∧ (replica.signature = [] ∨ replica.signatureValid) then .agreeing
  else .unverified

/-- `EvaluateCheckpoint`. -/
def evaluateCheckpoint (own : ReplicaTip) (replicas : List ReplicaTip)
    (replicationFactor : UInt32) : CheckpointDecision :=
  let required := checkpointQuorumSize replicationFactor
  if own.entryId < 0 then
    { required, reason := text "ledger is empty: nothing to checkpoint" }
  else if !own.selfVerified then
    { required
      reason := text "local ledger did not verify: refusing to prune an unchecked chain" }
  else
    let votes := replicas.map (tipVote own)
    let counted : CheckpointDecision :=
      { required
        agreeing := 1 + votes.count .agreeing
        conflicting := votes.count .conflicting
        unverified := votes.count .unverified }
    if counted.conflicting > 0 then
      { counted with
        reason := text "conflicting tip(s) at entry " ++ toText own.entryId ++
          text ": replicas disagree on history; refusing to prune" }
    else if (counted.agreeing : ℤ) < required then
      { counted with
        reason := text "quorum not reached: " ++ decimal counted.agreeing ++
          text " agreeing of " ++ toText (Int64.ofInt required) ++ text " required" }
    else
      { counted with
        proceed := true, checkpointLsn := own.entryId, agreedEntryHash := own.entryHash }

/-! ## The transit pairs -/

variable (entries : List WalRecord) (checkpointLsn : Int64)

/-- `UnclaimedIntentsBelow`: an intent has to be strictly below the checkpoint, its claim may be at
it.  Key hashes are listed in the order of their first occurrence. -/
def unclaimedIntentsBelow : List Bytes :=
  (((entries.takeWhile fun r => ¬ r.lsn ≥ checkpointLsn).filter fun r =>
    decide (r.type = .kTransitIntent) &&
      decide (r.keyHash ∉ WriteAheadLog.claimedBelow checkpointLsn entries)).map
        (·.keyHash)).eraseDups

/-- The `settled` of `RunCheckpoint`: the key hashes of the intents at or below the checkpoint that
have a claim at or below it. -/
def settledBelow : List Bytes :=
  (((entries.takeWhile fun r => ¬ r.lsn > checkpointLsn).filter fun r =>
    decide (r.type = .kTransitIntent) &&
      decide (r.keyHash ∈ WriteAheadLog.claimedBelow checkpointLsn entries)).map
        (·.keyHash)).eraseDups

/-! ## `RunCheckpoint` -/

/-- What happens during a `RunCheckpoint`. -/
structure CheckpointEnv where
  append : AppendEnv := {}
  rewrite : RewriteEnv := {}
  release : TransitStore.ReleaseEnv := {}

/-- What `RunCheckpoint` works on. -/
structure CheckpointState where
  wal : WriteAheadLog
  disk : WalDisk
  transit : TransitStore

variable (decision : CheckpointDecision)

/-- The document of the marker record. -/
def checkpointAttestation : Bytes :=
  text "\x7b\"agreed_entry_hash\":\"" ++ hexEncode decision.agreedEntryHash ++
    text "\",\"agreeing\":" ++ decimal decision.agreeing ++ text ",\"required\":" ++
    toText (Int64.ofInt decision.required) ++ text ",\"checkpoint_lsn\":" ++
    toText decision.checkpointLsn ++ text "\x7d"

/-- The refusal of the second gate. -/
def heldBack (unclaimed : List Bytes) : CheckpointDecision :=
  { decision with
    proceed := false
    reason := decimal unclaimed.length ++ text " unclaimed transit intent(s) at or below entry " ++
      toText decision.checkpointLsn ++
      text ": an offline owner has not collected its bytes yet"
    checkpointLsn := kInvalidLsn
    agreedEntryHash := [] }

/-- `RunCheckpoint` behind its gates: marker, prune, release.  A failed release does not fail the
checkpoint. -/
def settleCheckpoint (c : Crypto) (env : CheckpointEnv) (s : CheckpointState)
    (decision : CheckpointDecision) (entries : List WalRecord) (now : HLCTimestamp) :
    Except Failure CheckpointOutcome × CheckpointState :=
  let (marker, wal, disk) := s.wal.append c env.append s.disk
    { type := .kCheckpoint, collection := [], key := text "checkpoint"
      documentBytes := checkpointAttestation decision, options := { hlc := now } }
  let s := { s with wal, disk }
  match marker with
  | .error st => (.error (.status st), s)
  | .ok checkpointEntryId =>
    let (pruned, wal, disk) := s.wal.prune c env.rewrite s.disk decision.checkpointLsn
    let s := { s with wal, disk }
    match pruned with
    | .error failure => (.error failure, s)
    | .ok result =>
      let (released, transit) :=
        s.transit.release env.release (settledBelow entries decision.checkpointLsn)
      (.ok
        { decision, checkpointEntryId
          entriesPruned := result.dropped
          envelopesReleased := released.toOption.getD 0
          previousTipHash := result.previousTipHash
          newTipHash := result.newTipHash }, { s with transit })

/-- `RunCheckpoint`. -/
def runCheckpoint (c : Crypto) (env : CheckpointEnv) (s : CheckpointState) (own : ReplicaTip)
    (replicas : List ReplicaTip) (replicationFactor : UInt32) (now : HLCTimestamp) :
    Except Failure CheckpointOutcome × CheckpointState :=
  let decision := evaluateCheckpoint own replicas replicationFactor
  if !decision.proceed then (.ok { decision }, s)
  else
    match s.wal.readAll c s.disk with
    | .error failure => (.error failure, s)
    | .ok entries =>
      let unclaimed := unclaimedIntentsBelow entries decision.checkpointLsn
      if unclaimed ≠ [] then (.ok { decision := heldBack decision unclaimed }, s)
      else settleCheckpoint c env s decision entries now

end DeSentry
