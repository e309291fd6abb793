import DeSentry.Construction.Crdt.Document
import DeSentry.Construction.Ledger.OutboxStore
import DeSentry.Construction.Ledger.TransitStore
import DeSentry.Construction.Storage.StorageEngine

/-!
# The node engine (`engine/node_engine.h`)

The layer that turns an application's JSON or a peer's encoded document into a stamped CRDT
update and a ledgered write.  The state is the clock, the storage engine, the transit store, the
outbox, the digest cache, the process-wide counter behind the array tags, and the file `hlc_clock`
with what the engine remembers about it.

A call takes what is outside as arguments: the readings of the wall clock, whether a peer is
reachable, and what the storage below answers.  The write hook is the network manager's and is not
part of this file.
-/

namespace DeSentry

open ByteCodec

/-- `struct Requestor`. -/
structure Requestor where
  nodeId : Bytes
  isLocal : Bool := false
  deriving DecidableEq, Repr

/-- `struct DigestEntryOut`. -/
structure DigestEntryOut where
  key : Bytes
  topTs : HLCTimestamp
  contentHash : Bytes
  deriving DecidableEq, Repr

/-- `class NodeEngine`. -/
structure NodeEngine where
  nodeId : Bytes
  /-- `identity_->Sign`. -/
  sign : Bytes → Bytes
  clock : HybridLogicalClock
  storage : StorageEngine
  transit : TransitStore
  /-- The counter of `CrdtValue::NextTag`. -/
  tagCounter : UInt64 := 0
  /-- The file `hlc_clock`. -/
  clockFile : Option Bytes := none
  hlcSavedPhysical : UInt64 := 0
  hlcSaveCounter : UInt64 := 0
  transitChunkBytes : UInt32 := 0
  transitBudgetBytes : UInt64 := 0
  outbox : OutboxStore := {}
  /-- `digest_cache_`, by `DigestCacheKey`. -/
  digestCache : List (Bytes × DigestEntryOut) := []

namespace NodeEngine

variable (e : NodeEngine)

/-! ## The clock file -/

/-- The twenty bytes of `hlc_clock`. -/
def clockBytes (physical : UInt64) (logical : UInt32) (tags : UInt64) : Bytes :=
  ByteWriter.u64 physical ++ ByteWriter.u32 logical ++ ByteWriter.u64 tags

/-- `PersistClockIfDue` past the throttle; `committed` when the rename succeeded. -/
def commitClock (committed : Bool) : NodeEngine :=
  if !committed then e
  else
    { e with
      clockFile := some (clockBytes e.clock.lastPhysical e.clock.lastLogical e.tagCounter)
      hlcSavedPhysical := e.clock.lastPhysical }

/-- `PersistClockIfDue`.  The counter is incremented only when less than a second has passed. -/
def persistClockIfDue (committed : Bool) : NodeEngine :=
  if e.clock.lastPhysical < e.hlcSavedPhysical + 1000 then
    let e := { e with hlcSaveCounter := e.hlcSaveCounter + 1 }
    if e.hlcSaveCounter % 512 ≠ 0 then e else e.commitClock committed
  else e.commitClock committed

/-- `RestoreTagCounter`. -/
def restoreTagCounter (value : UInt64) : NodeEngine :=
  { e with tagCounter := if value > e.tagCounter then value else e.tagCounter }

/-- `LoadClockState`: files of 12 bytes have no tag counter, shorter ones are ignored. -/
def loadClockState : NodeEngine :=
  match e.clockFile with
  | none => e
  | some file =>
    let buf := file.take 20
    if buf.length < 12 then e
    else
      let phys := UInt64.ofNat (leValue (buf.take 8))
      let log := UInt32.ofNat (leValue ((buf.drop 8).take 4))
      let e := { e with clock := e.clock.restore phys log, hlcSavedPhysical := phys }
      if buf.length < 20 then e
      else e.restoreTagCounter (UInt64.ofNat (leValue ((buf.drop 12).take 8)))

/-! ## Access control -/

variable (collection : Bytes) (who : Requestor)

/-- `CanRead`. -/
def canRead : Bool :=
  if who.isLocal ∧ who.nodeId = e.nodeId then true
  else e.storage.catalog.canRead collection who.nodeId

/-- `CanWrite`. -/
def canWrite : Bool :=
  if who.isLocal ∧ who.nodeId = e.nodeId then true
  else e.storage.catalog.canWrite collection who.nodeId

/-- The refusal of a write. -/
def mayNotWrite : Status :=
  ⟨.authError, text "node " ++ who.nodeId ++ text " may not write to collection " ++ collection⟩

/-- `clock_->Now()` at a reading of the wall clock. -/
def now (wall : UInt64) : NodeEngine × HLCTimestamp :=
  let (clock, ts) := e.clock.now wall
  ({ e with clock }, ts)

/-! ## Documents -/

/-- What happens around a document write. -/
structure WriteEnv where
  wall : UInt64
  put : PutEnv := {}
  /-- The answer of the reachability provider. -/
  reachable : Bool := true
  /-- What the log of the outbox answers. -/
  staged : Except Status Unit := .ok ()
  nowMs : Int64 := 0
  clockCommitted : Bool := true

variable (key : Bytes)

/-- `GetRaw` and `DecodeDocument`; a document that does not decode throws. -/
def currentDocument : Except Failure (Option CrdtValue) :=
  match e.storage.getRaw collection key with
  | .ok bytes =>
    match CrdtValue.decode bytes with
    | .ok v => .ok (some v)
    | .error _ => .error .thrown
  | .error st => if st.code = .notFound then .ok none else .error (.status st)

/-- The new state of a document: an update of the old one, or a first version. -/
def updatedDocument (previous : Option CrdtValue) (newJson : JsonValue) (ts : HLCTimestamp)
    (seq : UInt64) : CrdtValue × UInt64 :=
  match previous with
  | some previous => CrdtValue.applyJsonUpdate ts previous newJson seq
  | none => CrdtValue.fromJson ts newJson seq

/-- `DigestCacheKey`. -/
def digestCacheKey : Bytes := collection ++ 0 :: key

variable (c : Crypto)

/-- The fingerprint of a stored document; there is none if it does not decode. -/
def digestEntry (key bytes : Bytes) : Option DigestEntryOut :=
  match CrdtValue.decode bytes with
  | .error _ => none
  | .ok doc => some ⟨key, doc.maxTimestamp, (c.sha256 bytes).take 8⟩

/-- `NoteDigest`. -/
def noteDigest (collection key encodedDoc : Bytes) : NodeEngine :=
  match digestEntry c key encodedDoc with
  | none => e
  | some entry =>
    { e with digestCache := AssocMap.set e.digestCache (digestCacheKey collection key) entry }

variable (env : WriteEnv)

/-- The branch of `PutDocument` on an isolated node: the write is staged for a replay.  An outbox
that refuses is only logged. -/
def stage (collection key encodedDoc : Bytes) (hlc : HLCTimestamp) : NodeEngine :=
  if env.reachable then e
  else
    { e with
      outbox := (e.outbox.put env.staged env.nowMs
        { collection, key, keyHash := ledgerKeyHash c collection key, encodedDoc, hlc }).2 }

/-- `PutDocument` from the stamp on. -/
def writeDocument (collection key : Bytes) (newJson : JsonValue) (previous : Option CrdtValue) :
    Except Failure Unit × NodeEngine :=
  let (e, ts) := e.now env.wall
  let (updated, tagCounter) := updatedDocument previous newJson ts e.tagCounter
  let (answer, storage) := e.storage.putRaw c env.put collection key updated.encode
  let e := { e with tagCounter, storage }
  match answer with
  | .error st => (.error (.status st), e)
  | .ok () =>
    let e := e.stage c env collection key updated.encode ts
    let e := e.noteDigest c collection key updated.encode
    (.ok (), e.persistClockIfDue env.clockCommitted)

/-- `PutDocument`. -/
def putDocument (collection key : Bytes) (newJson : JsonValue) (who : Requestor) :
    Except Failure Unit × NodeEngine :=
  if collection = kTransitCollection then
    (.error (.status ⟨.invalidArgument, text "'" ++ kTransitCollection ++
      text "' is engine-internal and cannot be written directly"⟩), e)
  else if !e.canWrite collection who then
    (.error (.status (mayNotWrite collection who)), e)
  else
    match e.currentDocument collection key with
    | .error failure => (.error failure, e)
    | .ok previous => e.writeDocument c env collection key newJson previous

/-- `DeleteDocument`. -/
def deleteDocument (collection key : Bytes) (who : Requestor) : Except Failure Unit × NodeEngine :=
  e.putDocument c env collection key (.object []) who

/-- `GetDocument`. -/
def getDocument (who : Requestor) : Except Failure JsonValue :=
  if !e.canRead collection who then
    .error (.status ⟨.notFound, text "no such document: " ++ collection ++ text "/" ++ key⟩)
  else
    match e.storage.getRaw collection key with
    | .error st => .error (.status st)
    | .ok bytes =>
      match CrdtValue.decode bytes with
      | .error _ => .error .thrown
      | .ok doc =>
        if doc.isEmpty then .error (.status ⟨.notFound, text "document deleted: " ++ key⟩)
        else .ok doc.toJson

/-- `MergeRemote` behind the clock: the stored document is merged with the remote one. -/
def writeMerged (collection key : Bytes) (remote : CrdtValue) : Except Failure Unit × NodeEngine :=
  match e.currentDocument collection key with
  | .error failure => (.error failure, e)
  | .ok previous =>
    let merged := previous.elim remote (CrdtValue.merge · remote)
    let (answer, storage) := e.storage.putRaw c env.put collection key merged.encode
    let e := { e with storage }
    match answer with
    | .error st => (.error (.status st), e)
    | .ok () =>
      let e := e.noteDigest c collection key merged.encode
      (.ok (), e.persistClockIfDue env.clockCommitted)

/-- `MergeRemote` on a decoded document: a stamp too far in the future is refused. -/
def mergeDecoded (collection key : Bytes) (remote : CrdtValue) : Except Failure Unit × NodeEngine :=
  let seen := e.clock.observe env.wall remote.maxTimestamp
  let e := { e with clock := seen.1 }
  if !seen.2 then
    (.error (.status ⟨.invalidArgument,
      text "remote timestamp too far in the future; rejected"⟩), e)
  else e.writeMerged c env collection key remote

/-- `MergeRemote`; envelopes go to the transit store, whose log answers `appended`. -/
def mergeRemote (appended : Except Status Unit) (collection key remoteDoc : Bytes)
    (who : Requestor) : Except Failure Unit × NodeEngine :=
  if collection = kTransitCollection then
    if who.isLocal then
      (.error (.status ⟨.invalidArgument, text "transit envelopes are not locally writable"⟩), e)
    else
      match TransitEnvelope.decode remoteDoc with
      | .error st => (.error (.status st), e)
      | .ok envelope =>
        let (answer, transit) := e.transit.mergeRemoteEnvelope appended envelope
        (answer.mapError .status, { e with transit })
  else if !e.canWrite collection who then
    (.error (.status (mayNotWrite collection who)), e)
  else
    match CrdtValue.decode remoteDoc with
    | .error what =>
      (.error (.status ⟨.corruption, text "undecodable remote document: " ++ text what⟩), e)
    | .ok remote => e.mergeDecoded c env collection key remote

/-! ## Transit -/

/-- What happens while one chunk is held. -/
structure ChunkEnv where
  wall : UInt64
  append : AppendEnv := {}
  appended : Except Status Unit := .ok ()
  nowMs : Int64 := 0

/-- The key hash of a chunk: that of the document when there is only one. -/
def chunkKeyHash (collection key : Bytes) (chunkTotal i : UInt32) : Bytes :=
  let docKeyHash := ledgerKeyHash c collection key
  if chunkTotal = 1 then docKeyHash else transitChunkKeyHash c docKeyHash i

/-- The bytes of a chunk. -/
def chunkBytes (chunkSize : ℕ) (doc : Bytes) (i : UInt32) : Bytes :=
  (doc.drop (i.toNat * chunkSize)).take chunkSize

/-- The envelope of a chunk, without the LSN of its intent. -/
def chunkEnvelope (owner collection key doc messageId : Bytes) (chunkTotal i : UInt32) :
    TransitEnvelope :=
  let encodedDoc := chunkBytes (transitChunkUnit e.transitChunkBytes) doc i
  let keyHash := chunkKeyHash c collection key chunkTotal i
  let contentHash := c.sha256 encodedDoc
  { ownerNode := owner, collection, key, keyHash, encodedDoc
    holderNode := e.nodeId
    docSizeBytes := UInt64.ofNat doc.length
    chunkIndex := i, chunkTotal, messageId, contentHash
    holderSig := e.sign (transitAttestMessage keyHash contentHash i chunkTotal) }

/-- One round of the loop of `HoldForOfflineOwner`: the intent, then the bytes. -/
def holdChunk (env : ChunkEnv) (owner collection key doc messageId : Bytes)
    (chunkTotal i : UInt32) : Except Status Unit × NodeEngine :=
  let envelope := e.chunkEnvelope c owner collection key doc messageId chunkTotal i
  let (e, ts) := e.now env.wall
  let (lsn, storage) := e.storage.appendLedgerOp c env.append .kTransitIntent owner key
    envelope.keyHash ts
    { transitHolder := e.nodeId, transitSizeBytes := UInt64.ofNat doc.length
      transitChunkIndex := i, transitChunkTotal := chunkTotal }
  let e := { e with storage }
  match lsn with
  | .error st => (.error st, e)
  | .ok intentLsn =>
    let (answer, transit) := e.transit.hold env.appended env.nowMs { envelope with intentLsn }
    (answer, { e with transit })

/-- The loop of `HoldForOfflineOwner`. -/
def holdChunks (c : Crypto) (env : UInt32 → ChunkEnv) (owner collection key doc messageId : Bytes)
    (chunkTotal : UInt32) : NodeEngine → List UInt32 → Except Status Unit × NodeEngine
  | e, [] => (.ok (), e)
  | e, i :: rest =>
    match e.holdChunk c (env i) owner collection key doc messageId chunkTotal i with
    | (.error st, e) => (.error st, e)
    | (.ok (), e) => holdChunks c env owner collection key doc messageId chunkTotal e rest

/-- `HoldForOfflineOwner`; without `onlyChunks` every chunk is held. -/
def holdForOfflineOwner (env : UInt32 → ChunkEnv) (nowMs : Int64)
    (owner collection key doc : Bytes) (onlyChunks : Option (List UInt32)) (messageId : Bytes) :
    Except Status Unit × NodeEngine :=
  if owner = [] ∨ owner = e.nodeId then
    (.error ⟨.invalidArgument, text "transit: an owner must be another node"⟩, e)
  else
    let chunkTotal := transitChunkCount doc.length e.transitChunkBytes
    let indexes := onlyChunks.getD ((List.range chunkTotal.toNat).map UInt32.ofNat)
    if indexes.any fun i => decide (i ≥ chunkTotal) then
      (.error ⟨.invalidArgument, text "transit: chunk index out of range"⟩, e)
    else
      let held := e.transit.bytesHeld nowMs
      let newBytes := indexes.foldl (fun total i => total + UInt64.ofNat
        (chunkBytes (transitChunkUnit e.transitChunkBytes) doc i).length) 0
      if e.transitBudgetBytes > 0 ∧ held + newBytes > e.transitBudgetBytes then
        (.error ⟨.outOfSpace, text "transit: holder budget exhausted (" ++ decimal held.toNat ++
          text " held, " ++ decimal newBytes.toNat ++ text " requested)"⟩, e)
      else holdChunks c env owner collection key doc messageId chunkTotal e indexes

/-- What happens around a claim. -/
structure ClaimEnv where
  wall : UInt64
  append : AppendEnv := {}
  nowMs : Int64 := 0
  clockCommitted : Bool := true

/-- `ApplyClaimedTransit`. -/
def applyClaimedTransit (claim : ClaimEnv) (appended : Except Status Unit)
    (collection key doc : Bytes) : Except Failure Unit × NodeEngine :=
  match e.mergeRemote c env appended collection key doc { nodeId := e.nodeId } with
  | (.error failure, e) => (.error failure, e)
  | (.ok (), e) =>
    let (e, ts) := e.now claim.wall
    let (lsn, storage) := e.storage.appendLedgerOp c claim.append .kTransitClaimed e.nodeId key
      (ledgerKeyHash c collection key) ts {}
    let e := { e with storage }
    match lsn with
    | .error st => (.error (.status st), e)
    | .ok _ => (.ok (), e.persistClockIfDue claim.clockCommitted)

/-- The key `RecordRemoteClaim` records: that of the envelope, or the hash in hexadecimal. -/
def claimKey (nowMs : Int64) (owner keyHash : Bytes) : Bytes :=
  match e.transit.lookup nowMs owner keyHash with
  | .ok envelope => envelope.key
  | .error _ => hexEncode keyHash

/-- `RecordRemoteClaim`. -/
def recordRemoteClaim (env : ClaimEnv) (owner keyHash : Bytes) : Except Status Unit × NodeEngine :=
  if keyHash.length ≠ kWalHashLen then
    (.error ⟨.invalidArgument, text "transit claim: key_hash is not a SHA-256 digest"⟩, e)
  else
    let (e, ts) := e.now env.wall
    let (lsn, storage) := e.storage.appendLedgerOp c env.append .kTransitClaimed owner
      (e.claimKey env.nowMs owner keyHash) keyHash ts {}
    (lsn.map fun _ => (), { e with storage })

/-! ## `Open` -/

/-- The options of a node, with the identity `NodeIdentity::LoadOrCreate` finds. -/
structure Options where
  nodeId : Bytes
  sign : Bytes → Bytes := fun _ => []
  dek : Bytes := []
  walFile : Bytes := []
  quotaBytes : UInt64 := 0
  transitTtlSeconds : UInt32 := 0
  transitChunkBytes : UInt32 := 0
  transitBudgetBytes : UInt64 := 0

/-- What `Open` finds on disk beside the ledger and the clock, and what happens around it. -/
structure NodeOpenEnv where
  storage : EngineOpenEnv := {}
  /-- What `TransitStore::Load` reads from `transit.log`, or why it could not. -/
  transit : Except Status (List (Bytes × TransitEnvelope)) := .ok []

/-- The node `Open` returns, in a new process: the clock and the tag counter start at zero and are
restored from the clock file. -/
def boot (options : Options) (storage : StorageEngine) (entries : List (Bytes × TransitEnvelope))
    (clockFile : Option Bytes) : NodeEngine :=
  loadClockState
    { nodeId := options.nodeId, sign := options.sign
      clock := { nodeId := options.nodeId }
      storage := { storage with wal := storage.wal.setOrigin options.nodeId (some options.sign) }
      transit :=
        { holderNodeId := options.nodeId, ttlSeconds := options.transitTtlSeconds, entries }
      clockFile
      transitChunkBytes := options.transitChunkBytes
      transitBudgetBytes := options.transitBudgetBytes }

/-- `Open`. -/
def openNode (env : NodeOpenEnv) (options : Options) (disk : WalDisk) (clockFile : Option Bytes) :
    Except Failure NodeEngine × WalDisk :=
  if options.dek ≠ [] ∧ options.dek.length ≠ 32 then
    (.error (.status ⟨.invalidArgument, text "at-rest: DEK must be 32 bytes"⟩), disk)
  else
    match StorageEngine.openEngine c env.storage options.walFile options.dek options.quotaBytes
        disk with
    | (.error failure, disk) => (.error failure, disk)
    | (.ok storage, disk) =>
      match env.transit with
      | .error st => (.error (.status st), disk)
      | .ok entries => (.ok (boot options storage entries clockFile), disk)

end NodeEngine

end DeSentry
