import DeSentry.Framework.FrameLog
import DeSentry.Construction.Common.Crc32
import DeSentry.Construction.Crdt.Hlc
import DeSentry.Construction.Security.AtRest

/-!
# The ledger (`storage/wal.h`, `storage/wal.cpp`)

`WriteAheadLog` is an append-only file of checksummed frames, one per record, each record
carrying the hash of the one before it.  The frames and the walk over them are those of
`Framework/FrameLog.lean`; this module adds the record bodies, the sealing of payloads, the hash
chain, the high-water mark beside the file, and the operations.

An operation takes the object and the two files on disk (`WalDisk`) and returns both.  What the
operating system does is an argument: how much of a write reached the file, whether the stream
reported it, whether the sync succeeded, what became of the mark.  `Append` acknowledges when
the stream was good after `write` and the sync succeeded; the result of `flush` in between is
not looked at, so `AppendEnv.reached` is free also for an acknowledged append.

Left out: the offset index behind `ReadRange` (`lsn_offsets_`), the log messages, and the
mutex, which makes each operation one step.
-/

namespace DeSentry

open ByteCodec FrameLog ByteReader

/-! ## Records -/

/-- `enum class WalRecordType : uint8_t`.  A record read from a file can carry any byte. -/
structure WalRecordType where
  value : UInt8
  deriving DecidableEq, Repr

namespace WalRecordType

def kPut : WalRecordType := ⟨1⟩
def kDelete : WalRecordType := ⟨2⟩
def kCheckpoint : WalRecordType := ⟨3⟩
def kTransitIntent : WalRecordType := ⟨4⟩
def kTransitClaimed : WalRecordType := ⟨5⟩
def kAbort : WalRecordType := ⟨6⟩
def kAcl : WalRecordType := ⟨7⟩

end WalRecordType

/-- `kWalHashLen`. -/
def kWalHashLen : ℕ := 32

/-- `kWalRecordMagicV2`. -/
def kWalRecordMagicV2 : UInt32 := 0x44535732

/-- `kWalRecordMagicV3`. -/
def kWalRecordMagicV3 : UInt32 := 0x44535733

/-- `kMaxRecordBytes`: 256 MiB. -/
def kMaxRecordBytes : ℕ := 268435456

/-- `kMinBodyLenV1`. -/
def kMinBodyLenV1 : ℕ := 89

/-- `kInvalidLsn`. -/
def kInvalidLsn : Int64 := -1

/-- `GenesisHash`. -/
def genesisHash : Bytes := List.replicate kWalHashLen 0

/-- `struct WalRecord`. -/
structure WalRecord where
  lsn : Int64 := kInvalidLsn
  type : WalRecordType := .kPut
  collection : Bytes := []
  key : Bytes := []
  documentBytes : Bytes := []
  keyHash : Bytes := []
  hlc : HLCTimestamp := {}
  originNodeId : Bytes := []
  originSignature : Bytes := []
  prevHash : Bytes := []
  entryHash : Bytes := []
  transitHolder : Bytes := []
  transitSizeBytes : UInt64 := 0
  transitChunkIndex : UInt32 := 0
  transitChunkTotal : UInt32 := 1
  positionBound : Bool := false
  deriving DecidableEq, Repr

variable (r : WalRecord)

/-- `WalRecord::IsTransit`. -/
def WalRecord.isTransit : Bool :=
  r.type == .kTransitIntent || r.type == .kTransitClaimed

variable (c : Crypto)

/-- `LedgerKeyHash`. -/
def ledgerKeyHash (collection key : Bytes) : Bytes :=
  c.sha256 (collection ++ 0 :: key)

/-! ## Bodies -/

/-- The fields of `BuildContentLegacy` behind the magic. -/
def contentFields : Bytes :=
  ByteWriter.u64 r.lsn.toUInt64 ++ (ByteWriter.u8 r.type.value ++
  (ByteWriter.bytes r.collection ++ (ByteWriter.bytes r.key ++
  (ByteWriter.bytes r.documentBytes ++ (ByteWriter.bytes r.keyHash ++
  (ByteWriter.u64 r.hlc.physicalMs ++ (ByteWriter.u32 r.hlc.logical ++
  (ByteWriter.bytes r.hlc.nodeId ++ ByteWriter.bytes r.originNodeId))))))))

/-- `BuildContentLegacy`. -/
def buildContentLegacy : Bytes :=
  ByteWriter.u32 kWalRecordMagicV2 ++ contentFields r

/-- `BuildContent`: the `memcpy` puts the other magic over the first four bytes. -/
def buildContent : Bytes :=
  ByteWriter.u32 kWalRecordMagicV3 ++ (buildContentLegacy r).drop 4 ++ r.prevHash

/-- The unsigned tail `EncodeBody` gives a transit intent. -/
def transitTail : Bytes :=
  ByteWriter.bytes r.transitHolder ++ (ByteWriter.u64 r.transitSizeBytes ++
  (ByteWriter.u32 r.transitChunkIndex ++ ByteWriter.u32 r.transitChunkTotal))

/-- `EncodeBody`. -/
def encodeBody : Bytes :=
  (if r.positionBound then buildContent r else buildContentLegacy r) ++
  (ByteWriter.bytes r.originSignature ++ (ByteWriter.rawBytes r.prevHash ++
  (ByteWriter.rawBytes r.entryHash ++
  (if r.type = .kTransitIntent then transitTail r else []))))

/-- The reads of `DecodeBody` from the LSN to the origin. -/
def readContentFields : ByteReader WalRecord := do
  let lsn ← u64
  let type ← u8
  let collection ← bytes
  let key ← bytes
  let documentBytes ← bytes
  let keyHash ← bytes
  let physicalMs ← u64
  let logical ← u32
  let nodeId ← bytes
  let originNodeId ← bytes
  pure { lsn := lsn.toInt64, type := ⟨type⟩, collection, key, documentBytes, keyHash,
         hlc := { physicalMs, logical, nodeId }, originNodeId }

/-- The reads of `DecodeBody` on the transit tail. -/
def readTransitTail : ByteReader WalRecord := do
  let transitHolder ← bytes
  let transitSizeBytes ← u64
  let transitChunkIndex ← u32
  let transitChunkTotal ← u32
  pure { r with transitHolder, transitSizeBytes, transitChunkIndex, transitChunkTotal }

/-- The checks of `DecodeBody` on the chunk numbers of an intent. -/
def checkChunks : Except Status WalRecord :=
  if r.transitChunkTotal = 0 then
    .error ⟨.corruption, text "WAL: transit intent has zero chunk total"⟩
  else if r.transitChunkIndex ≥ r.transitChunkTotal then
    .error ⟨.corruption, text "WAL: transit intent chunk index out of range"⟩
  else .ok r

/-- `DecodeBody` behind the two chain fields: nothing, or the tail of an intent. -/
def readTail : ByteReader (Except Status WalRecord) := do
  if (← remaining) > 0 then
    if r.type ≠ .kTransitIntent then
      pure (.error ⟨.corruption, text "WAL: non-transit record has trailing bytes"⟩)
    else do
      let r ← readTransitTail r
      pure (checkChunks r)
  else pure (.ok r)

/-- `DecodeBody` behind the signature: the chain fields, then the tail. -/
def readChain (contentPrev : Bytes) : ByteReader (Except Status WalRecord) := do
  if (← remaining) < 2 * kWalHashLen then
    pure (.error ⟨.corruption, text "WAL: record missing chain fields"⟩)
  else do
    let prevHash ← rawBytes kWalHashLen
    if r.positionBound ∧ prevHash ≠ contentPrev then
      pure (.error ⟨.corruption,
        text "WAL: v3 content prev_hash does not match chain prev_hash"⟩)
    else do
      let entryHash ← rawBytes kWalHashLen
      readTail { r with prevHash, entryHash }

/-- The `content_prev` of `DecodeBody`: only v3 content ends with a hash. -/
def readContentPrev (positionBound : Bool) : ByteReader Bytes :=
  if positionBound then rawBytes kWalHashLen else pure []

/-- The body of the `try` block of `DecodeBody`. -/
def readBody : ByteReader (Except Status WalRecord) := do
  let magic ← u32
  if magic ≠ kWalRecordMagicV2 ∧ magic ≠ kWalRecordMagicV3 then
    pure (.error ⟨.corruption, text "WAL: not a v2/v3 record body"⟩)
  else do
    let r ← readContentFields
    let positionBound := magic == kWalRecordMagicV3
    let contentPrev ← readContentPrev positionBound
    let originSignature ← bytes
    readChain { r with positionBound, originSignature } contentPrev

/-- `DecodeBody`. -/
def decodeBody (body : Bytes) : Except Status WalRecord :=
  match readBody.run body with
  | .ok (result, _) => result
  | .error what => .error ⟨.corruption, text "WAL: malformed v2 record: " ++ text what⟩

/-- The three `read_blob` calls of `DecodeBodyV1`; any failure of them is the same status. -/
def readBlobsV1 : ByteReader (Bytes × Bytes × Bytes) := do
  let collection ← bytes
  let key ← bytes
  let documentBytes ← bytes
  pure (collection, key, documentBytes)

/-- `DecodeBodyV1`. -/
def decodeBodyV1 (body : Bytes) : Except Status WalRecord :=
  if body.length < kMinBodyLenV1 - 4 then .error ⟨.corruption, text "WAL: v1 record too short"⟩
  else
    match readBlobsV1.run (body.drop 9) with
    | .error _ =>
      .error ⟨.corruption, text "WAL: v1 record truncated in a variable-length field"⟩
    | .ok ((collection, key, documentBytes), rest) =>
      if rest.length < 2 * kWalHashLen then
        .error ⟨.corruption, text "WAL: v1 record missing chain fields"⟩
      else
        .ok { lsn := (UInt64.ofNat (leValue (body.take 8))).toInt64
              type := ⟨(body.drop 8).headD 0⟩
              collection, key, documentBytes
              keyHash := ledgerKeyHash c collection key
              prevHash := rest.take kWalHashLen
              entryHash := (rest.drop kWalHashLen).take kWalHashLen }

/-! ## Frames and payloads -/

/-- The frames of the ledger file. -/
def walFormat : Format where
  checksum := crc32
  minBody := 8
  maxBody := kMaxRecordBytes
  four_le_minBody := by decide
  maxBody_lt := by decide

/-- The associated data and file tag of the ledger: the letters `wal`. -/
def walTag : Bytes := [0x77, 0x61, 0x6C]

/-- `SealPayload`. -/
def sealPayload (nonce : Except Bytes Nonce) (subkey payload : Bytes) : Except Status Bytes :=
  if subkey = [] then .ok payload else AtRest.sealRecord c nonce subkey payload walTag

/-- `UnsealPayload`. -/
def unsealPayload (subkey payload : Bytes) : Except Failure Bytes :=
  let isSealed := AtRest.looksSealedRecord payload
  if isSealed ∧ subkey = [] then
    .error (.status ⟨.corruption, text "WAL: sealed record without an unlock key"⟩)
  else if !isSealed ∧ subkey ≠ [] then
    .error (.status ⟨.corruption, text "WAL: plaintext record in a sealed ledger"⟩)
  else if !isSealed then .ok payload
  else AtRest.openRecord c subkey payload walTag

/-! ## Reading the file -/

/-- The locals of `ReadAllLocked`. -/
structure ReadState where
  records : List WalRecord := []
  expectedLsn : Int64 := 0
  migratedFromV1 : Bool := false

/-- What `ReadAllLocked` leaves behind: the records, `last_read_corrupt_` and whether it has
set `migrated_from_v1_`. -/
structure ReadResult where
  records : List WalRecord
  corrupt : Bool
  migratedFromV1 : Bool

/-- Format detection by magic. -/
def hasBodyMagic (payload : Bytes) : Bool :=
  decide (4 ≤ payload.length) &&
    (leValue (payload.take 4) == kWalRecordMagicV2.toNat ||
      leValue (payload.take 4) == kWalRecordMagicV3.toNat)

/-- The end of the loop body of `ReadAllLocked`: the LSN check and the `push_back`. -/
def acceptRecord (s : ReadState) (r : WalRecord) (v1 : Bool) : Verdict ReadState :=
  if 0 ≤ r.lsn ∧ r.lsn < s.expectedLsn then .reject
  else .accept
    { records := s.records ++ [r]
      expectedLsn := if r.lsn ≥ s.expectedLsn then r.lsn + 1 else s.expectedLsn
      migratedFromV1 := s.migratedFromV1 || v1 }

/-- The loop body of `ReadAllLocked` on a frame whose checksum is right. -/
def readRecord (subkey : Bytes) (s : ReadState) (payload : Bytes) : Verdict ReadState :=
  match unsealPayload c subkey payload with
  | .error (.status _) => .reject
  | .error .thrown => .throw
  | .ok payload =>
    if hasBodyMagic payload then
      match decodeBody payload with
      | .error _ => .reject
      | .ok r => acceptRecord s r false
    else
      match decodeBodyV1 c payload with
      | .error _ => .reject
      | .ok r => acceptRecord s r true

/-- `ReadAllLocked`. -/
def readAllLocked (subkey file : Bytes) : Except Failure ReadResult :=
  match walFormat.replay (readRecord c subkey) {} file with
  | (s, .clean) => .ok ⟨s.records, false, s.migratedFromV1⟩
  | (s, .corrupt) => .ok ⟨s.records, true, s.migratedFromV1⟩
  | (_, .thrown) => .error .thrown

/-! ## Verification -/

/-- `struct VerifyResult`. -/
structure VerifyResult where
  ok : Bool := true
  entriesChecked : ℕ := 0
  signedEntries : ℕ := 0
  unsignedEntries : ℕ := 0
  failedAtEntryId : Int64 := kInvalidLsn
  reason : Bytes := []
  deriving DecidableEq, Repr

/-- `SignatureVerifier`: node id, message, signature. -/
abbrev SignatureVerifier := Bytes → Bytes → Bytes → Bool

/-- The `bound_ok` of `VerifyChain`. -/
def boundOk (r : WalRecord) : Bool := c.sha256 (buildContent r) == r.entryHash

/-- The hash comparison of `legacy_ok`. -/
def legacyOk (r : WalRecord) : Bool :=
  c.sha256 (buildContentLegacy r ++ r.prevHash) == r.entryHash

variable (verify : Option SignatureVerifier)

/-- The `sig_ok` of `VerifyChain`; without a verifier nothing is checked. -/
def signatureOk (r : WalRecord) : Bool :=
  match verify with
  | none => true
  | some v =>
    v r.originNodeId (buildContent r) r.originSignature ||
      (!boundOk c r && v r.originNodeId (buildContentLegacy r) r.originSignature)

/-- The loop of `VerifyChain`. -/
def verifyRecords (c : Crypto) (verify : Option SignatureVerifier) :
    Bytes → VerifyResult → List WalRecord → VerifyResult
  | _, result, [] => { result with failedAtEntryId := kInvalidLsn }
  | expectedPrev, result, r :: rest =>
    if r.prevHash ≠ expectedPrev then
      { result with
        ok := false, failedAtEntryId := r.lsn
        reason := text "chain break: prev_hash does not match the preceding entry's hash" }
    else if ¬ boundOk c r ∧ ¬ legacyOk c r then
      { result with
        ok := false, failedAtEntryId := r.lsn
        reason := text "entry_hash mismatch: record content does not match its recorded hash" }
    else if r.originSignature = [] ∨ r.originNodeId = [] then
      verifyRecords c verify r.entryHash
        { result with
          unsignedEntries := result.unsignedEntries + 1
          entriesChecked := result.entriesChecked + 1 } rest
    else if signatureOk c verify r then
      verifyRecords c verify r.entryHash
        { result with
          signedEntries := result.signedEntries + 1
          entriesChecked := result.entriesChecked + 1 } rest
    else
      { result with
        ok := false, signedEntries := result.signedEntries + 1, failedAtEntryId := r.lsn
        reason := text "origin signature does not verify against node_id " ++ r.originNodeId }

/-- `VerifyChain` on what a replay returned. -/
def verifyRead (read : ReadResult) : VerifyResult :=
  if read.corrupt then
    { ok := false
      entriesChecked := read.records.length
      failedAtEntryId := (read.records.getLast?.map (·.lsn + 1)).getD 0
      reason := text "ledger file contains a corrupt record: replay stopped before end-of-file" }
  else verifyRecords c verify genesisHash {} read.records

/-! ## The object and its files -/

/-- The two files of a ledger.  A missing ledger file is an empty one: `Open` creates it. -/
structure WalDisk where
  file : Bytes := []
  /-- The file `<wal>.hwm`. -/
  hwm : Option Bytes := none
  deriving DecidableEq, Repr

/-- `class WriteAheadLog`. -/
structure WriteAheadLog where
  path : Bytes
  /-- Whether the stream `file_` is open. -/
  isOpen : Bool := true
  nextLsn : Int64 := 0
  tipHash : Bytes := genesisHash
  lastCheckpointLsn : Int64 := kInvalidLsn
  hwmSavedLsn : Int64 := -1
  hwmSavedMs : Int64 := 0
  originNodeId : Bytes := []
  signer : Option (Bytes → Bytes) := none
  subkey : Bytes := []
  migratedFromV1 : Bool := false
  preMigrationTipHash : Bytes := []

/-- What became of a `WriteHwmBestEffort`. -/
inductive HwmOutcome where
  /-- The temporary file was not written: the old mark stays. -/
  | kept
  /-- The old mark was removed and the rename failed. -/
  | removed
  | written
  deriving DecidableEq, Repr

/-- The bytes of a mark. -/
def hwmBytes (tipId : Int64) (tipHash : Bytes) : Bytes := ByteWriter.i64 tipId ++ tipHash

/-- `WriteHwmBestEffort`. -/
def writeHwmBestEffort (outcome : HwmOutcome) (tipId : Int64) (tipHash : Bytes)
    (disk : WalDisk) : WalDisk :=
  match outcome with
  | .kept => disk
  | .removed => { disk with hwm := none }
  | .written => { disk with hwm := some (hwmBytes tipId tipHash) }

/-- The newest checkpoint of a list of records, or the given LSN. -/
def checkpointAfter (initial : Int64) (records : List WalRecord) : Int64 :=
  records.foldl (fun acc r => if r.type = .kCheckpoint then r.lsn else acc) initial

variable (wal : WriteAheadLog) (disk : WalDisk)

namespace WriteAheadLog

/-- What `ReadAllLocked` sees: a closed stream delivers nothing. -/
def contents : Bytes := if wal.isOpen then disk.file else []

/-- `ReadAll`. -/
def readAll : Except Failure (List WalRecord) := do
  let read ← readAllLocked c wal.subkey (wal.contents disk)
  pure read.records

/-- `VerifyChain`. -/
def verifyChain (wal : WriteAheadLog) (disk : WalDisk) : Except Failure VerifyResult := do
  let read ← readAllLocked c wal.subkey (wal.contents disk)
  pure (verifyRead c verify read)

/-- `SetOrigin`. -/
def setOrigin (nodeId : Bytes) (signer : Option (Bytes → Bytes)) : WriteAheadLog :=
  { wal with originNodeId := nodeId, signer }

end WriteAheadLog

/-! ## `Append` -/

/-- `struct AppendOptions`, without `transit_owner`: the branch that tests it assigns the
fields the values they already have. -/
structure AppendOptions where
  hlc : HLCTimestamp := {}
  transitHolder : Bytes := []
  transitSizeBytes : UInt64 := 0
  transitChunkIndex : UInt32 := 0
  transitChunkTotal : UInt32 := 1

/-- The arguments of `Append`. -/
structure AppendCall where
  type : WalRecordType
  collection : Bytes
  key : Bytes
  documentBytes : Bytes
  options : AppendOptions := {}

/-- What the operating system does during an `Append`. -/
structure AppendEnv where
  /-- The random generator's answer, or the text of its exception. -/
  nonce : Except Bytes Nonce := .error []
  /-- How many bytes of the frame reached the file; `none` when all of them did. -/
  reached : Option ℕ := none
  /-- `file_.good()` after the write. -/
  writeGood : Bool := true
  /-- The error of `SyncFileByPath`, if it failed. -/
  syncErr : Option Bytes := none
  /-- `MonotonicMs()`. -/
  nowMs : Int64 := 0
  hwm : HwmOutcome := .written

/-- The part of a frame that reached the file. -/
def AppendEnv.part (env : AppendEnv) (frame : Bytes) : Bytes :=
  match env.reached with
  | none => frame
  | some n => frame.take n

namespace WriteAheadLog

/-- The record `Append` builds, before it is hashed and signed. -/
def draftRecord (call : AppendCall) : WalRecord :=
  let hlc := call.options.hlc
  let r : WalRecord :=
    { lsn := wal.nextLsn
      type := call.type
      positionBound := true
      collection := call.collection
      key := call.key
      documentBytes := call.documentBytes
      keyHash := ledgerKeyHash c call.collection call.key
      hlc := if hlc.nodeId = [] then { hlc with nodeId := wal.originNodeId } else hlc
      originNodeId := wal.originNodeId
      prevHash := wal.tipHash }
  if call.type = .kTransitIntent then
    { r with
      transitHolder := call.options.transitHolder
      transitSizeBytes := call.options.transitSizeBytes
      transitChunkIndex := call.options.transitChunkIndex
      transitChunkTotal := call.options.transitChunkTotal }
  else r

/-- The record `Append` writes. -/
def newRecord (call : AppendCall) : WalRecord :=
  let r := wal.draftRecord c call
  { r with
    entryHash := c.sha256 (buildContent r)
    originSignature := (wal.signer.map (· (buildContent r))).getD [] }

/-- The assignments of `Append` behind the durability point. -/
def advanced (type : WalRecordType) (r : WalRecord) : WriteAheadLog :=
  { wal with
    tipHash := r.entryHash
    lastCheckpointLsn := if type = .kCheckpoint then r.lsn else wal.lastCheckpointLsn
    nextLsn := wal.nextLsn + 1 }

/-- `WriteHwmIfDueLocked`. -/
def writeHwmIfDueLocked (env : AppendEnv) (tipId : Int64) (tipHash : Bytes)
    (wal : WriteAheadLog) (disk : WalDisk) : WriteAheadLog × WalDisk :=
  if tipId < wal.hwmSavedLsn + 64 ∧ env.nowMs < wal.hwmSavedMs + 1000 then (wal, disk)
  else
    ({ wal with hwmSavedLsn := tipId, hwmSavedMs := env.nowMs },
      writeHwmBestEffort env.hwm tipId tipHash disk)

/-- `Append`. -/
def append (c : Crypto) (env : AppendEnv) (wal : WriteAheadLog) (disk : WalDisk)
    (call : AppendCall) : Except Status Int64 × WriteAheadLog × WalDisk :=
  if wal.nextLsn = Int64.maxValue then
    (.error ⟨.outOfSpace, text "LSN overflow: cannot assign new ledger entry ID"⟩, wal, disk)
  else
    let r := wal.newRecord c call
    match sealPayload c env.nonce wal.subkey (encodeBody r) with
    | .error st => (.error st, wal, disk)
    | .ok payload =>
      if !wal.isOpen then (.error ⟨.ioError, text "WAL append failed"⟩, wal, disk)
      else
        let disk := { disk with file := disk.file ++ env.part (walFormat.frame payload) }
        if !env.writeGood then (.error ⟨.ioError, text "WAL append failed"⟩, wal, disk)
        else
          match env.syncErr with
          | some err => (.error ⟨.ioError, text "WAL sync failed: " ++ err⟩, wal, disk)
          | none =>
            (.ok r.lsn, (wal.advanced call.type r).writeHwmIfDueLocked env r.lsn r.entryHash disk)

end WriteAheadLog

/-! ## `RewriteLocked` and `Prune` -/

/-- What the operating system does during a `RewriteLocked` and the mark update behind it. -/
structure RewriteEnv where
  /-- The random generator's answer for each record. -/
  nonce : ℕ → Except Bytes Nonce := fun _ => .error []
  tmpOpened : Bool := true
  /-- `out.good()` after the flush. -/
  tmpWritten : Bool := true
  renamed : Bool := true
  reopened : Bool := true
  hwm : HwmOutcome := .written

/-- The payloads `RewriteLocked` writes, from the `i`-th record on. -/
def sealAll (c : Crypto) (nonce : ℕ → Except Bytes Nonce) (subkey : Bytes) :
    ℕ → List WalRecord → Except Status (List Bytes)
  | _, [] => .ok []
  | i, r :: rest =>
    match sealPayload c (nonce i) subkey (encodeBody r), sealAll c nonce subkey (i + 1) rest with
    | .error st, _ => .error st
    | .ok _, .error st => .error st
    | .ok payload, .ok payloads => .ok (payload :: payloads)

variable (records : List WalRecord) (env : RewriteEnv) (checkpointLsn : Int64)

namespace WriteAheadLog

/-- `RewriteLocked`.  Once the old file is removed, a failed rename leaves no ledger file and a
closed stream. -/
def rewriteLocked (wal : WriteAheadLog) (disk : WalDisk) (records : List WalRecord) :
    Except Status Unit × WriteAheadLog × WalDisk :=
  if !env.tmpOpened then
    (.error ⟨.ioError, text "cannot write " ++ wal.path ++ text ".rewrite"⟩, wal, disk)
  else
    match sealAll c env.nonce wal.subkey 0 records with
    | .error st => (.error st, wal, disk)
    | .ok payloads =>
      if !env.tmpWritten then (.error ⟨.ioError, text "WAL rewrite failed"⟩, wal, disk)
      else if !env.renamed then
        (.error ⟨.ioError, text "cannot commit rewritten WAL: " ++ wal.path⟩,
          { wal with isOpen := false }, { disk with file := [] })
      else if !env.reopened then
        (.error ⟨.ioError, text "cannot reopen WAL after rewrite: " ++ wal.path⟩,
          { wal with isOpen := false }, { disk with file := walFormat.frames payloads })
      else
        (.ok (), { wal with isOpen := true }, { disk with file := walFormat.frames payloads })

/-- `struct PruneResult`. -/
structure PruneResult where
  dropped : ℕ
  prunedThrough : Int64
  previousTipHash : Bytes
  newTipHash : Bytes
  deriving DecidableEq, Repr

/-- The set `claimed_below`; the loop stops at the first LSN above the checkpoint. -/
def claimedBelow (records : List WalRecord) : List Bytes :=
  ((records.takeWhile fun r => ¬ r.lsn > checkpointLsn).filter
    fun r => r.type = .kTransitClaimed).map (·.keyHash)

/-- The `droppable` of `Prune`. -/
def droppable (claimed : List Bytes) (r : WalRecord) : Bool :=
  decide (r.lsn ≤ checkpointLsn) && r.isTransit && decide (r.keyHash ∈ claimed)

/-- A survivor of `Prune` with new links: it keeps its layout and loses its signature. -/
def relink (prev : Bytes) (r : WalRecord) : WalRecord :=
  let r := { r with prevHash := prev }
  let entryHash :=
    if r.positionBound then c.sha256 (buildContent r)
    else c.sha256 (buildContentLegacy r ++ prev)
  { r with entryHash, originSignature := [] }

/-- The loop of `Prune` over the survivors. -/
def rechain (c : Crypto) : Bytes → List WalRecord → List WalRecord
  | _, [] => []
  | prev, r :: rest => relink c prev r :: rechain c (relink c prev r).entryHash rest

/-- The hash of the last record, or the genesis hash. -/
def lastHash : Bytes :=
  (records.getLast?.map (·.entryHash)).getD genesisHash

/-- The LSN behind the last record, or 0. -/
def lsnAfter : Int64 := (records.getLast?.map (·.lsn + 1)).getD 0

/-- `Prune`. -/
def prune (wal : WriteAheadLog) (disk : WalDisk) (checkpointLsn : Int64) :
    Except Failure PruneResult × WriteAheadLog × WalDisk :=
  match wal.readAll c disk with
  | .error e => (.error e, wal, disk)
  | .ok records =>
    let claimed := claimedBelow checkpointLsn records
    let kept := records.filter fun r => !droppable checkpointLsn claimed r
    let dropped := records.length - kept.length
    if dropped = 0 then
      (.ok ⟨0, checkpointLsn, wal.tipHash, wal.tipHash⟩, wal, disk)
    else
      let kept := rechain c genesisHash kept
      match wal.rewriteLocked c env disk kept with
      | (.error st, wal, disk) => (.error (.status st), wal, disk)
      | (.ok (), wal', disk) =>
        let wal' := { wal' with
          tipHash := lastHash kept
          nextLsn := lsnAfter kept
          lastCheckpointLsn := checkpointAfter kInvalidLsn kept }
        (.ok ⟨dropped, checkpointLsn, wal.tipHash, wal'.tipHash⟩, wal',
          writeHwmBestEffort env.hwm (wal'.nextLsn - 1) wal'.tipHash disk)

end WriteAheadLog

/-! ## `Open` -/

/-- What the operating system does during an `Open`. -/
structure OpenEnv where
  created : Bool := true
  opened : Bool := true
  rewrite : RewriteEnv := {}

/-- `DetectMode`: whether the first record is sealed has to agree with having a key. -/
def detectMode (walFile : Bytes) (haveKey : Bool) (file : Bytes) : Except Status Unit :=
  if file.length < 4 then .ok ()
  else
    let bodyLen := leValue (file.take 4)
    if bodyLen < 8 ∨ bodyLen > kMaxRecordBytes then
      .error ⟨.corruption, text "WAL: implausible first record length -- file is not a ledger"⟩
    else
      let head := (file.drop 4).take (min bodyLen 64)
      if head.length < min bodyLen 64 then .ok ()
      else
        let isSealed := decide (8 ≤ head.length) && AtRest.looksSealedRecord head
        if isSealed ∧ !haveKey then
          .error ⟨.corruption, text "at-rest: sealed ledger " ++ walFile ++
            text " opened without encryption (missing unlock key?)"⟩
        else if !isSealed ∧ haveKey then
          .error ⟨.corruption, text "at-rest: plaintext ledger " ++ walFile ++
            text " opened with encryption enabled; migrate it with `desentryd --re-encrypt`"⟩
        else .ok ()

/-- The LSN of the last record, or `kInvalidLsn`. -/
def lastLsn : Int64 := (records.getLast?.map (·.lsn)).getD kInvalidLsn

/-- The id a mark holds. -/
def hwmId (mark : Bytes) : Int64 := (UInt64.ofNat (leValue (mark.take 8))).toInt64

/-- The hash a mark holds. -/
def hwmHash (mark : Bytes) : Bytes := (mark.drop 8).take 32

/-- The truncation check of `Open`; a mark shorter than 40 bytes is ignored. -/
def checkHwm (hwm : Option Bytes) : Except Status Unit :=
  match hwm with
  | none => .ok ()
  | some mark =>
    if mark.length < 8 + 32 then .ok ()
    else if lastLsn records < hwmId mark ∨
        (lastLsn records = hwmId mark ∧ WriteAheadLog.lastHash records ≠ hwmHash mark) then
      .error ⟨.corruption, text "ledger file is shorter than its high-water mark: " ++
        toText (lastLsn records + 1) ++ text " entries present, mark at " ++
        toText (hwmId mark + 1) ++
        text " -- refusing to boot on a truncated ledger (would reuse LSNs)"⟩
    else .ok ()

/-- The migration loop of `Open`: every record gets the legacy layout and new links. -/
def migrateV1 (c : Crypto) : Bytes → List WalRecord → List WalRecord
  | _, [] => []
  | prev, r :: rest =>
    let r := { r with prevHash := prev, positionBound := false }
    let entryHash := c.sha256 (buildContentLegacy r ++ prev)
    { r with entryHash } :: migrateV1 c entryHash rest

namespace WriteAheadLog

/-- The end of `Open`: a file with v1 records is rewritten. -/
def migrate (wal : WriteAheadLog) (disk : WalDisk) (read : ReadResult) :
    Except Failure WriteAheadLog × WalDisk :=
  if !read.migratedFromV1 then (.ok wal, disk)
  else
    let wal := { wal with
      migratedFromV1 := true
      preMigrationTipHash := lastHash read.records }
    let upgraded := migrateV1 c genesisHash read.records
    match wal.rewriteLocked c env disk upgraded with
    | (.error st, _, disk) => (.error (.status st), disk)
    | (.ok (), wal, disk) =>
      let wal := { wal with tipHash := lastHash upgraded }
      (.ok wal, writeHwmBestEffort env.hwm (wal.nextLsn - 1) wal.tipHash disk)

/-- The object `Open` builds from the records it has read. -/
def ofRecords (walFile subkey : Bytes) (records : List WalRecord) : WriteAheadLog :=
  { path := walFile, subkey
    nextLsn := lsnAfter records
    tipHash := lastHash records
    lastCheckpointLsn := checkpointAfter kInvalidLsn records }

/-- The subkey of `Open`: none in plaintext mode. -/
def subkeyFor (dek : Bytes) : Except Status Bytes :=
  if dek = [] then .ok []
  else if dek.length ≠ 32 then .error ⟨.invalidArgument, text "at-rest: DEK must be 32 bytes"⟩
  else AtRest.fileSubkey c dek walTag

/-- The checks of `Open` on the records it has read. -/
def bootChecks (walFile dek : Bytes) (disk : WalDisk) (read : ReadResult) : Except Status Unit :=
  if dek ≠ [] ∧ read.records = [] ∧ read.corrupt then
    .error ⟨.corruption, text "at-rest: sealed ledger " ++ walFile ++
      text " did not authenticate (wrong unlock key or tampered file)"⟩
  else do
    checkHwm read.records disk.hwm
    let vr := verifyRead c none read
    if !vr.ok then
      .error ⟨.corruption, text "ledger failed boot verification at entry " ++
        toText vr.failedAtEntryId ++ text ": " ++ vr.reason⟩
    else .ok ()

/-- `Open` up to the migration. -/
def boot (env : OpenEnv) (walFile dek : Bytes) (disk : WalDisk) :
    Except Failure (WriteAheadLog × ReadResult) :=
  if !env.created then
    .error (.status ⟨.ioError, text "cannot create WAL file: " ++ walFile⟩)
  else do
    (detectMode walFile (decide (dek ≠ [])) disk.file).mapError .status
    let subkey ← (subkeyFor c dek).mapError .status
    if !env.opened then
      .error (.status ⟨.ioError, text "cannot open WAL file: " ++ walFile⟩)
    else do
      let read ← readAllLocked c subkey disk.file
      (bootChecks c walFile dek disk read).mapError .status
      pure (ofRecords walFile subkey read.records, read)

/-- `Open`. -/
def openLog (env : OpenEnv) (walFile dek : Bytes) (disk : WalDisk) :
    Except Failure WriteAheadLog × WalDisk :=
  match boot c env walFile dek disk with
  | .error e => (.error e, disk)
  | .ok (wal, read) => wal.migrate c env.rewrite disk read

end WriteAheadLog

end DeSentry
