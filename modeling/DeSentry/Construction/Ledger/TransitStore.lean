import DeSentry.Construction.Storage.Wal
import DeSentry.Framework.AssocMap

/-!
# The transit store (`ledger/transit_store.h`)

A node that holds a document for an offline owner keeps the bytes in envelopes, one for each
chunk.  The store is a map from owner and key hash to the envelope, written through to an append
log.  Here the log is what its appends answer; its framing is that of the other logs and nothing
below reads it back.
-/

namespace DeSentry

open ByteCodec ByteReader

/-! ## Chunks -/

/-- The `kTransitCollection` that envelopes replicate under. -/
def kTransitCollection : Bytes := text "_transit"

/-- The chunk size in force. -/
def transitChunkUnit (chunkBytes : UInt32) : ℕ :=
  if chunkBytes > 0 then chunkBytes.toNat else 256 * 1024

/-- `TransitChunkCount`. -/
def transitChunkCount (docBytes : ℕ) (chunkBytes : UInt32) : UInt32 :=
  let unit := transitChunkUnit chunkBytes
  let total := UInt32.ofNat ((docBytes + unit - 1) / unit)
  if total = 0 then 1 else total

/-- The four bytes of a number, most significant first. -/
def bigEndian (n : UInt32) : Bytes :=
  [(n >>> 24).toUInt8, (n >>> 16).toUInt8, (n >>> 8).toUInt8, n.toUInt8]

/-- `TransitChunkKeyHash`. -/
def transitChunkKeyHash (c : Crypto) (docKeyHash : Bytes) (chunkIndex : UInt32) : Bytes :=
  c.sha256 (docKeyHash ++ 0 :: bigEndian chunkIndex)

/-- `TransitAttestMessage`; the bytes of the two numbers alternate. -/
def transitAttestMessage (keyHash contentHash : Bytes) (chunkIndex chunkTotal : UInt32) : Bytes :=
  text "DSN-TRANSIT-v1" ++ 0 :: (keyHash ++ contentHash ++
    ((bigEndian chunkIndex).zip (bigEndian chunkTotal)).flatMap fun b => [b.1, b.2])

/-! ## Envelopes -/

/-- `struct TransitEnvelope`. -/
structure TransitEnvelope where
  /-- The node the bytes are held for. -/
  ownerNode : Bytes := []
  collection : Bytes := []
  key : Bytes := []
  keyHash : Bytes := []
  encodedDoc : Bytes := []
  holderNode : Bytes := []
  intentLsn : Int64 := kInvalidLsn
  /-- Zero for an envelope that never expires. -/
  expiresMs : Int64 := 0
  docSizeBytes : UInt64 := 0
  chunkIndex : UInt32 := 0
  chunkTotal : UInt32 := 1
  messageId : Bytes := []
  contentHash : Bytes := []
  holderSig : Bytes := []
  deriving DecidableEq, Repr

namespace TransitEnvelope

/-- The test every reader of the map makes: the envelope has not expired. -/
def live (e : TransitEnvelope) (nowMs : Int64) : Bool :=
  !(decide (e.expiresMs ≠ 0) && decide (e.expiresMs ≤ nowMs))

/-- `kTransitMagic`. -/
def kTransitMagic : UInt32 := 0x44534E54

/-- `EncodeEnvelope`. -/
def encode (e : TransitEnvelope) : Bytes :=
  ByteWriter.u32 kTransitMagic ++ ByteWriter.u32 3 ++ ByteWriter.u8 1 ++
  ByteWriter.bytes e.ownerNode ++ ByteWriter.bytes e.collection ++ ByteWriter.bytes e.key ++
  ByteWriter.bytes e.keyHash ++ ByteWriter.bytes e.encodedDoc ++ ByteWriter.bytes e.holderNode ++
  ByteWriter.i64 e.intentLsn ++ ByteWriter.i64 e.expiresMs ++ ByteWriter.u64 e.docSizeBytes ++
  ByteWriter.u32 e.chunkIndex ++ ByteWriter.u32 e.chunkTotal ++ ByteWriter.bytes e.messageId ++
  ByteWriter.bytes e.contentHash ++ ByteWriter.bytes e.holderSig

/-- What `DecodeBody` finds: an envelope, or the name of one that was dropped. -/
inductive Decoded where
  | hold (e : TransitEnvelope)
  | drop (owner keyHash : Bytes)
  deriving DecidableEq, Repr

/-- A refusal of `DecodeBody`. -/
def corrupt (what : String) : Except Status Decoded := .error ⟨.corruption, text what⟩

/-- `DecodeBody` on a drop record. -/
def readDrop : ByteReader (Except Status Decoded) := do
  let owner ← bytes
  let keyHash ← bytes
  if (← remaining) ≠ 0 then pure (corrupt "transit tombstone has trailing bytes")
  else if owner = [] ∨ keyHash.length ≠ kWalHashLen then
    pure (corrupt "transit tombstone has invalid fields")
  else pure (.ok (.drop owner keyHash))

/-- A trailing field, empty when the record ends before it. -/
def readOptional : ByteReader Bytes := do
  if (← remaining) > 0 then bytes else pure []

/-- `DecodeBody` on the fields version 2 added; `none` for bad chunk numbers. -/
def readStriping (version : UInt32) (e : TransitEnvelope) :
    ByteReader (Option TransitEnvelope) := do
  let docSizeBytes ← u64
  let chunkIndex ← u32
  let chunkTotal ← u32
  if chunkTotal = 0 ∨ chunkIndex ≥ chunkTotal then pure none
  else do
    let messageId ← readOptional
    let contentHash ← if version = 3 then readOptional else pure []
    let holderSig ← if version = 3 then readOptional else pure []
    pure (some { e with docSizeBytes, chunkIndex, chunkTotal, messageId, contentHash, holderSig })

/-- `DecodeBody` on a hold record. -/
def readHold (version : UInt32) : ByteReader (Except Status Decoded) := do
  let ownerNode ← bytes
  let collection ← bytes
  let key ← bytes
  let keyHash ← bytes
  let encodedDoc ← bytes
  let holderNode ← bytes
  let intentLsn ← i64
  let expiresMs ← i64
  let e : TransitEnvelope :=
    { ownerNode, collection, key, keyHash, encodedDoc, holderNode, intentLsn, expiresMs }
  match ← (if version = 1 then pure (some e) else readStriping version e) with
  | none => pure (corrupt "transit record has invalid chunk fields")
  | some e =>
    if (← remaining) ≠ 0 then pure (corrupt "transit record has trailing bytes")
    else if e.ownerNode = [] ∨ e.keyHash.length ≠ kWalHashLen then
      pure (corrupt "transit record has invalid envelope fields")
    else pure (.ok (.hold e))

/-- `DecodeBody`, up to the exception handler. -/
def readBody : ByteReader (Except Status Decoded) := do
  let magic ← u32
  if magic ≠ kTransitMagic then pure (corrupt "transit record is not an envelope")
  else do
    let version ← u32
    if version ≠ 3 ∧ version ≠ 2 ∧ version ≠ 1 then
      pure (corrupt "transit record has an unsupported envelope version")
    else do
      let kind ← u8
      if kind = 2 then readDrop
      else if kind ≠ 1 then pure (corrupt "transit record has an unknown kind")
      else readHold version

/-- `TransitStore::Decode`. -/
def decode (bytes : Bytes) : Except Status TransitEnvelope :=
  match readBody.run bytes with
  | .error what => .error ⟨.corruption, text "transit record is malformed: " ++ text what⟩
  | .ok (.error st, _) => .error st
  | .ok (.ok (.drop _ _), _) => .error ⟨.notFound, text "transit envelope was released"⟩
  | .ok (.ok (.hold e), _) => .ok e

end TransitEnvelope

/-! ## The store -/

/-- `MapKey`. -/
def transitMapKey (ownerNode keyHash : Bytes) : Bytes := ownerNode ++ 0 :: keyHash

/-- `class TransitStore`. -/
structure TransitStore where
  holderNodeId : Bytes
  ttlSeconds : UInt32 := 0
  entries : List (Bytes × TransitEnvelope) := []
  deriving DecidableEq, Repr

namespace TransitStore

variable (store : TransitStore)

/-- The map with an envelope under its key. -/
def insert (e : TransitEnvelope) : TransitStore :=
  { store with entries := AssocMap.set store.entries (transitMapKey e.ownerNode e.keyHash) e }

/-- The envelope as `Hold` stores it. -/
def stamped (nowMs : Int64) (e : TransitEnvelope) : TransitEnvelope :=
  { e with
    holderNode := store.holderNodeId
    expiresMs := if store.ttlSeconds = 0 then 0
      else nowMs + store.ttlSeconds.toUInt64.toInt64 * 1000 }

/-- `Hold`; `appended` is the answer of `AppendRecord`. -/
def hold (appended : Except Status Unit) (nowMs : Int64) (e : TransitEnvelope) :
    Except Status Unit × TransitStore :=
  if e.ownerNode = [] then
    (.error ⟨.invalidArgument, text "transit hold requires an owner node"⟩, store)
  else if e.keyHash.length ≠ kWalHashLen then
    (.error ⟨.invalidArgument, text "transit hold requires a 32-byte key_hash"⟩, store)
  else if e.ownerNode = store.holderNodeId then
    (.error ⟨.invalidArgument, text "transit hold: an owner must be another node"⟩, store)
  else
    match appended with
    | .error st => (.error st, store)
    | .ok () => (.ok (), store.insert (store.stamped nowMs e))

/-- `MergeRemoteEnvelope`. -/
def mergeRemoteEnvelope (appended : Except Status Unit) (e : TransitEnvelope) :
    Except Status Unit × TransitStore :=
  if e.ownerNode = [] ∨ e.keyHash.length ≠ kWalHashLen then
    (.error ⟨.invalidArgument,
      text "transit merge requires an owner and a 32-byte key_hash"⟩, store)
  else
    match appended with
    | .error st => (.error st, store)
    | .ok () => (.ok (), store.insert e)

/-- `PendingFor`. -/
def pendingFor (nowMs : Int64) (ownerNode : Bytes) : List TransitEnvelope :=
  (store.entries.map Prod.snd).filter fun e => decide (e.ownerNode = ownerNode) && e.live nowMs

/-- `Lookup`. -/
def lookup (nowMs : Int64) (ownerNode keyHash : Bytes) : Except Status TransitEnvelope :=
  if keyHash.length ≠ kWalHashLen then
    .error ⟨.invalidArgument, text "transit lookup requires a 32-byte key_hash"⟩
  else
    match AssocMap.get store.entries (transitMapKey ownerNode keyHash) with
    | none => .error ⟨.notFound, text "no transit envelope held for this key"⟩
    | some e =>
      if !e.live nowMs then .error ⟨.notFound, text "transit envelope has expired"⟩ else .ok e

/-- `BytesHeld`. -/
def bytesHeld (nowMs : Int64) : UInt64 :=
  ((store.entries.map Prod.snd).filter (·.live nowMs)).foldl
    (fun total e => total + UInt64.ofNat e.encodedDoc.length) 0

/-- What the log answers during a `Release` or an `ExpireAsOf`: each drop record, then the
compaction. -/
structure ReleaseEnv where
  dropped : TransitEnvelope → Except Status Unit := fun _ => .ok ()
  compacted : Except Status Unit := .ok ()

/-- The loop of `Release`: the wanted entries are dropped one by one, until an append fails. -/
def releaseFrom (env : ReleaseEnv) (wanted : List Bytes) :
    List (Bytes × TransitEnvelope) → Except Status ℕ × List (Bytes × TransitEnvelope)
  | [] => (.ok 0, [])
  | e :: rest =>
    if e.2.keyHash ∉ wanted then
      let (released, kept) := releaseFrom env wanted rest
      (released, e :: kept)
    else
      match env.dropped e.2 with
      | .error st => (.error st, e :: rest)
      | .ok () =>
        let (released, kept) := releaseFrom env wanted rest
        (released.map (· + 1), kept)

/-- `Release`. -/
def release (env : ReleaseEnv) (keyHashes : List Bytes) : Except Status ℕ × TransitStore :=
  if keyHashes = [] then (.ok 0, store)
  else
    let (released, entries) := releaseFrom env keyHashes store.entries
    let store := { store with entries }
    match released with
    | .error st => (.error st, store)
    | .ok n =>
      if n > 0 then (env.compacted.map fun _ => n, store) else (.ok n, store)

/-- The drop records of `ExpireAsOf`, until an append fails. -/
def appendDrops (env : ReleaseEnv) : List TransitEnvelope → Except Status Unit
  | [] => .ok ()
  | e :: rest =>
    match env.dropped e with
    | .error st => .error st
    | .ok () => appendDrops env rest

/-- `ExpireAsOf`: the map loses the expired entries before the log is told. -/
def expireAsOf (env : ReleaseEnv) (nowMs : Int64) : Except Status ℕ × TransitStore :=
  let expired := (store.entries.map Prod.snd).filter fun e => !e.live nowMs
  let store := { store with entries := store.entries.filter fun e => e.2.live nowMs }
  match appendDrops env expired with
  | .error st => (.error st, store)
  | .ok () =>
    if expired.length > 0 then (env.compacted.map fun _ => expired.length, store)
    else (.ok 0, store)

end TransitStore

end DeSentry
