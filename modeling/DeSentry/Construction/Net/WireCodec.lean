import DeSentry.Construction.Net.LedgerExchange
import DeSentry.Construction.Net.SecureChannel
import DeSentry.Construction.Net.TransitClaim

/-!
# The layout of the payloads (`net/wire_protocol.cpp`)

The payload types that only the codec and the transport look at, and `Encode` and `Decode` of every
payload type.  A decoder is a `ByteReader`: it throws where the source throws, and what it leaves
unread the source ignores, with the one exception of `SyncSummaryPayload`.

Fields were added to the payloads over time.  A decoder reads a field that older peers do not send
with `ByteReader.trailing`, which asks whether bytes remain.  `TransitResponsePayload` and
`LedgerDeltaPayload` also start with a magic number since their second version, and a payload
without it is read as one of the first version.

The calls of `reserve` have no effect on the result and are left out.
-/

namespace DeSentry

open ByteCodec ByteReader

/-- `Decode`, for a decoder that ignores what follows. -/
def decodeWith {α : Type} (get : ByteReader α) (bytes : Bytes) : Except String α :=
  (get.run bytes).map Prod.fst

/-- `HasMagic`. -/
def hasMagic (bytes : Bytes) (magic : UInt32) : Bool :=
  decide (4 ≤ bytes.length ∧ leValue (bytes.take 4) = magic.toNat)

/-- A `bool`, as it is written. -/
def flag (b : Bool) : UInt8 := if b then 1 else 0

namespace Wire

/-! ## The handshake -/

/-- `struct HelloPayload`, as bytes. -/
structure HelloPayload where
  nodeId : Bytes
  ed25519Pubkey : Bytes
  x25519EphemeralPubkey : Bytes
  signature : Bytes
  p2pPort : UInt16 := 0
  membershipTag : Bytes := []
  deriving DecidableEq, Repr

namespace HelloPayload

/-- `HelloPayload::Encode`. -/
def encode (h : HelloPayload) : Bytes :=
  ByteWriter.bytes h.nodeId ++ ByteWriter.bytes h.ed25519Pubkey ++
    ByteWriter.bytes h.x25519EphemeralPubkey ++ ByteWriter.bytes h.signature ++
    ByteWriter.u16 h.p2pPort ++ ByteWriter.bytes h.membershipTag

/-- The reads of `HelloPayload::Decode`. -/
def read : ByteReader HelloPayload := do
  let nodeId ← bytes
  let ed25519Pubkey ← bytes
  let x25519EphemeralPubkey ← bytes
  let signature ← bytes
  let p2pPort ← u16
  let membershipTag ← trailing [] bytes
  pure { nodeId, ed25519Pubkey, x25519EphemeralPubkey, signature, p2pPort, membershipTag }

/-- `HelloPayload::Decode`. -/
def decode : Bytes → Except String HelloPayload := decodeWith read

/-- The HELLO as the transcript has it. -/
def raw (h : HelloPayload) : Bytes := encodeMessage { type := 1, payload := h.encode }

end HelloPayload

/-- `TranscriptMessage`. -/
def transcriptMessage (clientHello serverHello : Bytes) : Bytes :=
  text "DSN-HS-v2" ++ [0] ++ ByteWriter.bytes clientHello ++ ByteWriter.bytes serverHello

/-- `struct ConfirmPayload`. -/
structure ConfirmPayload where
  transcriptSignature : Bytes
  deriving DecidableEq, Repr

/-- `ConfirmPayload::Encode`. -/
def ConfirmPayload.encode (c : ConfirmPayload) : Bytes := ByteWriter.bytes c.transcriptSignature

/-- The reads of `ConfirmPayload::Decode`. -/
def ConfirmPayload.read : ByteReader ConfirmPayload := do
  let transcriptSignature ← bytes
  pure { transcriptSignature }

end Wire

/-! ## Gossip -/

/-- An entry, in `DigestPayload::Encode`. -/
def DigestEntry.encode (e : DigestEntry) : Bytes :=
  ByteWriter.bytes e.key ++ ByteWriter.bytes e.topTsEncoded ++ ByteWriter.bytes e.contentHash

/-- An entry, in `DigestPayload::Decode`. -/
def DigestEntry.read : ByteReader DigestEntry := do
  let key ← bytes
  let topTsEncoded ← bytes
  let contentHash ← bytes
  pure { key, topTsEncoded, contentHash }

/-- `DigestPayload::Encode`. -/
def DigestPayload.encode (d : DigestPayload) : Bytes :=
  ByteWriter.bytes d.collection ++ ByteWriter.counted DigestEntry.encode d.entries

/-- The reads of `DigestPayload::Decode`. -/
def DigestPayload.read : ByteReader DigestPayload := do
  let collection ← bytes
  let entries ← counted DigestEntry.read
  pure { collection, entries }

/-- A document, in the two payloads that carry documents. -/
def DocEntry.encode (d : DocEntry) : Bytes :=
  ByteWriter.bytes d.key ++ ByteWriter.bytes d.encodedDoc

/-- A document, in the decoders of the two payloads. -/
def DocEntry.read : ByteReader DocEntry := do
  let key ← bytes
  let encodedDoc ← bytes
  pure { key, encodedDoc }

/-- `DeltaResponsePayload::Encode`. -/
def DeltaResponsePayload.encode (d : DeltaResponsePayload) : Bytes :=
  ByteWriter.bytes d.collection ++ ByteWriter.counted DocEntry.encode d.pushed ++
    ByteWriter.counted ByteWriter.bytes d.wantedKeys

/-- The reads of `DeltaResponsePayload::Decode`. -/
def DeltaResponsePayload.read : ByteReader DeltaResponsePayload := do
  let collection ← bytes
  let pushed ← counted DocEntry.read
  let wantedKeys ← counted bytes
  pure { collection, pushed, wantedKeys }

/-- `OpBroadcastPayload::Encode`. -/
def OpBroadcastPayload.encode (o : OpBroadcastPayload) : Bytes :=
  ByteWriter.bytes o.collection ++ ByteWriter.counted DocEntry.encode o.docs ++
    ByteWriter.bytes o.messageId ++ ByteWriter.u8 o.ttl

/-- The reads of `OpBroadcastPayload::Decode`.  The hops are asked for inside the branch of the
message id, where that makes no difference: without an id no bytes remain. -/
def OpBroadcastPayload.read : ByteReader OpBroadcastPayload := do
  let collection ← bytes
  let docs ← counted DocEntry.read
  let messageId ← trailing [] bytes
  let ttl ← trailing 1 u8
  pure { collection, docs, messageId, ttl }

/-! ## Transit -/

namespace Wire

/-- `struct TransitQueryPayload`. -/
structure TransitQueryPayload where
  offset : UInt64 := 0
  deriving DecidableEq, Repr

/-- `TransitQueryPayload::Encode`. -/
def TransitQueryPayload.encode (p : TransitQueryPayload) : Bytes := ByteWriter.u64 p.offset

/-- The reads of `TransitQueryPayload::Decode`: an empty query has the offset zero. -/
def TransitQueryPayload.read : ByteReader TransitQueryPayload := do
  let offset ← trailing 0 u64
  pure { offset }

/-- `struct TransitClaimPayload`. -/
structure TransitClaimPayload where
  keyHashes : List Bytes := []
  claimerNode : Bytes
  deriving DecidableEq, Repr

/-- `TransitClaimPayload::Encode`. -/
def TransitClaimPayload.encode (p : TransitClaimPayload) : Bytes :=
  ByteWriter.bytes p.claimerNode ++ ByteWriter.counted ByteWriter.bytes p.keyHashes

/-- The reads of `TransitClaimPayload::Decode`. -/
def TransitClaimPayload.read : ByteReader TransitClaimPayload := do
  let claimerNode ← bytes
  let keyHashes ← counted bytes
  pure { claimerNode, keyHashes }

/-- `struct TransitHeldPayload`. -/
structure TransitHeldPayload where
  messageId : Bytes
  keyHash : Bytes
  holderNode : Bytes
  intentLsn : Int64 := -1
  signature : Bytes
  deriving DecidableEq, Repr

/-- `TransitHeldPayload::Encode`. -/
def TransitHeldPayload.encode (p : TransitHeldPayload) : Bytes :=
  ByteWriter.bytes p.messageId ++ ByteWriter.bytes p.keyHash ++ ByteWriter.bytes p.holderNode ++
    ByteWriter.i64 p.intentLsn ++ ByteWriter.bytes p.signature

/-- The reads of `TransitHeldPayload::Decode`. -/
def TransitHeldPayload.read : ByteReader TransitHeldPayload := do
  let messageId ← bytes
  let keyHash ← bytes
  let holderNode ← bytes
  let intentLsn ← i64
  let signature ← bytes
  pure { messageId, keyHash, holderNode, intentLsn, signature }

end Wire

namespace TransitEntry

/-- An entry of the first version: it ends at the holder. -/
def readV1 : ByteReader TransitEntry := do
  let collection ← bytes
  let key ← bytes
  let keyHash ← bytes
  let encodedDoc ← bytes
  let intentLsn ← i64
  let holderNode ← bytes
  pure { collection, key, keyHash, encodedDoc, intentLsn, holderNode, docSizeBytes := 0
         chunkIndex := 0, chunkTotal := 1, contentHash := [], holderSig := [] }

/-- An entry of the second version up to the chunk fields, as they are on the wire. -/
def readChunk : ByteReader TransitEntry := do
  let e ← readV1
  let docSizeBytes ← u64
  let chunkIndex ← u32
  let chunkTotal ← u32
  pure { e with docSizeBytes, chunkIndex, chunkTotal }

/-- What the decoder makes of the chunk fields. -/
def checkChunk (e : TransitEntry) : Except String TransitEntry :=
  if e.withChunkTotal.chunkIndex ≥ e.withChunkTotal.chunkTotal then
    .error "transit chunk index out of range"
  else .ok e.withChunkTotal

/-- An entry of the second version. -/
def read : ByteReader TransitEntry := do
  let raw ← readChunk
  let e ← StateT.lift raw.checkChunk
  let contentHash ← trailing [] bytes
  let holderSig ← trailing [] bytes
  pure { e with contentHash, holderSig }

end TransitEntry

namespace TransitResponsePayload

/-- The reads of `TransitResponsePayload::Decode`, for the first version. -/
def readV1 : ByteReader TransitResponsePayload := do
  let entries ← counted TransitEntry.readV1
  let truncated ← trailing 0 u8
  pure { entries, truncated := decide (truncated ≠ 0) }

/-- The reads of `TransitResponsePayload::Decode`, for the second version. -/
def readV2 : ByteReader TransitResponsePayload := do
  let _ ← u32
  let entries ← counted TransitEntry.read
  let truncated ← trailing 0 u8
  let nextOffset ← trailing 0 u64
  pure { entries, truncated := decide (truncated ≠ 0), nextOffset }

/-- `TransitResponsePayload::Decode`. -/
def decode (bytes : Bytes) : Except String TransitResponsePayload :=
  decodeWith (if hasMagic bytes kTransitResponseMagicV2 then readV2 else readV1) bytes

end TransitResponsePayload

/-- `MergeReceipt::Encode`. -/
def MergeReceipt.encode (m : MergeReceipt) : Bytes :=
  ByteWriter.bytes m.messageId ++ ByteWriter.bytes m.keyHash ++ ByteWriter.bytes m.applierNode ++
    ByteWriter.i64 m.appliedLsn ++ ByteWriter.bytes m.signature

/-- The reads of `MergeReceipt::Decode`. -/
def MergeReceipt.read : ByteReader MergeReceipt := do
  let messageId ← bytes
  let keyHash ← bytes
  let applierNode ← bytes
  let appliedLsn ← i64
  let signature ← bytes
  pure { messageId, keyHash, applierNode, appliedLsn, signature }

/-! ## The ledger -/

/-- `LedgerDigestPayload::Encode`. -/
def LedgerDigestPayload.encode (p : LedgerDigestPayload) : Bytes :=
  ByteWriter.i64 p.tipEntryId ++ ByteWriter.bytes p.tipEntryHash ++
    ByteWriter.bytes p.tipSignature ++ ByteWriter.i64 p.fromEntryId ++
    ByteWriter.counted ByteWriter.bytes p.entryHashes

/-- The reads of `LedgerDigestPayload::Decode`. -/
def LedgerDigestPayload.read : ByteReader LedgerDigestPayload := do
  let tipEntryId ← i64
  let tipEntryHash ← bytes
  let tipSignature ← bytes
  let fromEntryId ← i64
  let entryHashes ← counted bytes
  pure { tipEntryId, tipEntryHash, tipSignature, fromEntryId, entryHashes }

namespace LedgerEntrySummary

/-- `DecodeLedgerEntryV1`. -/
def readV1 : ByteReader LedgerEntrySummary := do
  let entryId ← i64
  let operation ← u8
  let keyHash ← bytes
  let entryHash ← bytes
  let prevHash ← bytes
  let originNodeId ← bytes
  let originSignature ← bytes
  let hlcPhysicalMs ← i64
  let hlcLogical ← u32
  let collection ← bytes
  let key ← bytes
  pure { entryId, operation := ⟨operation⟩, keyHash, entryHash, prevHash, originNodeId
         originSignature, hlcPhysicalMs, hlcLogical, collection, key, transitHolder := []
         transitSizeBytes := 0, transitChunkIndex := 0, transitChunkTotal := 1 }

/-- An entry of the second version up to the chunk fields, as they are on the wire. -/
def readChunk : ByteReader LedgerEntrySummary := do
  let e ← readV1
  let transitHolder ← bytes
  let transitSizeBytes ← u64
  let transitChunkIndex ← u32
  let transitChunkTotal ← u32
  pure { e with transitHolder, transitSizeBytes, transitChunkIndex, transitChunkTotal }

/-- What the decoder makes of the chunk fields. -/
def checkChunk (e : LedgerEntrySummary) : Except String LedgerEntrySummary :=
  if e.withChunkTotal.transitChunkIndex ≥ e.withChunkTotal.transitChunkTotal then
    .error "ledger delta chunk index out of range"
  else .ok e.withChunkTotal

/-- An entry of the second version. -/
def read : ByteReader LedgerEntrySummary := do
  let raw ← readChunk
  let e ← StateT.lift raw.checkChunk
  let aclJson ← trailing [] bytes
  pure { e with aclJson }

end LedgerEntrySummary

namespace LedgerDeltaPayload

/-- The reads of `LedgerDeltaPayload::Decode`, for the first version. -/
def readV1 : ByteReader LedgerDeltaPayload := do
  let hashesOnly ← u8
  let entries ← counted LedgerEntrySummary.readV1
  pure { entries, hashesOnly := decide (hashesOnly ≠ 0) }

/-- The reads of `LedgerDeltaPayload::Decode`, for the second version. -/
def readV2 : ByteReader LedgerDeltaPayload := do
  let _ ← u32
  let hashesOnly ← u8
  let entries ← counted LedgerEntrySummary.read
  let tipSignature ← trailing [] bytes
  pure { entries, hashesOnly := decide (hashesOnly ≠ 0), tipSignature }

/-- `LedgerDeltaPayload::Decode`. -/
def decode (bytes : Bytes) : Except String LedgerDeltaPayload :=
  decodeWith (if hasMagic bytes kLedgerDeltaMagicV2 then readV2 else readV1) bytes

end LedgerDeltaPayload

/-! ## Liveness and summaries -/

namespace Wire

/-- `struct HeartbeatPayload`. -/
structure HeartbeatPayload where
  nodeId : Bytes
  ledgerTipEntryId : Int64 := -1
  freeQuotaMb : UInt64 := 0
  quotaLimited : Bool := false
  transitBytesHeld : UInt64 := 0
  transitBudgetBytes : UInt64 := 0
  lifecycleState : UInt8 := 3
  isSupervisor : Bool := false
  deriving DecidableEq, Repr

/-- `HeartbeatPayload::Encode`. -/
def HeartbeatPayload.encode (h : HeartbeatPayload) : Bytes :=
  ByteWriter.bytes h.nodeId ++ ByteWriter.i64 h.ledgerTipEntryId ++
    ByteWriter.u64 h.freeQuotaMb ++ ByteWriter.u8 (flag h.quotaLimited) ++
    ByteWriter.u64 h.transitBytesHeld ++ ByteWriter.u64 h.transitBudgetBytes ++
    ByteWriter.u8 h.lifecycleState ++ ByteWriter.u8 (flag h.isSupervisor)

/-- The reads of `HeartbeatPayload::Decode`. -/
def HeartbeatPayload.read : ByteReader HeartbeatPayload := do
  let nodeId ← bytes
  let ledgerTipEntryId ← i64
  let freeQuotaMb ← u64
  let quotaLimited ← trailing 0 u8
  let transitBytesHeld ← trailing 0 u64
  let transitBudgetBytes ← trailing 0 u64
  let lifecycleState ← trailing 3 u8
  let isSupervisor ← trailing 0 u8
  pure { nodeId, ledgerTipEntryId, freeQuotaMb, quotaLimited := decide (quotaLimited ≠ 0)
         transitBytesHeld, transitBudgetBytes, lifecycleState
         isSupervisor := decide (isSupervisor ≠ 0) }

/-- `struct SyncSummaryPayload`: names and checksums. -/
structure SyncSummaryPayload where
  collections : List (Bytes × Bytes) := []
  deriving DecidableEq, Repr

namespace SyncSummaryPayload

/-- A collection, in `SyncSummaryPayload::Encode`. -/
def encodeCollection (c : Bytes × Bytes) : Bytes :=
  ByteWriter.bytes c.1 ++ ByteWriter.bytes c.2

/-- A collection, in `SyncSummaryPayload::Decode`. -/
def readCollection : ByteReader (Bytes × Bytes) := do
  let name ← bytes
  let checksum ← bytes
  pure (name, checksum)

/-- `SyncSummaryPayload::Encode`. -/
def encode (s : SyncSummaryPayload) : Bytes :=
  ByteWriter.counted encodeCollection s.collections

/-- The reads of `SyncSummaryPayload::Decode`.  This decoder refuses what follows. -/
def read : ByteReader SyncSummaryPayload := do
  let count ← u32
  if count > 1024 then throw "sync summary has too many collections"
  let collections ← many readCollection count.toNat
  let n ← remaining
  if n ≠ 0 then throw "sync summary has trailing bytes"
  pure { collections }

end SyncSummaryPayload

end Wire

/-! ## All payloads -/

/-- The payload types. -/
inductive PayloadType where
  | hello
  | confirm
  | digest
  | deltaResponse
  | opBroadcast
  | transitQuery
  | transitResponse
  | transitClaim
  | transitHeld
  | mergeReceipt
  | ledgerDigest
  | ledgerDelta
  | heartbeat
  | syncSummary
  deriving DecidableEq, Repr

namespace PayloadType

/-- The payloads of a type. -/
abbrev Payload : PayloadType → Type
  | hello => Wire.HelloPayload
  | confirm => Wire.ConfirmPayload
  | digest => DigestPayload
  | deltaResponse => DeltaResponsePayload
  | opBroadcast => OpBroadcastPayload
  | transitQuery => Wire.TransitQueryPayload
  | transitResponse => TransitResponsePayload
  | transitClaim => Wire.TransitClaimPayload
  | transitHeld => Wire.TransitHeldPayload
  | mergeReceipt => MergeReceipt
  | ledgerDigest => LedgerDigestPayload
  | ledgerDelta => LedgerDeltaPayload
  | heartbeat => Wire.HeartbeatPayload
  | syncSummary => Wire.SyncSummaryPayload

/-- `Encode`. -/
def encode : (t : PayloadType) → t.Payload → Bytes
  | hello => Wire.HelloPayload.encode
  | confirm => Wire.ConfirmPayload.encode
  | digest => DigestPayload.encode
  | deltaResponse => DeltaResponsePayload.encode
  | opBroadcast => OpBroadcastPayload.encode
  | transitQuery => Wire.TransitQueryPayload.encode
  | transitResponse => TransitResponsePayload.encode
  | transitClaim => Wire.TransitClaimPayload.encode
  | transitHeld => Wire.TransitHeldPayload.encode
  | mergeReceipt => MergeReceipt.encode
  | ledgerDigest => LedgerDigestPayload.encode
  | ledgerDelta => LedgerDeltaPayload.encode
  | heartbeat => Wire.HeartbeatPayload.encode
  | syncSummary => Wire.SyncSummaryPayload.encode

/-- `Decode`. -/
def decode : (t : PayloadType) → Bytes → Except String t.Payload
  | hello => Wire.HelloPayload.decode
  | confirm => decodeWith Wire.ConfirmPayload.read
  | digest => decodeWith DigestPayload.read
  | deltaResponse => decodeWith DeltaResponsePayload.read
  | opBroadcast => decodeWith OpBroadcastPayload.read
  | transitQuery => decodeWith Wire.TransitQueryPayload.read
  | transitResponse => TransitResponsePayload.decode
  | transitClaim => decodeWith Wire.TransitClaimPayload.read
  | transitHeld => decodeWith Wire.TransitHeldPayload.read
  | mergeReceipt => decodeWith MergeReceipt.read
  | ledgerDigest => decodeWith LedgerDigestPayload.read
  | ledgerDelta => LedgerDeltaPayload.decode
  | heartbeat => decodeWith Wire.HeartbeatPayload.read
  | syncSummary => decodeWith Wire.SyncSummaryPayload.read

end PayloadType

end DeSentry
