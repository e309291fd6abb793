import DeSentry.Construction.Storage.Wal

/-!
# The messages of the data path (`net/wire_protocol.h`)

The payloads as the handlers build and read them.  How they are laid out on the wire is not part
of this file: a payload that does not decode never reaches a handler.
-/

namespace DeSentry

open ByteCodec

/-! ## Frames -/

/-- The `kMaxMessageBytes` of the transport. -/
def kMaxMessageBytes : ℕ := 4 * 1024 * 1024

/-- `kAesGcmTagLen`. -/
def kAesGcmTagLen : ℕ := 16

/-- The size of the frame of a message with the given payload: type and payload, sealed. -/
def frameBytes (payload : Bytes) : ℕ := 1 + payload.length + kAesGcmTagLen

/-! ## Payloads -/

/-- `struct DigestEntry`. -/
structure DigestEntry where
  key : Bytes
  topTsEncoded : Bytes
  contentHash : Bytes
  deriving DecidableEq, Repr

/-- `struct DigestPayload`. -/
structure DigestPayload where
  collection : Bytes
  entries : List DigestEntry := []
  deriving DecidableEq, Repr

/-- `struct DocEntry`. -/
structure DocEntry where
  key : Bytes
  encodedDoc : Bytes
  deriving DecidableEq, Repr

/-- `struct DeltaResponsePayload`. -/
structure DeltaResponsePayload where
  collection : Bytes
  /-- Documents the responder thinks the requester needs. -/
  pushed : List DocEntry := []
  /-- Keys the responder wants in return. -/
  wantedKeys : List Bytes := []
  deriving DecidableEq, Repr

/-- `struct OpBroadcastPayload`. -/
structure OpBroadcastPayload where
  collection : Bytes
  docs : List DocEntry := []
  messageId : Bytes := []
  /-- Hops remaining. -/
  ttl : UInt8 := 1
  deriving DecidableEq, Repr

/-- `struct TransitEntry`. -/
structure TransitEntry where
  collection : Bytes
  key : Bytes
  keyHash : Bytes
  encodedDoc : Bytes
  intentLsn : Int64
  holderNode : Bytes
  docSizeBytes : UInt64
  chunkIndex : UInt32
  chunkTotal : UInt32
  contentHash : Bytes
  holderSig : Bytes
  deriving DecidableEq, Repr

/-- `struct TransitResponsePayload`. -/
structure TransitResponsePayload where
  entries : List TransitEntry := []
  truncated : Bool := false
  nextOffset : UInt64 := 0
  deriving DecidableEq, Repr

/-- `struct MergeReceipt`. -/
structure MergeReceipt where
  messageId : Bytes
  keyHash : Bytes
  applierNode : Bytes
  appliedLsn : Int64
  signature : Bytes
  deriving DecidableEq, Repr

/-- `struct LedgerDigestPayload`.  The responder reads the first two fields. -/
structure LedgerDigestPayload where
  tipEntryId : Int64 := kInvalidLsn
  tipEntryHash : Bytes := []
  tipSignature : Bytes := []
  fromEntryId : Int64 := 0
  entryHashes : List Bytes := []
  deriving DecidableEq, Repr

/-- `struct LedgerEntrySummary`. -/
structure LedgerEntrySummary where
  entryId : Int64
  operation : WalRecordType
  keyHash : Bytes
  entryHash : Bytes
  prevHash : Bytes
  originNodeId : Bytes
  originSignature : Bytes
  hlcPhysicalMs : Int64
  hlcLogical : UInt32
  /-- Present for authorised readers only. -/
  collection : Bytes := []
  key : Bytes := []
  transitHolder : Bytes
  transitSizeBytes : UInt64
  transitChunkIndex : UInt32
  transitChunkTotal : UInt32
  aclJson : Bytes := []
  deriving DecidableEq, Repr

/-- `struct LedgerDeltaPayload`. -/
structure LedgerDeltaPayload where
  entries : List LedgerEntrySummary := []
  hashesOnly : Bool := false
  tipSignature : Bytes := []
  deriving DecidableEq, Repr

/-- `struct WireMessage`: a type and its payload, for the messages of this model. -/
inductive WireMessage where
  | digest (p : DigestPayload)
  | deltaResponse (p : DeltaResponsePayload)
  | opBroadcast (p : OpBroadcastPayload)
  | transitResponse (p : TransitResponsePayload)
  | ledgerDelta (p : LedgerDeltaPayload)
  | pong (receipt : Option MergeReceipt)
  | error (what : Bytes)
  deriving DecidableEq, Repr

end DeSentry
