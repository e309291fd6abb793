import DeSentry.Construction.Common.JsonText
import DeSentry.Construction.Engine.NodeEngine

/-!
# Replicated access lists (`engine/node_engine.cpp`)

An access list travels in an envelope: the list, its version and a signature of both.  The signed
text is the name of the collection and a serialization of the list with a fixed order of fields and
readers.  `SetCollectionAcl` enters a list of this node and puts its envelope into the ledger;
`ApplyRemoteAcl` takes the envelope of a peer's ledger entry.

The parser of the envelope is the caller's (`JsonValue::Parse` answers with a value or throws), and
the keys are a parameter: the node's own one, the resolver for other nodes, the derivation of a
node id from a key, and the verification of a signature.
-/

namespace DeSentry

open ByteCodec KeyedList

/-- `CanonicalAclJson`. -/
def canonicalAclJson (showDouble : Double → Bytes) (acl : CollectionAcl) (updatedMs : UInt64) :
    Bytes :=
  JsonValue.dump showDouble (.object
    [(text "owner_node", .scalar (.str acl.ownerNode)),
      (text "private", .scalar (.bool acl.isPrivate)),
      (text "readers", .array ((sortBy id acl.readers).map fun r => .scalar (.str r))),
      (text "parent", .scalar (.str acl.parent)),
      (text "updated_ms", .scalar (.int updatedMs.toInt64))])

/-- `AclAttestMessage`. -/
def aclAttestMessage (collection canonicalAcl : Bytes) : Bytes :=
  text "DSN-ACL-v1" ++ collection ++ [0] ++ canonicalAcl

/-- The keys of the nodes. -/
structure KeyRing where
  /-- `identity_->public_key()`. -/
  publicKey : Bytes
  /-- `resolve_public_key_`; empty for a node it does not know. -/
  resolve : Option (Bytes → Bytes)
  /-- `NodeIdentity::DeriveNodeId`. -/
  deriveNodeId : Bytes → Bytes
  /-- `NodeIdentity::Verify`. -/
  verify : Bytes → Bytes → Bytes → Bool
  showDouble : Double → Bytes := fun _ => []

/-- What happens around an `ApplyRemoteAcl`. -/
structure AclEnv where
  /-- `NowMs`. -/
  wall : UInt64
  ensured : Except Status Unit := .ok ()
  saved : Except Status Unit := .ok ()

/-- What an envelope holds. -/
structure AclEnvelope where
  acl : CollectionAcl
  updatedMs : UInt64
  sig : Bytes
  deriving DecidableEq, Repr

namespace AclEnvelope

/-- The answer for an envelope without the three fields. -/
def malformed : Status := ⟨.corruption, text "malformed kAcl envelope"⟩

/-- The reading part of `ApplyRemoteAcl`. -/
def read (parsed : Except Bytes JsonValue) : Except Status AclEnvelope :=
  match parsed with
  | .error what => .error ⟨.corruption, text "malformed kAcl envelope: " ++ what⟩
  | .ok envelope =>
    if !envelope.isObject then .error malformed
    else
      match envelope.find (text "acl"), (envelope.find (text "updated_ms")).bind
          JsonValue.asNumber, (envelope.find (text "sig")).bind JsonValue.asString with
      | some aclValue, some ms, some sig =>
        if !aclValue.isObject then .error malformed
        else .ok ⟨CollectionAcl.decode aclValue, ms.toUInt64, sig⟩
      | _, _, _ => .error malformed

end AclEnvelope

namespace NodeEngine

variable (e : NodeEngine) (keys : KeyRing)

/-- The key of the origin, or why there is none. -/
def signerKey (originNodeId : Bytes) : Except Status Bytes :=
  if originNodeId = e.nodeId then .ok keys.publicKey
  else
    match keys.resolve with
    | none => .error ⟨.authError, text "no key resolver; cannot verify kAcl"⟩
    | some resolve => .ok (resolve originNodeId)

/-- The `check_sig` part of `ApplyRemoteAcl`. -/
def checkAttestation (wall : UInt64) (originNodeId collection : Bytes) (envelope : AclEnvelope) :
    Except Status Unit :=
  if envelope.acl.ownerNode = [] ∨ envelope.acl.ownerNode ≠ originNodeId then
    .error ⟨.authError, text "kAcl origin is not the claimed owner; rejected"⟩
  else if envelope.updatedMs > wall + HybridLogicalClock.kMaxFutureSkewMs then
    .error ⟨.invalidArgument, text "kAcl version too far in the future; rejected"⟩
  else
    match e.signerKey keys originNodeId with
    | .error st => .error st
    | .ok publicKey =>
      if publicKey = [] ∨ keys.deriveNodeId publicKey ≠ originNodeId then
        .error ⟨.authError, text "kAcl signer key unknown or mismatched; rejected"⟩
      else if !keys.verify publicKey (aclAttestMessage collection
          (canonicalAclJson keys.showDouble envelope.acl envelope.updatedMs)) envelope.sig then
        .error ⟨.authError, text "kAcl attestation does not verify; rejected"⟩
      else .ok ()

/-- The end of `ApplyRemoteAcl`: the list is entered; a stale one is no error. -/
def enterAcl (env : AclEnv) (collection : Bytes) (envelope : AclEnvelope) :
    Except Status Unit × NodeEngine :=
  match e.storage.ensureCollection env.ensured collection with
  | (.error st, storage) => (.error st, { e with storage })
  | (.ok (), storage) =>
    let (answer, catalog) :=
      storage.catalog.setAclAt env.saved collection envelope.acl envelope.updatedMs
    let e := { e with storage := { storage with catalog } }
    match answer with
    | .ok () => (.ok (), e)
    | .error st => (if st.code = .invalidArgument then .ok () else .error st, e)

/-- What happens around a `SetCollectionAcl`. -/
structure SetAclEnv where
  ensured : Except Status Unit := .ok ()
  /-- `NowMs`. -/
  nowMs : UInt64
  saved : Except Status Unit := .ok ()
  /-- `JsonValue::Parse`, on the canonical text. -/
  parse : Bytes → Except Bytes JsonValue
  wall : UInt64
  append : AppendEnv := {}
  clockCommitted : Bool := true
  showDouble : Double → Bytes := fun _ => []

/-- The envelope of a list. -/
def aclEnvelope (collection canonical : Bytes) (updatedMs : UInt64) (acl : JsonValue) : JsonValue :=
  .object [(text "acl", acl), (text "updated_ms", .scalar (.int updatedMs.toInt64)),
    (text "sig", .scalar (.str (e.sign (aclAttestMessage collection canonical))))]

/-- `SetCollectionAcl` behind the catalog: the envelope goes to the ledger. -/
def recordAcl (c : Crypto) (env : SetAclEnv) (collection : Bytes) (acl : CollectionAcl) :
    Except Failure Unit × NodeEngine :=
  let canonical := canonicalAclJson env.showDouble acl env.nowMs
  match env.parse canonical with
  | .error _ => (.error .thrown, e)
  | .ok parsed =>
    let envelope := e.aclEnvelope collection canonical env.nowMs parsed
    let (e, ts) := e.now env.wall
    let (lsn, storage) := e.storage.appendLedgerOp c env.append .kAcl collection []
      (envelope.dump env.showDouble) ts {}
    let e := { e with storage }
    match lsn with
    | .error st => (.error (.status st), e)
    | .ok _ => (.ok (), e.persistClockIfDue env.clockCommitted)

/-- `SetCollectionAcl`. -/
def setCollectionAcl (c : Crypto) (env : SetAclEnv) (collection : Bytes) (acl : CollectionAcl) :
    Except Failure Unit × NodeEngine :=
  match e.storage.ensureCollection env.ensured collection with
  | (.error st, storage) => (.error (.status st), { e with storage })
  | (.ok (), storage) =>
    let (answer, catalog) := storage.catalog.setAclAt env.saved collection acl env.nowMs
    let e := { e with storage := { storage with catalog } }
    match answer with
    | .error st => (.error (.status st), e)
    | .ok () => e.recordAcl c env collection acl

/-- `ApplyRemoteAcl`. -/
def applyRemoteAcl (env : AclEnv) (originNodeId collection : Bytes)
    (envelopeJson : Except Bytes JsonValue) (checkSig : Bool) : Except Status Unit × NodeEngine :=
  match AclEnvelope.read envelopeJson with
  | .error st => (.error st, e)
  | .ok envelope =>
    match if checkSig then e.checkAttestation keys env.wall originNodeId collection envelope
        else .ok () with
    | .error st => (.error st, e)
    | .ok () => e.enterAcl env collection envelope

end NodeEngine

end DeSentry
