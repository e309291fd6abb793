import DeSentry.Construction.Engine.NodeEngine
import DeSentry.Construction.Storage.Quota

/-!
# Document calls under quotas (`engine/node_engine.cpp`, `storage/engines/engine_common.cpp`)

A write is checked against two quotas.  `PutRaw` projects the use of the whole node, and the backend
charges the growth of the row to its own budget.  Only `BaseBackend::MergeRemote` opens a
`MergeScope`, in which a charge may overdraw the budget.  `NodeEngine::MergeRemote` does not call it:
it merges by itself and goes through `PutRaw` like every other write.

A backend charges first and may fail for other reasons then, which the environment decides.
-/

namespace DeSentry

open ByteCodec

/-- The text of a refusal for quota, of the node or of a backend. -/
def Status.isQuotaRefusal (st : Status) : Bool :=
  decide (st.code = .outOfSpace) && ((text "node quota exceeded: ").isPrefixOf st.message ||
    (text "quota exceeded: ").isPrefixOf st.message)

/-- A failure of a backend that has nothing to do with its quota. -/
abbrev BackendFailure := { st : Status // st.isQuotaRefusal = false }

/-- A node, with the quota fields of its backends by engine name. -/
structure QuotaNode where
  engine : NodeEngine
  quotas : List (Bytes × BackendQuota) := []

/-- What happens around a call: a write, and how the backend fails behind its charge. -/
structure QuotaEnv where
  write : NodeEngine.WriteEnv
  failure : Option BackendFailure := none

/-- A call that writes a document. -/
inductive QuotaCall where
  | putDocument (env : QuotaEnv) (collection key : Bytes) (newJson : JsonValue) (who : Requestor)
  | deleteDocument (env : QuotaEnv) (collection key : Bytes) (who : Requestor)
  | mergeRemote (env : QuotaEnv) (appended : Except Status Unit) (collection key remoteDoc : Bytes)
      (who : Requestor)

namespace QuotaCall

def env : QuotaCall → QuotaEnv
  | .putDocument env _ _ _ _ => env
  | .deleteDocument env _ _ _ => env
  | .mergeRemote env _ _ _ _ _ => env

def collection : QuotaCall → Bytes
  | .putDocument _ collection _ _ _ => collection
  | .deleteDocument _ collection _ _ => collection
  | .mergeRemote _ _ collection _ _ _ => collection

def key : QuotaCall → Bytes
  | .putDocument _ _ key _ _ => key
  | .deleteDocument _ _ key _ => key
  | .mergeRemote _ _ _ key _ _ => key

end QuotaCall

namespace QuotaNode

variable (n : QuotaNode)

/-- `StorageRouter::QuotaUse`. -/
def routerUse : UInt64 := n.quotas.foldl (fun total q => total + q.2.bytesUsed) 0

/-- The `old_cost` of the `Put` of a backend. -/
def oldCost (collection key : Bytes) : UInt64 :=
  match n.engine.storage.getRaw collection key with
  | .ok doc => BackendQuota.recordCost key doc
  | .error _ => 0

/-- The quota of the backend of a collection. -/
def quotaFor (collection : Bytes) : Option BackendQuota :=
  AssocMap.get n.quotas
    (n.engine.storage.router.engineNameFor n.engine.storage.catalog collection)

/-- What the charge of a row answers. -/
def charged (inMergeScope : Bool) (collection key doc : Bytes) : Except Status Unit :=
  match n.quotaFor collection with
  | none => .ok ()
  | some q => (q.charge inMergeScope (n.oldCost collection key) (BackendQuota.recordCost key doc)).1

/-- How the backend refuses a row, outside of a `MergeScope`. -/
def refusal (failure : Option BackendFailure) (collection key doc : Bytes) : Option Status :=
  match n.charged false collection key doc with
  | .error st => some st
  | .ok () => failure.map Subtype.val

/-- What happens around a write of a document. -/
def writeEnv (env : QuotaEnv) (collection key doc : Bytes) : NodeEngine.WriteEnv :=
  { env.write with
    put := { env.write.put with
      routerUse := n.routerUse
      refusal := n.refusal env.failure collection key doc } }

/-- The document that a `PutDocument` hands to `PutRaw`, if it comes so far. -/
def updated (env : QuotaEnv) (collection key : Bytes) (newJson : JsonValue) (who : Requestor) :
    Option Bytes :=
  if collection = kTransitCollection ∨ n.engine.canWrite collection who = false then none
  else
    match n.engine.currentDocument collection key with
    | .error _ => none
    | .ok previous => some (NodeEngine.updatedDocument previous newJson
        (n.engine.now env.write.wall).2 n.engine.tagCounter).1.encode

/-- The document that a `MergeRemote` hands to `PutRaw`, if it comes so far. -/
def merged (env : QuotaEnv) (collection key remoteDoc : Bytes) (who : Requestor) : Option Bytes :=
  if collection = kTransitCollection ∨ n.engine.canWrite collection who = false then none
  else
    match CrdtValue.decode remoteDoc with
    | .error _ => none
    | .ok remote =>
      if (n.engine.clock.observe env.write.wall remote.maxTimestamp).2 = false then none
      else
        match n.engine.currentDocument collection key with
        | .error _ => none
        | .ok previous => some (previous.elim remote (CrdtValue.merge · remote)).encode

/-- The document that a call hands to `PutRaw`. -/
def document : QuotaCall → Option Bytes
  | .putDocument env collection key newJson who => n.updated env collection key newJson who
  | .deleteDocument env collection key who => n.updated env collection key (.object []) who
  | .mergeRemote env _ collection key remoteDoc who => n.merged env collection key remoteDoc who

/-- What a call answers. -/
def answer (c : Crypto) (call : QuotaCall) : Except Failure Unit :=
  let env := n.writeEnv call.env call.collection call.key ((n.document call).getD [])
  match call with
  | .putDocument _ collection key newJson who =>
    (n.engine.putDocument c env collection key newJson who).1
  | .deleteDocument _ collection key who => (n.engine.deleteDocument c env collection key who).1
  | .mergeRemote _ appended collection key remoteDoc who =>
    (n.engine.mergeRemote c env appended collection key remoteDoc who).1

end QuotaNode

end DeSentry
