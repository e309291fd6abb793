import DeSentry.Construction.Engine.Digest

/-!
# Concurrent calls of the engine

The application threads, the connection threads and the gossip thread call one `NodeEngine`, and
nothing holds a lock over a whole call.  The clock, the storage engine and the digest cache each
have a mutex of their own, so a call is a sequence of critical sections, and between two of them any
other call may run.  This file cuts `PutDocument`, `MergeRemote` and `LocalDigest` at these places.

A call in progress is its `Stage`: the local variables it carries into its next section.
`EngineProcess` is the engine with all its calls, and one event lets one of them make its next
step.  The sections behind the write (the outbox, the digest cache, the clock file) are one step;
of these only the digest cache is read by another call.  A call draws its stamp and all its tags in
one step.
-/

namespace DeSentry

open ByteCodec

/-- A call of the engine. -/
inductive EngineCall where
  | putDocument (collection key : Bytes) (newJson : JsonValue) (who : Requestor)
  | mergeRemote (collection key remoteDoc : Bytes) (who : Requestor)
  | localDigest (collection : Bytes)

/-- Where the new version of a document comes from. -/
inductive Origin where
  | update (newJson : JsonValue) (ts : HLCTimestamp)
  | remote (remote : CrdtValue)

/-- The local variables of a call that is going to write a row, or has written it. -/
structure RowWrite where
  collection : Bytes
  key : Bytes
  /-- The document the call has read, if there was one. -/
  previous : Option CrdtValue
  origin : Origin
  /-- The `updated` of `PutDocument`, the `merged` of `MergeRemote`. -/
  doc : CrdtValue

/-- How far a call has come. -/
inductive Stage where
  | called
  /-- `PutDocument` has read the document. -/
  | read (previous : Option CrdtValue)
  /-- `MergeRemote` has shown the remote stamp to the clock. -/
  | observed (remote : CrdtValue)
  /-- `PutRaw` is next. -/
  | writing (w : RowWrite)
  /-- `PutRaw` has succeeded; `NoteDigest` is next. -/
  | written (w : RowWrite)
  /-- The call has returned OK after a write. -/
  | done (w : RowWrite)
  /-- The call has returned without a write. -/
  | returned (answer : Except Failure Unit)
  /-- `LocalDigest` has scanned the rows. -/
  | scanned (rows : List (Bytes × Bytes))
  /-- `LocalDigest` has returned. -/
  | digested (entries : List DigestEntryOut)

/-- The answer of a write call that has returned. -/
def Stage.answer : Stage → Option (Except Failure Unit)
  | .done _ => some (.ok ())
  | .returned answer => some answer
  | _ => none

namespace NodeEngine

variable (e : NodeEngine)

/-! ## The sections of a call -/

/-- `PutDocument` up to the read. -/
def beginPut (collection key : Bytes) (who : Requestor) : Stage :=
  if collection = kTransitCollection then
    .returned (.error (.status ⟨.invalidArgument, text "'" ++ kTransitCollection ++
      text "' is engine-internal and cannot be written directly"⟩))
  else if !e.canWrite collection who then
    .returned (.error (.status (mayNotWrite collection who)))
  else
    match e.currentDocument collection key with
    | .error failure => .returned (.error failure)
    | .ok previous => .read previous

variable (wall : UInt64)

/-- `PutDocument` from the stamp to the write. -/
def stampPut (collection key : Bytes) (newJson : JsonValue) (previous : Option CrdtValue) :
    Stage × NodeEngine :=
  let (e, ts) := e.now wall
  let (doc, tagCounter) := updatedDocument previous newJson ts e.tagCounter
  (.writing ⟨collection, key, previous, .update newJson ts, doc⟩, { e with tagCounter })

/-- The clock in `MergeRemote`. -/
def observeRemote (remote : CrdtValue) : Stage × NodeEngine :=
  let seen := e.clock.observe wall remote.maxTimestamp
  if !seen.2 then
    (.returned (.error (.status ⟨.invalidArgument,
      text "remote timestamp too far in the future; rejected"⟩)), { e with clock := seen.1 })
  else (.observed remote, { e with clock := seen.1 })

/-- `MergeRemote` up to the read. -/
def beginMerge (appended : Except Status Unit) (collection remoteDoc : Bytes) (who : Requestor) :
    Stage × NodeEngine :=
  if collection = kTransitCollection then
    if who.isLocal then
      (.returned (.error (.status
        ⟨.invalidArgument, text "transit envelopes are not locally writable"⟩)), e)
    else
      match TransitEnvelope.decode remoteDoc with
      | .error st => (.returned (.error (.status st)), e)
      | .ok envelope =>
        let (answer, transit) := e.transit.mergeRemoteEnvelope appended envelope
        (.returned (answer.mapError .status), { e with transit })
  else if !e.canWrite collection who then
    (.returned (.error (.status (mayNotWrite collection who))), e)
  else
    match CrdtValue.decode remoteDoc with
    | .error what =>
      (.returned (.error (.status
        ⟨.corruption, text "undecodable remote document: " ++ text what⟩)), e)
    | .ok remote => e.observeRemote wall remote

/-- The read of `MergeRemote`, and the merge. -/
def mergeCurrent (collection key : Bytes) (remote : CrdtValue) : Stage :=
  match e.currentDocument collection key with
  | .error failure => .returned (.error failure)
  | .ok previous =>
    .writing ⟨collection, key, previous, .remote remote,
      previous.elim remote (CrdtValue.merge · remote)⟩

variable (c : Crypto)

/-- The `PutRaw` of a call. -/
def writeCall (put : PutEnv) (w : RowWrite) : Stage × NodeEngine :=
  let (answer, storage) := e.storage.putRaw c put w.collection w.key w.doc.encode
  match answer with
  | .error st => (.returned (.error (.status st)), { e with storage })
  | .ok () => (.written w, { e with storage })

/-- The sections of a call behind the write. -/
def finishCall (env : WriteEnv) (w : RowWrite) : NodeEngine :=
  let e := match w.origin with
    | .update _ ts => e.stage c env w.collection w.key w.doc.encode ts
    | .remote _ => e
  (e.noteDigest c w.collection w.key w.doc.encode).persistClockIfDue env.clockCommitted

/-- The next step of a call; one that has returned makes none. -/
def advance (env : WriteEnv) (appended : Except Status Unit) :
    EngineCall → Stage → Stage × NodeEngine
  | .putDocument collection key _ who, .called => (e.beginPut collection key who, e)
  | .putDocument collection key newJson _, .read previous =>
    e.stampPut env.wall collection key newJson previous
  | .mergeRemote collection _ remoteDoc who, .called =>
    e.beginMerge env.wall appended collection remoteDoc who
  | .mergeRemote collection key _ _, .observed remote => (e.mergeCurrent collection key remote, e)
  | .localDigest collection, .called => (.scanned (e.storage.scan collection), e)
  | .localDigest collection, .scanned rows =>
    let (entries, digestCache) := fillDigest c collection e.digestCache rows
    (.digested entries, { e with digestCache })
  | _, .writing w => e.writeCall c env.put w
  | _, .written w => (.done w, e.finishCall c env w)
  | _, stage => (stage, e)

end NodeEngine

/-! ## The process -/

/-- The engine and the calls that were made of it. -/
structure EngineProcess where
  engine : NodeEngine
  calls : List (EngineCall × Stage) := []

namespace EngineProcess

/-- What can happen next. -/
inductive Event where
  | call (request : EngineCall)
  /-- The call of this number makes its next step. -/
  | advance (i : ℕ) (env : NodeEngine.WriteEnv) (appended : Except Status Unit)

/-- One event, and the stage a call has reached with it. -/
def step (c : Crypto) (p : EngineProcess) : Event → EngineProcess × Option Stage
  | .call request => ({ p with calls := p.calls ++ [(request, .called)] }, none)
  | .advance i env appended =>
    match p.calls[i]? with
    | none => (p, none)
    | some (request, stage) =>
      let (stage, engine) := p.engine.advance c env appended request stage
      ({ engine, calls := p.calls.set i (request, stage) }, some stage)

end EngineProcess

end DeSentry
