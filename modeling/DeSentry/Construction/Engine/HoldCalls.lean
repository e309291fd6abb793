import DeSentry.Construction.Engine.NodeEngine

/-!
# Concurrent `HoldForOfflineOwner` calls

`HoldForOfflineOwner` asks the transit store once how many bytes it holds, compares the answer with
the budget, and then stores its chunks one by one.  The store locks each of these calls and nothing
locks them together, so other holds and merges run in between.  `HoldProcess` is a node with the
holds that have passed the check and the clock that envelopes expire by.
-/

namespace DeSentry

open ByteCodec

namespace NodeEngine

variable (e : NodeEngine)

/-- The bytes a hold adds, as it counts them. -/
def newBytes (doc : Bytes) (indexes : List UInt32) : UInt64 :=
  indexes.foldl (fun total i => total + UInt64.ofNat
    (chunkBytes (transitChunkUnit e.transitChunkBytes) doc i).length) 0

/-- `HoldForOfflineOwner` up to its loop: the number of chunks, and those to hold. -/
def admitHold (nowMs : Int64) (owner doc : Bytes) (onlyChunks : Option (List UInt32)) :
    Except Status (UInt32 × List UInt32) :=
  if owner = [] ∨ owner = e.nodeId then
    .error ⟨.invalidArgument, text "transit: an owner must be another node"⟩
  else
    let chunkTotal := transitChunkCount doc.length e.transitChunkBytes
    let indexes := onlyChunks.getD ((List.range chunkTotal.toNat).map UInt32.ofNat)
    if indexes.any fun i => decide (i ≥ chunkTotal) then
      .error ⟨.invalidArgument, text "transit: chunk index out of range"⟩
    else
      let held := e.transit.bytesHeld nowMs
      if e.transitBudgetBytes > 0 ∧ held + e.newBytes doc indexes > e.transitBudgetBytes then
        .error ⟨.outOfSpace, text "transit: holder budget exhausted (" ++ decimal held.toNat ++
          text " held, " ++ decimal (e.newBytes doc indexes).toNat ++ text " requested)"⟩
      else .ok (chunkTotal, indexes)

/-- A hold is its check and its loop. -/
lemma holdForOfflineOwner_eq (c : Crypto) (env : UInt32 → ChunkEnv) (nowMs : Int64)
    (owner collection key doc : Bytes) (onlyChunks : Option (List UInt32)) (messageId : Bytes) :
    e.holdForOfflineOwner c env nowMs owner collection key doc onlyChunks messageId =
      match e.admitHold nowMs owner doc onlyChunks with
      | .error st => (.error st, e)
      | .ok (chunkTotal, indexes) =>
        holdChunks c env owner collection key doc messageId chunkTotal e indexes := by
  unfold holdForOfflineOwner admitHold newBytes
  dsimp only
  split_ifs <;> rfl

end NodeEngine

/-- A hold that has passed its check. -/
structure HoldCall where
  owner : Bytes
  collection : Bytes
  key : Bytes
  doc : Bytes
  messageId : Bytes
  chunkTotal : UInt32
  /-- The chunks that are still to be stored. -/
  rest : List UInt32
  deriving DecidableEq, Repr

/-- A node and its holds in progress. -/
structure HoldProcess where
  engine : NodeEngine
  nowMs : Int64 := 0
  calls : List HoldCall := []

/-- What can happen. -/
inductive HoldEvent where
  | hold (owner collection key doc : Bytes) (onlyChunks : Option (List UInt32)) (messageId : Bytes)
  /-- The `i`-th hold in progress stores its next chunk, or returns. -/
  | chunk (i : ℕ) (env : NodeEngine.ChunkEnv)
  | merge (env : NodeEngine.WriteEnv) (appended : Except Status Unit) (collection key doc : Bytes)
      (who : Requestor)
  | tick (nowMs : Int64)

namespace HoldProcess

variable (p : HoldProcess)

/-- A hold goes on. -/
def advance (c : Crypto) (i : ℕ) (env : NodeEngine.ChunkEnv) : HoldProcess :=
  match p.calls[i]? with
  | none => p
  | some call =>
    match call.rest with
    | [] => { p with calls := p.calls.eraseIdx i }
    | j :: rest =>
      match p.engine.holdChunk c { env with nowMs := p.nowMs } call.owner call.collection call.key
          call.doc call.messageId call.chunkTotal j with
      | (.error _, engine) => { p with engine, calls := p.calls.eraseIdx i }
      | (.ok (), engine) => { p with engine, calls := p.calls.set i { call with rest } }

/-- One event. -/
def step (c : Crypto) (p : HoldProcess) : HoldEvent → HoldProcess × Unit
  | .hold owner collection key doc onlyChunks messageId =>
    match p.engine.admitHold p.nowMs owner doc onlyChunks with
    | .error _ => (p, ())
    | .ok (chunkTotal, indexes) =>
      ({ p with
        calls := p.calls ++ [⟨owner, collection, key, doc, messageId, chunkTotal, indexes⟩] }, ())
  | .chunk i env => (p.advance c i env, ())
  | .merge env appended collection key doc who =>
    ({ p with engine := (p.engine.mergeRemote c env appended collection key doc who).2 }, ())
  | .tick nowMs => ({ p with nowMs }, ())

end HoldProcess

end DeSentry
