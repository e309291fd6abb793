import DeSentry.Construction.Engine.NodeEngine

/-!
# Replaying the outbox (`engine/node_engine.cpp`)

`FlushOutbox` drains the outbox and writes each staged document again, as a write of this node: the
JSON of the staged version goes through `PutDocument`, which compares it with what is stored now and
stamps the difference.
-/

namespace DeSentry

open ByteCodec

namespace NodeEngine

variable (e : NodeEngine)

/-- What happens around the replay of an entry. -/
structure ReplayEnv where
  write : WriteEnv
  /-- What the log answers if the entry is put back. -/
  restaged : Except Status Unit := .ok ()
  restagedMs : Int64 := 0

/-- The loop body of `FlushOutbox`, with whether the entry was replayed.  An entry that is refused
goes back to the outbox; a document that does not decode throws, and the caller does not catch. -/
def replayEntry (c : Crypto) (env : ReplayEnv) (entry : OutboxEntry) :
    Except Failure Bool × NodeEngine :=
  match CrdtValue.decode entry.encodedDoc with
  | .error _ => (.error .thrown, e)
  | .ok staged =>
    match e.putDocument c env.write entry.collection entry.key staged.toJson ⟨e.nodeId, true⟩ with
    | (.ok (), e) => (.ok true, e)
    | (.error .thrown, e) => (.error .thrown, e)
    | (.error (.status _), e) =>
      (.ok false, { e with outbox := (e.outbox.put env.restaged env.restagedMs entry).2 })

/-- The loop of `FlushOutbox`; `replayed` counts. -/
def replayEntries (c : Crypto) : (ℕ → ReplayEnv) → NodeEngine → ℕ → List OutboxEntry →
    Except Failure ℕ × NodeEngine
  | _, e, replayed, [] => (.ok replayed, e)
  | env, e, replayed, entry :: entries =>
    match e.replayEntry c (env 0) entry with
    | (.error failure, e) => (.error failure, e)
    | (.ok done, e) =>
      replayEntries c (fun n => env (n + 1)) e (if done then replayed + 1 else replayed) entries

/-- `FlushOutbox`. -/
def flushOutbox (c : Crypto) (order : MapOrder OutboxEntry) (env : ℕ → ReplayEnv) :
    Except Failure ℕ × NodeEngine :=
  let (entries, outbox) := e.outbox.drainAll order
  replayEntries c env { e with outbox } 0 entries

end NodeEngine

end DeSentry
