import DeSentry.Construction.Storage.StorageEngine

/-!
# Concurrent `PutRaw` calls

`PutRaw` has no lock of its own.  The ledger locks an append and the backend locks a `Put`, so a
call takes two steps, and other calls run between them: the checks with the append, and the `Put`
with what follows it.  `PutProcess` is an engine with the calls that are between their steps.
-/

namespace DeSentry

open ByteCodec List

/-- A `PutRaw` that has appended its record. -/
structure PendingPut where
  collection : Bytes
  key : Bytes
  doc : Bytes
  lsn : Int64
  deriving DecidableEq, Repr

/-- An engine and the calls in progress. -/
structure PutProcess where
  engine : StorageEngine
  pending : List PendingPut := []

/-- The two steps of a call. -/
inductive PutEvent where
  | append (env : AppendEnv) (routerUse : UInt64) (collection key doc : Bytes)
  /-- The `i`-th call in progress goes on. -/
  | put (i : ℕ) (refusal : Option Status) (abort : AppendEnv) (saved : Except Status Unit)

namespace PutProcess

variable (p : PutProcess) (c : Crypto)

/-- `PutRaw` up to its append. -/
def logPut (env : AppendEnv) (routerUse : UInt64) (collection key doc : Bytes) :
    PutProcess × Option (Except Status Unit) :=
  match StorageEngine.checkPut key doc with
  | .error st => (p, some (.error st))
  | .ok () =>
    match p.engine.checkQuota routerUse key doc with
    | .error st => (p, some (.error st))
    | .ok () =>
      match p.engine.wal.append c env p.engine.disk
          { type := .kPut, collection, key, documentBytes := doc } with
      | (.error st, wal, disk) =>
        ({ p with engine := { p.engine with wal, disk } }, some (.error st))
      | (.ok lsn, wal, disk) =>
        ({ engine := { p.engine with wal, disk }
           pending := p.pending ++ [⟨collection, key, doc, lsn⟩] }, none)

/-- `PutRaw` from its `Put` on. -/
def storePut (i : ℕ) (refusal : Option Status) (abort : AppendEnv) (saved : Except Status Unit) :
    PutProcess × Option (Except Status Unit) :=
  match p.pending[i]? with
  | none => (p, none)
  | some call =>
    let pending := p.pending.eraseIdx i
    match p.engine.router.put p.engine.catalog refusal call.collection call.key call.doc with
    | (.error st, _) =>
      let (_, wal, disk) := p.engine.wal.append c abort p.engine.disk
        { type := .kAbort, collection := call.collection, key := call.key, documentBytes := [] }
      ({ engine := { p.engine with wal, disk }, pending }, some (.error st))
    | (.ok (), router) =>
      ({ engine := (StorageEngine.ensureCollection { p.engine with router } saved
          call.collection).2
         pending }, some (.ok ()))

/-- One step, and the answer of the call if it was its last. -/
def step (p : PutProcess) : PutEvent → PutProcess × Option (Except Status Unit)
  | .append env routerUse collection key doc => p.logPut c env routerUse collection key doc
  | .put i refusal abort saved => p.storePut c i refusal abort saved

/-- The two steps of a call without another one between them are `PutRaw`. -/
lemma storePut_logPut (env : PutEnv) (collection key doc : Bytes) :
    let logged := p.logPut c env.append env.routerUse collection key doc
    let done := logged.2.elim
      (logged.1.storePut c p.pending.length env.refusal env.abort env.saved) fun answer =>
        (logged.1, some answer)
    done.2 = some (p.engine.putRaw c env collection key doc).1 ∧
      done.1 = { p with engine := (p.engine.putRaw c env collection key doc).2 } := by
  unfold logPut StorageEngine.putRaw
  cases StorageEngine.checkPut key doc with
  | error st => exact ⟨rfl, rfl⟩
  | ok =>
    dsimp only
    cases p.engine.checkQuota env.routerUse key doc with
    | error st => exact ⟨rfl, rfl⟩
    | ok =>
      unfold StorageEngine.writeRow
      rcases p.engine.wal.append c env.append p.engine.disk
        { type := .kPut, collection, key, documentBytes := doc } with ⟨st | lsn, wal, disk⟩
      · exact ⟨rfl, rfl⟩
      · have hget : (p.pending ++ [(⟨collection, key, doc, lsn⟩ : PendingPut)])[p.pending.length]? =
            some ⟨collection, key, doc, lsn⟩ := by simp
        have herase : (p.pending ++ [(⟨collection, key, doc, lsn⟩ : PendingPut)]).eraseIdx
            p.pending.length = p.pending := by
          rw [eraseIdx_append_of_length_le le_rfl, Nat.sub_self, eraseIdx_cons_zero,
            append_nil]
        unfold storePut
        rw [hget, herase]
        dsimp only
        rcases p.engine.router.put p.engine.catalog env.refusal collection key doc with
          ⟨st | u, router⟩
        · exact ⟨rfl, rfl⟩
        · exact ⟨rfl, rfl⟩

end PutProcess

end DeSentry
