import DeSentry.Construction.Engine.Calls
import DeSentry.Properties.ReadYourWrites

/-!
# The sections of a call

What the results about concurrent calls need of one step.  `advance_cases` says once what a step can
do to the rows and to the digest cache: only the `PutRaw` of a call writes a row, and only its
`NoteDigest` and the loop of `LocalDigest` touch the cache.

`putDocument_eq_advances` and `mergeRemote_eq_advances` connect the calls with the functions of the
engine: the steps of a call that no other call interrupts are the function.
-/

namespace DeSentry

open ByteCodec CrdtValue

/-- The write of a call whose row is in the backend. -/
def Stage.stored : Stage → Option RowWrite
  | .written w => some w
  | .done w => some w
  | _ => none

namespace NodeEngine

variable (e : NodeEngine) (c : Crypto) (env : WriteEnv) (appended : Except Status Unit)
  (wall : UInt64) (remote : CrdtValue)

/-! ## What a step does -/

lemma observeRemote_snd :
    (e.observeRemote wall remote).2 =
      { e with clock := (e.clock.observe wall remote.maxTimestamp).1 } := by
  by_cases h : (!(e.clock.observe wall remote.maxTimestamp).2) = true
  · rw [observeRemote, if_pos h]
  · rw [observeRemote, if_neg h]

/-- The clock refuses a remote stamp, or lets the call go on. -/
lemma observeRemote_cases :
    (∃ st, (e.observeRemote wall remote).1 = .returned (.error (.status st))) ∨
      (e.observeRemote wall remote).1 = .observed remote := by
  by_cases h : (!(e.clock.observe wall remote.maxTimestamp).2) = true
  · rw [observeRemote, if_pos h]
    exact Or.inl ⟨_, rfl⟩
  · rw [observeRemote, if_neg h]
    exact Or.inr rfl

@[simp] lemma digestCache_persistClockIfDue (committed : Bool) :
    (e.persistClockIfDue committed).digestCache = e.digestCache := by
  unfold persistClockIfDue commitClock
  dsimp only
  split_ifs <;> rfl

@[simp] lemma digestCache_stage {c : Crypto} {env : WriteEnv} (collection key doc : Bytes)
    (hlc : HLCTimestamp) : (e.stage c env collection key doc hlc).digestCache = e.digestCache := by
  unfold stage
  split_ifs <;> rfl

/-- The rows do not change behind the write. -/
lemma storage_finishCall (w : RowWrite) :
    (e.finishCall c env w).storage = e.storage := by
  unfold finishCall
  rw [storage_persistClockIfDue, storage_noteDigest]
  cases w.origin with
  | update newJson ts => exact storage_stage _ _ _ _
  | remote remote => rfl

/-- Behind the write the fingerprint of the document is noted. -/
lemma digestCache_finishCall (w : RowWrite) :
    (e.finishCall c env w).digestCache =
      (e.noteDigest c w.collection w.key w.doc.encode).digestCache := by
  unfold finishCall
  rw [digestCache_persistClockIfDue]
  cases w.origin with
  | update newJson ts =>
    unfold noteDigest
    rw [digestCache_stage]
    cases digestEntry c w.key w.doc.encode with
    | none => exact digestCache_stage _ _ _ _ _
    | some entry => rfl
  | remote remote => rfl

variable (request : EngineCall) (stage : Stage)

/-- **What a step of a call does.**  It is the `PutRaw`, the end of a write, or the loop of
`LocalDigest`, or it leaves the rows, the cache and the stored write of the call alone. -/
lemma advance_cases :
    (∃ w, stage = .writing w ∧ e.advance c env appended request stage = e.writeCall c env.put w) ∨
    (∃ w, stage = .written w ∧
      e.advance c env appended request stage = (.done w, e.finishCall c env w)) ∨
    (∃ collection rows, request = .localDigest collection ∧ stage = .scanned rows ∧
      e.advance c env appended request stage =
        (.digested (fillDigest c collection e.digestCache rows).1,
          { e with digestCache := (fillDigest c collection e.digestCache rows).2 })) ∨
    ((e.advance c env appended request stage).2.storage = e.storage ∧
      (e.advance c env appended request stage).2.digestCache = e.digestCache ∧
      (e.advance c env appended request stage).1.stored = stage.stored ∧
      ∀ w, stage ≠ .written w) := by
  cases stage with
  | writing w => exact Or.inl ⟨w, rfl, by cases request <;> rfl⟩
  | written w => exact Or.inr (Or.inl ⟨w, rfl, by cases request <;> rfl⟩)
  | scanned rows =>
    refine Or.inr (Or.inr ?_)
    cases request with
    | localDigest collection => exact Or.inl ⟨collection, rows, rfl, rfl, rfl⟩
    | putDocument collection key newJson who => exact Or.inr ⟨rfl, rfl, rfl, nofun⟩
    | mergeRemote collection key remoteDoc who => exact Or.inr ⟨rfl, rfl, rfl, nofun⟩
  | called =>
    refine Or.inr (Or.inr (Or.inr ?_))
    cases request with
    | putDocument collection key newJson who =>
      refine ⟨rfl, rfl, ?_, nofun⟩
      change (e.beginPut collection key who).stored = none
      unfold beginPut
      split_ifs <;> try rfl
      cases e.currentDocument collection key <;> rfl
    | mergeRemote collection key remoteDoc who =>
      change (e.beginMerge env.wall appended collection remoteDoc who).2.storage = _ ∧
        (e.beginMerge env.wall appended collection remoteDoc who).2.digestCache = _ ∧
        (e.beginMerge env.wall appended collection remoteDoc who).1.stored = none ∧ _
      unfold beginMerge
      split_ifs
      · exact ⟨rfl, rfl, rfl, nofun⟩
      · cases TransitEnvelope.decode remoteDoc <;> exact ⟨rfl, rfl, rfl, nofun⟩
      · exact ⟨rfl, rfl, rfl, nofun⟩
      · cases decode remoteDoc with
        | error what => exact ⟨rfl, rfl, rfl, nofun⟩
        | ok remote =>
          change (e.observeRemote env.wall remote).2.storage = _ ∧
            (e.observeRemote env.wall remote).2.digestCache = _ ∧
            (e.observeRemote env.wall remote).1.stored = none ∧ _
          rw [observeRemote_snd]
          refine ⟨rfl, rfl, ?_, nofun⟩
          rcases e.observeRemote_cases env.wall remote with ⟨st, hstage⟩ | hstage <;>
            rw [hstage] <;> rfl
    | localDigest collection => exact ⟨rfl, rfl, rfl, nofun⟩
  | observed remote =>
    refine Or.inr (Or.inr (Or.inr ?_))
    cases request with
    | mergeRemote collection key remoteDoc who =>
      refine ⟨rfl, rfl, ?_, nofun⟩
      change (e.mergeCurrent collection key remote).stored = none
      unfold mergeCurrent
      cases e.currentDocument collection key <;> rfl
    | putDocument collection key newJson who => exact ⟨rfl, rfl, rfl, nofun⟩
    | localDigest collection => exact ⟨rfl, rfl, rfl, nofun⟩
  | read previous =>
    exact Or.inr (Or.inr (Or.inr (by cases request <;> exact ⟨rfl, rfl, rfl, nofun⟩)))
  | done w => exact Or.inr (Or.inr (Or.inr (by cases request <;> exact ⟨rfl, rfl, rfl, nofun⟩)))
  | returned answer =>
    exact Or.inr (Or.inr (Or.inr (by cases request <;> exact ⟨rfl, rfl, rfl, nofun⟩)))
  | digested entries =>
    exact Or.inr (Or.inr (Or.inr (by cases request <;> exact ⟨rfl, rfl, rfl, nofun⟩)))

/-- What a step does to the rows: they change only in a `PutRaw`, and what a call has stored it
keeps. -/
lemma advance_rows :
    (∃ w, stage = .writing w ∧ e.advance c env appended request stage = e.writeCall c env.put w) ∨
      ((e.advance c env appended request stage).2.storage = e.storage ∧
        (e.advance c env appended request stage).1.stored = stage.stored) := by
  rcases e.advance_cases c env appended request stage with
    hw | ⟨w, rfl, hadvance⟩ | ⟨collection, rows, -, rfl, hadvance⟩ | ⟨hstorage, -, hstored, -⟩
  · exact Or.inl hw
  · rw [hadvance]
    exact Or.inr ⟨e.storage_finishCall c env w, rfl⟩
  · rw [hadvance]
    exact Or.inr ⟨rfl, rfl⟩
  · exact Or.inr ⟨hstorage, hstored⟩

/-! ## A call that runs alone -/

/-- The next `n` steps of a call when no other call makes a step between them. -/
def advances (c : Crypto) (env : WriteEnv) (appended : Except Status Unit) (request : EngineCall) :
    ℕ → Stage × NodeEngine → Stage × NodeEngine
  | 0, s => s
  | n + 1, s => advances c env appended request n (s.2.advance c env appended request s.1)

variable {c env appended}

lemma advances_returned (request : EngineCall) (answer : Except Failure Unit) (n : ℕ)
    (e : NodeEngine) :
    advances c env appended request n (.returned answer, e) = (.returned answer, e) := by
  induction n with
  | zero => rfl
  | succ n ih =>
    cases request <;> exact ih

/-- The end of a call, from the write on. -/
lemma advances_writing (request : EngineCall) (w : RowWrite) (e : NodeEngine) :
    advances c env appended request 2 (.writing w, e) =
      (let put := e.storage.putRaw c env.put w.collection w.key w.doc.encode
      match put.1 with
      | .error st => (.returned (.error (.status st)), { e with storage := put.2 })
      | .ok () => (.done w, ({ e with storage := put.2 } : NodeEngine).finishCall c env w)) := by
  have hwrite : advances c env appended request 2 (.writing w, e) =
      advances c env appended request 1 (e.writeCall c env.put w) := by
    cases request <;> rfl
  rw [hwrite, writeCall]
  rcases e.storage.putRaw c env.put w.collection w.key w.doc.encode with ⟨st | _, storage⟩
  · exact advances_returned request _ 1 _
  · cases request <;> rfl

variable (c env appended)

/-- **`PutDocument` is its sections in a row**: the steps of a call that runs alone end in the
answer and the state of `putDocument`. -/
theorem putDocument_eq_advances (collection key : Bytes) (newJson : JsonValue) (who : Requestor) :
    (let s := advances c env appended (.putDocument collection key newJson who) 4 (.called, e)
    (s.1.answer, s.2)) =
      (let put := e.putDocument c env collection key newJson who
      (some put.1, put.2)) := by
  have hcall : advances c env appended (.putDocument collection key newJson who) 4 (.called, e) =
      advances c env appended (.putDocument collection key newJson who) 3
        (e.beginPut collection key who, e) := rfl
  rw [hcall, beginPut, putDocument]
  by_cases htransit : collection = kTransitCollection
  · rw [if_pos htransit, if_pos htransit]
    rfl
  rw [if_neg htransit, if_neg htransit]
  by_cases hwrite : (!e.canWrite collection who) = true
  · rw [if_pos hwrite, if_pos hwrite]
    rfl
  rw [if_neg hwrite, if_neg hwrite]
  cases e.currentDocument collection key with
  | error failure =>
    dsimp only
    rfl
  | ok previous =>
    dsimp only
    let ts := (e.now env.wall).2
    let updated := updatedDocument previous newJson ts e.tagCounter
    have hstamp : advances c env appended (.putDocument collection key newJson who) 3
        (.read previous, e) = advances c env appended (.putDocument collection key newJson who) 2
          (.writing ⟨collection, key, previous, .update newJson ts, updated.1⟩,
            e.written env updated.2 e.storage) := rfl
    rw [hstamp, advances_writing, writeDocument_eq]
    dsimp only
    have hput : (e.written env updated.2 e.storage).storage = e.storage := rfl
    rw [hput]
    rcases e.storage.putRaw c env.put collection key updated.1.encode with ⟨st | _, storage⟩
    · rfl
    · rfl

/-- **`MergeRemote` is its sections in a row.** -/
theorem mergeRemote_eq_advances (collection key remoteDoc : Bytes) (who : Requestor) :
    (let s := advances c env appended (.mergeRemote collection key remoteDoc who) 4 (.called, e)
    (s.1.answer, s.2)) =
      (let merge := e.mergeRemote c env appended collection key remoteDoc who
      (some merge.1, merge.2)) := by
  dsimp only
  have hcall : advances c env appended (.mergeRemote collection key remoteDoc who) 4 (.called, e) =
      advances c env appended (.mergeRemote collection key remoteDoc who) 3
        (e.beginMerge env.wall appended collection remoteDoc who) := rfl
  rw [hcall, beginMerge, mergeRemote]
  by_cases htransit : collection = kTransitCollection
  · rw [if_pos htransit, if_pos htransit]
    by_cases hlocal : who.isLocal = true
    · rw [if_pos hlocal, if_pos hlocal]
      rfl
    rw [if_neg hlocal, if_neg hlocal]
    cases TransitEnvelope.decode remoteDoc with
    | error st =>
      dsimp only
      rw [advances_returned]
      rfl
    | ok envelope =>
      dsimp only
      rw [advances_returned]
      rfl
  rw [if_neg htransit, if_neg htransit]
  by_cases hwrite : (!e.canWrite collection who) = true
  · rw [if_pos hwrite, if_pos hwrite]
    rfl
  rw [if_neg hwrite, if_neg hwrite]
  cases CrdtValue.decode remoteDoc with
  | error what =>
    dsimp only
    rfl
  | ok remote =>
    dsimp only
    rw [observeRemote, mergeDecoded]
    generalize e.clock.observe env.wall remote.maxTimestamp = seen
    by_cases hseen : (!seen.2) = true
    · rw [if_pos hseen, if_pos hseen]
      rfl
    rw [if_neg hseen, if_neg hseen]
    generalize ({ e with clock := seen.1 } : NodeEngine) = e'
    have hread : advances c env appended (.mergeRemote collection key remoteDoc who) 3
        (.observed remote, e') = advances c env appended
          (.mergeRemote collection key remoteDoc who) 2 (e'.mergeCurrent collection key remote, e')
        := rfl
    rw [hread, mergeCurrent, writeMerged]
    cases e'.currentDocument collection key with
    | error failure =>
      dsimp only
      rw [advances_returned]
      rfl
    | ok previous =>
      dsimp only
      rw [advances_writing]
      dsimp only
      rcases e'.storage.putRaw c env.put collection key
        (previous.elim remote (CrdtValue.merge · remote)).encode with ⟨st | _, storage⟩
      · rfl
      · rfl

end NodeEngine

/-! ## Merges of small documents -/

namespace EngineProcess

/-- A document with one field, written by a peer. -/
def sampleRemote (name : String) (ms : UInt64) : CrdtValue :=
  .object ⟨ms, 0, [98]⟩ false [(text name, .scalar ⟨ms, 0, [98]⟩ false (.int 1))]

/-- The merge of such a document. -/
def sampleMerge (name : String) (ms : UInt64) : EngineCall :=
  .mergeRemote (text "c") (text "k") (sampleRemote name ms).encode { nodeId := [98] }

/-- A step of a call. -/
def sampleAdvance (i : ℕ) : Event := .advance i { wall := 5000 } (.ok ())

/-- A merge that runs alone. -/
def loneMerge : List Event :=
  [.call (sampleMerge "x" 1), sampleAdvance 0, sampleAdvance 0, sampleAdvance 0, sampleAdvance 0]

end EngineProcess

end DeSentry
