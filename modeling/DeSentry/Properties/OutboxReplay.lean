import DeSentry.Construction.Engine.FlushOutbox
import DeSentry.Properties.PoisonedRows

/-!
# What a flush of the outbox does to the documents

A staged entry is the whole document as it was when the node was isolated, and the replay writes its
JSON over what is stored when the node is back.  A field that was merged or written in between is not
in the staged version, so the replay takes it for removed and puts a tombstone with a new stamp
(`flush_removes_merged_field`).

An entry whose document still shows the staged JSON is replayed as the bytes that are there
already.  So a run in which every flush finds the staged documents as they were staged loses nothing
(`flush_keeps_documents`).
-/

namespace DeSentry

open ByteCodec Runs

namespace NodeEngine

open CrdtValue

/-! ## The node as a system -/

/-- A write, a merge, or a flush. -/
inductive OutboxEvent where
  | write (call : WriteCall)
  | flush (order : MapOrder OutboxEntry) (env : ℕ → ReplayEnv)

/-- One event. -/
def outboxStep (c : Crypto) (e : NodeEngine) : OutboxEvent → NodeEngine × Unit
  | .write call => ((writeStep c e call).1, ())
  | .flush order env => ((e.flushOutbox c order env).2, ())

/-- What a document shows. -/
def documentJson (e : NodeEngine) (collection key : Bytes) : Except Failure (Option JsonValue) :=
  (e.currentDocument collection key).map (Option.map toJson)

/-- The document of an entry shows what was staged. -/
def ShowsStaged (e : NodeEngine) (entry : OutboxEntry) : Prop :=
  ∃ doc staged, e.currentDocument entry.collection entry.key = .ok (some doc) ∧
    decode entry.encodedDoc = .ok staged ∧ isNoop doc staged.toJson = true

/-- The comparison behind it. -/
def showsStaged (e : NodeEngine) (entry : OutboxEntry) : Bool :=
  match e.currentDocument entry.collection entry.key, decode entry.encodedDoc with
  | .ok (some doc), .ok staged => isNoop doc staged.toJson
  | _, _ => false

variable {entry : OutboxEntry}

lemma showsStaged_iff {e : NodeEngine} :
    e.showsStaged entry = true ↔ e.ShowsStaged entry := by
  unfold showsStaged ShowsStaged
  split
  next doc staged hcur hdecode => simp [hcur, hdecode]
  next hne =>
    refine iff_of_false Bool.false_ne_true ?_
    rintro ⟨doc, staged, hcur, hdecode, -⟩
    exact hne doc staged hcur hdecode

instance (e : NodeEngine) (entry : OutboxEntry) : Decidable (e.ShowsStaged entry) :=
  decidable_of_iff _ showsStaged_iff

/-- A flush finds every staged document as it was staged. -/
def Undisturbed (e : NodeEngine) : OutboxEvent → Prop
  | .write _ => True
  | .flush .. => ∀ p ∈ e.outbox.entries, e.ShowsStaged p.2

/-- A flush leaves the content of every staged document as it is. -/
def FlushKeeps (c : Crypto) (e : NodeEngine) : OutboxEvent → Prop
  | .write _ => True
  | .flush order env => ∀ p ∈ e.outbox.entries,
      (outboxStep c e (.flush order env)).1.documentJson p.2.collection p.2.key =
        e.documentJson p.2.collection p.2.key

/-! ## Rows -/

/-- Every row is a document as `Encode` writes it. -/
def Encoded (e : NodeEngine) : Prop :=
  ∀ collection key bytes, e.storage.getRaw collection key = .ok bytes →
    ∃ v : CrdtValue, bytes = v.encode ∧ v.encode.length ≤ kMaxDocBytes

/-- The rows of two states are the same. -/
def RowsEq (e e' : NodeEngine) : Prop :=
  ∀ collection key, e'.storage.getRaw collection key = e.storage.getRaw collection key

variable {c : Crypto} {e e' : NodeEngine} {collection key : Bytes}

lemma RowsEq.refl (e : NodeEngine) : RowsEq e e := fun _ _ => rfl

lemma RowsEq.trans {e'' : NodeEngine} (h : RowsEq e e') (h' : RowsEq e' e'') : RowsEq e e'' :=
  fun collection key => (h' collection key).trans (h collection key)

lemma RowsEq.currentDocument (h : RowsEq e e') :
    e'.currentDocument collection key = e.currentDocument collection key := by
  unfold NodeEngine.currentDocument
  rw [h]

lemma RowsEq.encoded (h : RowsEq e e') (he : e.Encoded) : e'.Encoded := by
  intro collection key bytes hrow
  exact he collection key bytes (h collection key ▸ hrow)

lemma RowsEq.showsStaged (h : RowsEq e e') (he : e.ShowsStaged entry) :
    e'.ShowsStaged entry := by
  obtain ⟨doc, staged, hcur, hdecode, hnoop⟩ := he
  exact ⟨doc, staged, h.currentDocument.trans hcur, hdecode, hnoop⟩

/-- A document that was read from a row is written back as the bytes of the row. -/
lemma Encoded.getRaw_of_currentDocument (h : e.Encoded) {doc : CrdtValue}
    (hcur : e.currentDocument collection key = .ok (some doc)) :
    e.storage.getRaw collection key = .ok doc.encode := by
  obtain ⟨bytes, hrow, hdecode⟩ := exists_decode_of_currentDocument hcur
  obtain ⟨v, rfl, hlen⟩ := h collection key bytes hrow
  have hshort : v.encode.length < 2 ^ 32 := by
    rw [kMaxDocBytes] at hlen
    omega
  have hdepth := (decodes_iff_depth hshort).mp ⟨doc, hdecode⟩
  have hcanon : decode v.encode = .ok v.canon := decodeAt_encode hdepth hshort
  obtain rfl : v.canon = doc := Except.ok.inj (hcanon.symm.trans hdecode)
  rw [hrow, encode_canon]

lemma encoded_set {v : CrdtValue} (h : e.Encoded) (hlen : v.encode.length ≤ kMaxDocBytes)
    (hrows : ∀ collection' key', e'.storage.getRaw collection' key' =
      if (collection', key') = (collection, key) then .ok v.encode
      else e.storage.getRaw collection' key') : e'.Encoded := by
  intro collection' key' bytes hrow
  rw [hrows] at hrow
  split_ifs at hrow
  · exact ⟨v, (Except.ok.inj hrow).symm, hlen⟩
  · exact h collection' key' bytes hrow

lemma encoded_putDocument (h : e.Encoded) (env : WriteEnv) (j : JsonValue) (who : Requestor) :
    (e.putDocument c env collection key j who).2.Encoded := by
  rcases e.putDocument_cases c env collection key j who with ⟨previous, -, -, hlen, hrows⟩ | ⟨-, hrows⟩
  · exact encoded_set h hlen hrows
  · exact RowsEq.encoded hrows h

/-- Writes and merges store documents as `Encode` writes them. -/
lemma encoded_writeStep (h : e.Encoded) (call : WriteCall) : (writeStep c e call).1.Encoded := by
  cases call with
  | put env collection key j who => exact encoded_putDocument h env j who
  | merge env appended collection key remoteDoc who =>
    change (e.mergeRemote c env appended collection key remoteDoc who).2.Encoded
    by_cases htransit : collection = kTransitCollection
    · subst htransit
      unfold Encoded
      rw [storage_mergeRemote_transit]
      exact h
    · rcases e.mergeRemote_cases c env appended collection key remoteDoc who htransit with
        ⟨remote, -, -, previous, -, hlen, hrows, -⟩ | ⟨-, hrows, -⟩
      · exact encoded_set h hlen hrows
      · exact RowsEq.encoded hrows h

/-! ## A flush -/

/-- Only the write of a replay touches the storage. -/
lemma storage_replayEntry {staged : CrdtValue} (h : decode entry.encodedDoc = .ok staged)
    (env : ReplayEnv) :
    (e.replayEntry c env entry).2.storage = (e.putDocument c env.write entry.collection entry.key
      staged.toJson ⟨e.nodeId, true⟩).2.storage := by
  unfold replayEntry
  rw [h]
  dsimp only
  rcases e.putDocument c env.write entry.collection entry.key staged.toJson ⟨e.nodeId, true⟩ with
    ⟨(st | _) | _, e'⟩ <;> rfl

lemma encoded_replayEntry (h : e.Encoded) (env : ReplayEnv) (entry : OutboxEntry) :
    (e.replayEntry c env entry).2.Encoded := by
  cases hdecode : decode entry.encodedDoc with
  | error what =>
    have hsame : (e.replayEntry c env entry).2 = e := by
      unfold replayEntry
      rw [hdecode]
    rwa [hsame]
  | ok staged =>
    unfold Encoded
    rw [storage_replayEntry hdecode]
    exact encoded_putDocument h env.write staged.toJson ⟨e.nodeId, true⟩

variable (entries : List OutboxEntry) (env : ℕ → ReplayEnv) (replayed : ℕ)

lemma encoded_replayEntries (h : e.Encoded) :
    (replayEntries c env e replayed entries).2.Encoded := by
  induction entries generalizing e env replayed with
  | nil => exact h
  | cons entry entries ih =>
    have hentry := encoded_replayEntry (c := c) h (env 0) entry
    rw [replayEntries]
    rcases hcase : e.replayEntry c (env 0) entry with ⟨failure | done, e'⟩ <;> rw [hcase] at hentry
    · exact hentry
    · exact ih _ _ hentry

/-- **The replay of a document that shows what was staged** writes the bytes that are there. -/
lemma rowsEq_replayEntry (h : e.Encoded) (hshows : e.ShowsStaged entry) (env : ReplayEnv) :
    RowsEq e (e.replayEntry c env entry).2 := by
  obtain ⟨doc, staged, hcur, hdecode, hnoop⟩ := hshows
  have hput : RowsEq e (e.putDocument c env.write entry.collection entry.key staged.toJson
      ⟨e.nodeId, true⟩).2 := by
    rcases e.putDocument_cases c env.write entry.collection entry.key staged.toJson
      ⟨e.nodeId, true⟩ with ⟨previous, -, hprevious, -, hrows⟩ | ⟨-, hrows⟩
    · obtain rfl : some doc = previous := Except.ok.inj (hcur.symm.trans hprevious)
      intro collection key
      rw [hrows]
      split_ifs with heq
      · obtain ⟨rfl, rfl⟩ := Prod.mk.inj heq
        rw [updatedDocument, apply_of_isNoop hnoop]
        exact (h.getRaw_of_currentDocument hcur).symm
      · rfl
    · exact hrows
  unfold RowsEq
  rw [storage_replayEntry hdecode]
  exact hput

lemma rowsEq_replayEntries (h : e.Encoded) (hshows : ∀ entry ∈ entries, e.ShowsStaged entry) :
    RowsEq e (replayEntries c env e replayed entries).2 := by
  induction entries generalizing e env replayed with
  | nil => exact RowsEq.refl e
  | cons entry entries ih =>
    have hentry : RowsEq e (e.replayEntry c (env 0) entry).2 :=
      rowsEq_replayEntry h (hshows entry List.mem_cons_self) (env 0)
    rw [replayEntries]
    rcases hcase : e.replayEntry c (env 0) entry with ⟨failure | done, e'⟩ <;> rw [hcase] at hentry
    · exact hentry
    · refine hentry.trans (ih _ _ (hentry.encoded h) fun entry' hentry' => ?_)
      exact hentry.showsStaged (hshows entry' (List.mem_cons_of_mem _ hentry'))

lemma mem_drained {order : MapOrder OutboxEntry} (h : entry ∈ e.outbox.drained order) :
    ∃ p ∈ e.outbox.entries, p.2 = entry := by
  unfold OutboxStore.drained at h
  rw [KeyedList.mem_sortBy, (order.2 _).mem_iff] at h
  exact List.mem_map.mp h

/-- A flush that finds every staged document as it was staged changes no row. -/
lemma rowsEq_flushOutbox (h : e.Encoded) (hshows : ∀ p ∈ e.outbox.entries, e.ShowsStaged p.2)
    (order : MapOrder OutboxEntry) (env : ℕ → ReplayEnv) :
    RowsEq e (e.flushOutbox c order env).2 := by
  refine rowsEq_replayEntries _ env 0 h fun entry hentry => ?_
  obtain ⟨p, hp, rfl⟩ := mem_drained hentry
  exact hshows p hp

lemma encoded_outboxStep (h : e.Encoded) (event : OutboxEvent) :
    (outboxStep c e event).1.Encoded := by
  cases event with
  | write call => exact encoded_writeStep h call
  | flush order env => exact encoded_replayEntries _ env 0 h

end NodeEngine

open NodeEngine in
/-- **Flushes that find the staged documents as they were staged lose nothing.**  This is for every
run of writes, merges and flushes of a node whose rows were written by such a run. -/
theorem flush_keeps_documents (c : Crypto) (e : NodeEngine) (hrows : e.Encoded)
    (events : List OutboxEvent) (h : Guarded (outboxStep c) Undisturbed e events) :
    Guarded (outboxStep c) (FlushKeeps c) e events := by
  have hkeep : ∀ e event, Undisturbed e event → e.Encoded → (outboxStep c e event).1.Encoded :=
    fun e event _ he => encoded_outboxStep he event
  refine Guarded.of_invariant hkeep ?_ hrows h
  intro e event hundisturbed he
  cases event with
  | write call => trivial
  | flush order env =>
    intro p hp
    have hsame : RowsEq e (outboxStep c e (.flush order env)).1 :=
      rowsEq_flushOutbox he hundisturbed order env
    unfold documentJson
    rw [hsame.currentDocument]

/-! ## A field lost -/

open NodeEngine

/-- A write on a node that reaches no peer. -/
def sampleIsolatedWrite : OutboxEvent :=
  .write (.put { wall := 5000, reachable := false } (text "c") (text "k")
    (.object [(text "a", .scalar (.bool true))]) ⟨sampleNode.nodeId, true⟩)

/-- A merge of a peer's version of the document, which has another field. -/
def sampleFieldMerge : OutboxEvent :=
  .write (.merge { wall := 5000 } (.ok ()) (text "c") (text "k")
    (EngineProcess.sampleRemote "b" 1000).encode { nodeId := text "p" })

/-- The flush, once a peer is reachable. -/
def sampleFlush : OutboxEvent :=
  .flush ⟨id, fun _ => List.Perm.refl _⟩ fun _ => { write := { wall := 5000 } }

/-- Which of the two fields the document shows. -/
def sampleFields (e : NodeEngine) : Except Failure (Option (List Bool)) :=
  (e.documentJson (text "c") (text "k")).map
    (Option.map fun j => [(j.find (text "a")).isSome, (j.find (text "b")).isSome])

/-- The document has a field from a peer, and after the flush it has not. -/
theorem flush_removes_merged_field :
    (final (outboxStep sampleCrypto) sampleNode
        [sampleIsolatedWrite, sampleFieldMerge]).outbox.entries.map
        (fun p => (p.2.collection, p.2.key)) = [(text "c", text "k")] ∧
      sampleFields (final (outboxStep sampleCrypto) sampleNode
        [sampleIsolatedWrite, sampleFieldMerge]) = .ok (some [true, true]) ∧
      sampleFields (final (outboxStep sampleCrypto) sampleNode
        [sampleIsolatedWrite, sampleFieldMerge, sampleFlush]) = .ok (some [true, false]) := by
  decide +kernel

/-- Without the merge the flush finds what was staged. -/
theorem flush_keeps_documents_sample :
    (outboxStep sampleCrypto sampleNode sampleIsolatedWrite).1.outbox.entries.length = 1 ∧
      Guarded (outboxStep sampleCrypto) (FlushKeeps sampleCrypto) sampleNode
        [sampleIsolatedWrite, sampleFlush] := by
  refine ⟨by decide +kernel,
    flush_keeps_documents sampleCrypto sampleNode nofun _ ⟨trivial, ?_, trivial⟩⟩
  change ∀ p ∈ (outboxStep sampleCrypto sampleNode sampleIsolatedWrite).1.outbox.entries, _
  decide +kernel

end DeSentry
