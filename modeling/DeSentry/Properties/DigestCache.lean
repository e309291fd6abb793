import DeSentry.Framework.Runs
import DeSentry.Properties.EngineCalls

/-!
# The digest cache

`LocalDigest` offers the cached fingerprint of a row, if there is one, without looking at the row.
A writer replaces the row and notes the new fingerprint in two critical sections, so two writers of
one key can note in the opposite order: the fingerprint of the older row stays in the cache, with no
write in progress (`notes_in_opposite_order`).

`local_digest_current` is what does hold of a run.  When a call notes its document, let the writer
of the row as it is now be among the calls that still have to note; then the cache is right again
when the last of them is done.  Two more things can make an entry wrong without any concurrency: a
document that does not decode is not noted, and the cache key of a collection whose name has a NUL
byte can be that of a document in another collection.

The other race, of a `LocalDigest` that fills the cache from rows it scanned before a write, is
harmless: as long as the writer has not noted, it still will, and afterwards the entry is there and
is not filled.
-/

namespace DeSentry

open ByteCodec KeyedList Runs CrdtValue AssocMap StorageEngine
open List hiding get set

/-! ## Rows and scans -/

/-- A scan lists the rows that a point lookup finds. -/
lemma StorageEngine.mem_scan_iff {s : StorageEngine} {collection key bytes : Bytes} :
    (key, bytes) ∈ s.scan collection ↔ s.getRaw collection key = .ok bytes := by
  unfold scan getRaw StorageRouter.scan StorageRouter.get
  cases s.router.backendFor s.catalog collection with
  | none => simp
  | some rows =>
    have hmem (h : get rows (collection, key) = some bytes) :
        key ∈ sortBy id ((rows.filter fun row => decide (row.1.1 = collection)).map (·.1.2)).dedup := by
      have hrow := mem_of_get h
      simp only [mem_sortBy, mem_dedup, mem_map, mem_filter]
      exact ⟨((collection, key), bytes), ⟨hrow, by simp⟩, rfl⟩
    dsimp only
    cases hget : get rows (collection, key) with
    | none =>
      refine ⟨fun h => ?_, by rintro ⟨⟩⟩
      obtain ⟨key', -, h⟩ := mem_filterMap.mp h
      obtain ⟨doc, hdoc, h⟩ := Option.map_eq_some_iff.mp h
      obtain ⟨rfl, rfl⟩ := Prod.mk.inj h
      rw [hget] at hdoc
      cases hdoc
    | some doc =>
      constructor
      · intro h
        obtain ⟨key', -, h⟩ := mem_filterMap.mp h
        obtain ⟨doc', hdoc, h⟩ := Option.map_eq_some_iff.mp h
        obtain ⟨rfl, rfl⟩ := Prod.mk.inj h
        rw [hget] at hdoc
        rw [Option.some.inj hdoc]
      · intro h
        obtain rfl := Except.ok.inj h
        refine mem_filterMap.mpr ⟨key, hmem hget, ?_⟩
        rw [hget]
        rfl

/-- `entry` is the fingerprint of a document with this encoding. -/
def DigestEntryOut.Describes (c : Crypto) (entry : DigestEntryOut) (bytes : Bytes) : Prop :=
  ∃ doc, decode bytes = .ok doc ∧ entry.topTs = doc.maxTimestamp ∧
    entry.contentHash = (c.sha256 bytes).take 8

namespace NodeEngine

variable {c : Crypto} {e : NodeEngine} {collection key collection' key' : Bytes}
  {entry : DigestEntryOut} {cache : List (Bytes × DigestEntryOut)} {rows : List (Bytes × Bytes)}

lemma describes_of_digestEntry {bytes : Bytes} (h : digestEntry c key bytes = some entry) :
    entry.key = key ∧ entry.Describes c bytes := by
  unfold digestEntry at h
  cases hdecode : decode bytes with
  | error what =>
    rw [hdecode] at h
    cases h
  | ok doc =>
    rw [hdecode] at h
    obtain rfl := Option.some.inj h
    exact ⟨rfl, doc, hdecode, rfl, rfl⟩

/-- Cache keys are apart when the names of the collections have no NUL byte. -/
lemma digestCacheKey_inj (h : 0 ∉ collection) (h' : 0 ∉ collection')
    (heq : digestCacheKey collection key = digestCacheKey collection' key') :
    collection = collection' ∧ key = key' := by
  induction collection generalizing collection' with
  | nil =>
    cases collection' with
    | nil => exact ⟨rfl, (List.cons.inj heq).2⟩
    | cons b collection' => exact absurd ((List.cons.inj heq).1 ▸ mem_cons_self) h'
  | cons a collection ih =>
    cases collection' with
    | nil => exact absurd ((List.cons.inj heq).1 ▸ mem_cons_self) h
    | cons b collection' =>
      obtain ⟨rfl, htail⟩ := List.cons.inj heq
      obtain ⟨rfl, rfl⟩ := ih (fun hm => h (mem_cons_of_mem _ hm))
        (fun hm => h' (mem_cons_of_mem _ hm)) htail
      exact ⟨rfl, rfl⟩

/-! ## The loop of `LocalDigest` -/

/-- What the loop leaves in the cache: an entry that was there stays, and a new one is the
fingerprint of one of the rows. -/
lemma get_fillDigest (c : Crypto) (collection : Bytes) (cache : List (Bytes × DigestEntryOut))
    (rows : List (Bytes × Bytes)) (k : Bytes) :
    get (fillDigest c collection cache rows).2 k = get cache k ∨
      (get cache k = none ∧ ∃ row ∈ rows, digestCacheKey collection row.1 = k ∧
        get (fillDigest c collection cache rows).2 k = digestEntry c row.1 row.2) := by
  induction rows generalizing cache with
  | nil => exact Or.inl rfl
  | cons row rows ih =>
    obtain ⟨key, bytes⟩ := row
    rw [fillDigest]
    have hskip : get (fillDigest c collection cache rows).2 k = get cache k ∨
        (get cache k = none ∧ ∃ row ∈ (key, bytes) :: rows,
          digestCacheKey collection row.1 = k ∧
          get (fillDigest c collection cache rows).2 k = digestEntry c row.1 row.2) :=
      (ih cache).imp_right fun ⟨hnone, row, hrow, h⟩ =>
        ⟨hnone, row, mem_cons_of_mem _ hrow, h⟩
    cases hcached : get cache (digestCacheKey collection key) with
    | some entry => exact hskip
    | none =>
      cases hentry : digestEntry c key bytes with
      | none => exact hskip
      | some entry =>
        have hset := ih (set cache (digestCacheKey collection key) entry)
        rw [get_set] at hset
        by_cases hk : k = digestCacheKey collection key
        · -- the entry that was just set
          rw [if_pos hk] at hset
          refine Or.inr ⟨by rw [hk, hcached], (key, bytes), mem_cons_self, hk.symm, ?_⟩
          rcases hset with hset | ⟨hnone, -⟩
          · rw [hset, hentry]
          · cases hnone
        · rw [if_neg hk] at hset
          exact hset.imp_right fun ⟨hnone, row, hrow, h⟩ =>
            ⟨hnone, row, mem_cons_of_mem _ hrow, h⟩

lemma get_fillDigest_of_some {k : Bytes} (h : get cache k = some entry) :
    get (fillDigest c collection cache rows).2 k = some entry := by
  rcases get_fillDigest c collection cache rows k with hget | ⟨hnone, -⟩
  · rw [hget, h]
  · rw [h] at hnone
    cases hnone

/-- What the loop returns for a row is what is in the cache afterwards. -/
lemma mem_fillDigest (h : entry ∈ (fillDigest c collection cache rows).1) :
    ∃ row ∈ rows, get (fillDigest c collection cache rows).2
      (digestCacheKey collection row.1) = some entry := by
  induction rows generalizing cache with
  | nil => cases h
  | cons row rows ih =>
    obtain ⟨key, bytes⟩ := row
    rw [fillDigest] at h ⊢
    have hskip : entry ∈ (fillDigest c collection cache rows).1 →
        ∃ row ∈ (key, bytes) :: rows, get (fillDigest c collection cache rows).2
          (digestCacheKey collection row.1) = some entry := fun h =>
      (ih h).imp fun row hrow => ⟨mem_cons_of_mem _ hrow.1, hrow.2⟩
    cases hcached : get cache (digestCacheKey collection key) with
    | some cached =>
      rw [hcached] at h
      rcases mem_cons.mp h with rfl | h
      · exact ⟨(key, bytes), mem_cons_self, get_fillDigest_of_some hcached⟩
      · exact hskip h
    | none =>
      rw [hcached] at h
      cases hentry : digestEntry c key bytes with
      | none =>
        rw [hentry] at h
        exact hskip h
      | some new =>
        rw [hentry] at h
        rcases mem_cons.mp h with rfl | h
        · exact ⟨(key, bytes), mem_cons_self,
            get_fillDigest_of_some (get_set_self _ _ _)⟩
        · obtain ⟨row, hrow, hget⟩ := ih h
          exact ⟨row, mem_cons_of_mem _ hrow, hget⟩

/-- What is cached for a document is the fingerprint of its row. -/
def Fresh (c : Crypto) (e : NodeEngine) (collection key : Bytes) : Prop :=
  ∀ entry, get e.digestCache (digestCacheKey collection key) = some entry →
    ∃ bytes, e.storage.getRaw collection key = .ok bytes ∧ digestEntry c key bytes = some entry

/-- With a fresh cache the loop returns the fingerprints of the rows as they are. -/
lemma fillDigest_of_fresh (row : Bytes → Option Bytes)
    (hrows : ∀ r ∈ rows, row r.1 = some r.2)
    (hcache : ∀ r ∈ rows, ∀ entry,
      get cache (digestCacheKey collection r.1) = some entry →
        digestEntry c r.1 r.2 = some entry) :
    (fillDigest c collection cache rows).1 = rows.filterMap fun r => digestEntry c r.1 r.2 := by
  induction rows generalizing cache with
  | nil => rfl
  | cons r rows ih =>
    obtain ⟨key, bytes⟩ := r
    have hrows' : ∀ r ∈ rows, row r.1 = some r.2 := fun r hr =>
      hrows r (mem_cons_of_mem _ hr)
    rw [fillDigest, filterMap_cons]
    cases hcached : get cache (digestCacheKey collection key) with
    | some cached =>
      rw [hcache (key, bytes) mem_cons_self cached hcached]
      dsimp only
      rw [ih hrows' fun r hr => hcache r (mem_cons_of_mem _ hr)]
    | none =>
      cases hentry : digestEntry c key bytes with
      | none => exact ih hrows' fun r hr => hcache r (mem_cons_of_mem _ hr)
      | some new =>
        dsimp only
        rw [ih hrows']
        intro r hr entry hget
        rw [get_set] at hget
        split_ifs at hget with hk
        · -- another row of the same key is the same row
          obtain ⟨-, heq⟩ := append_inj hk rfl
          have hkey : r.1 = key := (List.cons.inj heq).2
          have hbytes : some r.2 = some bytes := by
            rw [← hrows' r hr, hkey, hrows (key, bytes) mem_cons_self]
          rw [hkey, Option.some.inj hbytes, hentry, hget]
        · exact hcache r (mem_cons_of_mem _ hr) entry hget

/-- **A fresh cache is not seen**: `LocalDigest` returns the fingerprint of every row that decodes,
computed from the row. -/
lemma localDigest_of_fresh (h : ∀ key, Fresh c e collection key) :
    (e.localDigest c collection).1 =
      (e.storage.scan collection).filterMap fun row => digestEntry c row.1 row.2 := by
  refine fillDigest_of_fresh (fun key => (e.storage.getRaw collection key).toOption) ?_ ?_
  · intro r hr
    rw [mem_scan_iff.mp hr]
    rfl
  · intro r hr entry hget
    obtain ⟨bytes, hrow, hentry⟩ := h r.1 entry hget
    rw [mem_scan_iff.mp hr] at hrow
    rw [Except.ok.inj hrow, hentry]

/-- What a `LocalDigest` has scanned are the rows at that time. -/
lemma advance_eq_scanned {env : WriteEnv} {appended : Except Status Unit} {stage : Stage}
    (h : (e.advance c env appended (.localDigest collection) stage).1 = .scanned rows) :
    rows = e.storage.scan collection := by
  cases stage with
  | called => exact (Stage.scanned.inj h).symm
  | writing w =>
    change (e.writeCall c env.put w).1 = _ at h
    unfold writeCall at h
    rcases hput : e.storage.putRaw c env.put w.collection w.key w.doc.encode with
      ⟨st | _, storage⟩ <;> rw [hput] at h <;> cases h
  | _ => cases h

end NodeEngine

/-! ## All calls -/

namespace EngineProcess

open NodeEngine

variable {c : Crypto} {collection key : Bytes} {p p' : EngineProcess} {i : ℕ}
  {request : EngineCall} {stage stage' : Stage}

/-- A call that is not a write in progress: it has returned, or it is a `LocalDigest`. -/
def Idle : EngineCall × Stage → Bool
  | (.localDigest _, .called) => true
  | (.localDigest _, .scanned _) => true
  | (.localDigest _, .digested _) => true
  | (_, stage) => stage.answer.isSome

/-- No write is in progress. -/
def Quiet (p : EngineProcess) : Prop := ∀ call ∈ p.calls, Idle call

/-- The call that wrote the row as it is has still to note it. -/
def Pending (collection key : Bytes) (p : EngineProcess) : Prop :=
  ∃ call ∈ p.calls, ∃ w, call.2 = .written w ∧ w.collection = collection ∧ w.key = key ∧
    p.engine.storage.getRaw collection key = .ok w.doc.encode

/-- A step that notes a document finds the writer of the row among those that have still to note,
and its document decodes.  The collections whose documents are noted or digested have no NUL byte
in their names. -/
def NotesInOrder (p : EngineProcess) : Event → Prop
  | .call _ => True
  | .advance i _ _ =>
    (∀ request w, p.calls[i]? = some (request, .written w) →
      0 ∉ w.collection ∧ p.Pending w.collection w.key ∧ ∃ doc, decode w.doc.encode = .ok doc) ∧
    ∀ collection rows, p.calls[i]? = some (.localDigest collection, .scanned rows) →
      0 ∉ collection

/-- The invariant of a run.  A cached fingerprint is that of the row, or will be replaced; a row
that was scanned is still there, or has been noted since, or will be. -/
structure Coherent (c : Crypto) (p : EngineProcess) : Prop where
  cache : ∀ collection key, 0 ∉ collection →
    Fresh c p.engine collection key ∨ p.Pending collection key
  scans : ∀ collection rows, (.localDigest collection, .scanned rows) ∈ p.calls → ∀ row ∈ rows,
    p.engine.storage.getRaw collection row.1 = .ok row.2 ∨
      (get p.engine.digestCache (digestCacheKey collection row.1)).isSome ∨
      p.Pending collection row.1

/-- When no write is in progress, nobody has still to note a row. -/
lemma Quiet.not_pending (h : p.Quiet) : ¬ p.Pending collection key := by
  rintro ⟨⟨request, stage⟩, hcall, w, rfl, -⟩
  have hidle := h _ hcall
  cases request <;> cases hidle

/-- A step of a call leaves a pending note pending, unless it is the call that has to note. -/
lemma Pending.step (p' : EngineProcess) (h : p.Pending collection key)
    (hi : p.calls[i]? = some (request, stage))
    (hcalls : p'.calls = p.calls.set i (request, stage'))
    (hrow : p'.engine.storage.getRaw collection key = p.engine.storage.getRaw collection key) :
    p'.Pending collection key ∨ ∃ w, stage = .written w ∧ w.collection = collection ∧
      w.key = key ∧ p.engine.storage.getRaw collection key = .ok w.doc.encode := by
  obtain ⟨call, hcall, w, hstage, hc, hk, hget⟩ := h
  obtain ⟨j, hj⟩ := mem_iff_getElem?.mp hcall
  by_cases hij : i = j
  · subst hij
    obtain rfl := Option.some.inj (hi.symm.trans hj)
    exact Or.inr ⟨w, hstage, hc, hk, hget⟩
  · refine Or.inl ⟨call, ?_, w, hstage, hc, hk, by rw [hrow, hget]⟩
    rw [hcalls]
    exact mem_of_getElem? (by rw [getElem?_set_ne hij, hj])

lemma fresh_congr {e e' : NodeEngine} (h : Fresh c e collection key)
    (hrow : e'.storage.getRaw collection key = e.storage.getRaw collection key)
    (hcache : get e'.digestCache (digestCacheKey collection key) =
      get e.digestCache (digestCacheKey collection key)) :
    Fresh c e' collection key := by
  intro entry hentry
  rw [hrow]
  exact h entry (hcache ▸ hentry)

/-- A step that leaves the rows and the cache alone, in a call that had nothing to note. -/
lemma Coherent.frame (h : p.Coherent c) (hi : p.calls[i]? = some (request, stage))
    (hcalls : p'.calls = p.calls.set i (request, stage'))
    (hrow : ∀ collection key, p'.engine.storage.getRaw collection key =
      p.engine.storage.getRaw collection key)
    (hcache : p'.engine.digestCache = p.engine.digestCache) (hstage : ∀ w, stage ≠ .written w)
    (hscan : ∀ collection rows, request = .localDigest collection → stage' = .scanned rows →
      rows = p.engine.storage.scan collection) : p'.Coherent c := by
  have hpending {collection key} (hp : p.Pending collection key) : p'.Pending collection key :=
    (hp.step p' hi hcalls (hrow _ _)).resolve_right fun ⟨w, hw, _⟩ => hstage w hw
  refine ⟨fun collection key h0 => ?_, fun collection rows hcall row hr => ?_⟩
  · rcases h.cache collection key h0 with hfresh | hp
    · exact Or.inl (fresh_congr hfresh (hrow _ _) (by rw [hcache]))
    · exact Or.inr (hpending hp)
  · rw [hrow, hcache]
    rw [hcalls] at hcall
    rcases mem_or_eq_of_mem_set hcall with hcall | hcall
    · exact (h.scans collection rows hcall row hr).imp_right (Or.imp_right hpending)
    · obtain ⟨hrequest, hstage'⟩ := Prod.mk.inj hcall
      rw [hscan collection rows hrequest.symm hstage'.symm] at hr
      exact Or.inl (mem_scan_iff.mp hr)

/-- The `PutRaw` of a call: its row is pending from now on. -/
lemma Coherent.write {w : RowWrite} {put : PutEnv} {storage : StorageEngine} (h : p.Coherent c)
    (hi : p.calls[i]? = some (request, .writing w))
    (hput : p.engine.storage.putRaw c put w.collection w.key w.doc.encode = (.ok (), storage)) :
    Coherent c ⟨{ p.engine with storage }, p.calls.set i (request, .written w)⟩ := by
  have hlt : i < p.calls.length := (List.getElem?_eq_some_iff.mp hi).1
  have hnew : Pending w.collection w.key
      ⟨{ p.engine with storage }, p.calls.set i (request, .written w)⟩ := by
    refine ⟨_, mem_set hlt (request, .written w), w, rfl, rfl, rfl, ?_⟩
    change storage.getRaw w.collection w.key = _
    rw [getRaw_putRaw hput, if_pos rfl]
  have hrow {collection key} (hne : ¬ (collection, key) = (w.collection, w.key)) :
      storage.getRaw collection key = p.engine.storage.getRaw collection key := by
    rw [getRaw_putRaw hput, if_neg hne]
  have hpending {collection key} (hne : ¬ (collection, key) = (w.collection, w.key))
      (hp : p.Pending collection key) : Pending collection key
        ⟨{ p.engine with storage }, p.calls.set i (request, .written w)⟩ :=
    (hp.step _ hi rfl (hrow hne)).resolve_right nofun
  refine ⟨fun collection key h0 => ?_, fun collection rows hcall row hr => ?_⟩
  · by_cases heq : (collection, key) = (w.collection, w.key)
    · obtain ⟨rfl, rfl⟩ := Prod.mk.inj heq
      exact Or.inr hnew
    · exact (h.cache collection key h0).imp (fun hf => fresh_congr hf (hrow heq) rfl)
        (hpending heq)
  · rcases mem_or_eq_of_mem_set hcall with hcall | hcall
    · by_cases heq : (collection, row.1) = (w.collection, w.key)
      · obtain ⟨rfl, hkey⟩ := Prod.mk.inj heq
        rw [hkey]
        exact Or.inr (Or.inr hnew)
      · refine (h.scans collection rows hcall row hr).imp (fun hg => ?_)
          (Or.imp_right (hpending heq))
        exact (hrow heq).trans hg
    · cases (Prod.mk.inj hcall).2

/-- The `NoteDigest` of a call whose document decodes, while the writer of the row is pending. -/
lemma Coherent.note {w : RowWrite} {env : WriteEnv} (h : p.Coherent c)
    (hi : p.calls[i]? = some (request, .written w)) (h0 : 0 ∉ w.collection)
    (hwriter : p.Pending w.collection w.key) {doc : CrdtValue}
    (hdecode : decode w.doc.encode = .ok doc) :
    Coherent c ⟨p.engine.finishCall c env w, p.calls.set i (request, .done w)⟩ := by
  obtain ⟨entry, hentry⟩ : ∃ entry, digestEntry c w.key w.doc.encode = some entry := by
    rw [digestEntry, hdecode]
    exact ⟨_, rfl⟩
  have hcache : (p.engine.finishCall c env w).digestCache =
      set p.engine.digestCache (digestCacheKey w.collection w.key) entry := by
    rw [digestCache_finishCall, noteDigest, hentry]
  have hrow (collection key : Bytes) : (p.engine.finishCall c env w).storage.getRaw collection key =
      p.engine.storage.getRaw collection key := by rw [storage_finishCall]
  -- only the note of this call is no longer pending
  have hpending {collection key} (hp : p.Pending collection key) : Pending collection key
      ⟨p.engine.finishCall c env w, p.calls.set i (request, .done w)⟩ ∨
        (w.collection = collection ∧ w.key = key ∧
          p.engine.storage.getRaw collection key = .ok w.doc.encode) := by
    refine (hp.step ⟨p.engine.finishCall c env w, p.calls.set i (request, .done w)⟩ hi rfl
      (hrow _ _)).imp_right ?_
    rintro ⟨w', hw, hown⟩
    obtain rfl := Stage.written.inj hw
    exact hown
  refine ⟨fun collection key h0' => ?_, fun collection rows hcall row hr => ?_⟩
  · by_cases heq : digestCacheKey collection key = digestCacheKey w.collection w.key
    · obtain ⟨rfl, rfl⟩ := digestCacheKey_inj h0' h0 heq
      rcases hpending hwriter with hp | ⟨-, -, hget⟩
      · exact Or.inr hp
      · refine Or.inl fun entry' hentry' => ⟨w.doc.encode, by rw [hrow, hget], ?_⟩
        rw [hcache, get_set_self] at hentry'
        rw [hentry, hentry']
    · rcases h.cache collection key h0' with hfresh | hp
      · refine Or.inl (fresh_congr hfresh (hrow _ _) ?_)
        rw [hcache, get_set_of_ne heq]
      · refine Or.inr ((hpending hp).resolve_right ?_)
        rintro ⟨rfl, rfl, -⟩
        exact heq rfl
  · have hcall : (.localDigest collection, .scanned rows) ∈ p.calls := by
      rcases mem_or_eq_of_mem_set hcall with hcall | hcall
      · exact hcall
      · cases (Prod.mk.inj hcall).2
    rw [hrow, hcache, get_set]
    rcases h.scans collection rows hcall row hr with hget | hcached | hp
    · exact Or.inl hget
    · refine Or.inr (Or.inl ?_)
      split_ifs
      · rfl
      · exact hcached
    · rcases hpending hp with hp | ⟨rfl, hkey, -⟩
      · exact Or.inr (Or.inr hp)
      · exact Or.inr (Or.inl (by rw [if_pos (by rw [hkey])]; rfl))

/-- The loop of a `LocalDigest` over the rows it has scanned. -/
lemma Coherent.fill {rows : List (Bytes × Bytes)} (h : p.Coherent c)
    (hi : p.calls[i]? = some (.localDigest collection, .scanned rows)) (h0 : 0 ∉ collection) :
    let fill := fillDigest c collection p.engine.digestCache rows
    Coherent c ⟨{ p.engine with digestCache := fill.2 },
      p.calls.set i (.localDigest collection, .digested fill.1)⟩ := by
  intro fill
  have hpending {collection' key} (hp : p.Pending collection' key) : Pending collection' key
      ⟨{ p.engine with digestCache := fill.2 },
        p.calls.set i (.localDigest collection, .digested fill.1)⟩ :=
    (hp.step ⟨{ p.engine with digestCache := fill.2 },
      p.calls.set i (.localDigest collection, .digested fill.1)⟩ hi rfl rfl).resolve_right nofun
  refine ⟨fun collection' key h0' => ?_, fun collection' rows' hcall row hr => ?_⟩
  · rcases h.cache collection' key h0' with hfresh | hp
    · rcases get_fillDigest c collection p.engine.digestCache rows
          (digestCacheKey collection' key) with hsame | ⟨hnone, row, hrow, hkey, hget⟩
      · exact Or.inl (fresh_congr hfresh rfl hsame)
      · -- a new entry, of a row that was scanned
        obtain ⟨rfl, rfl⟩ := digestCacheKey_inj h0 h0' hkey
        rcases h.scans collection rows (mem_of_getElem? hi) row hrow with hrow | hcached | hp
        · exact Or.inl fun entry hentry => ⟨row.2, hrow, hget.symm.trans hentry⟩
        · rw [hnone] at hcached
          cases hcached
        · exact Or.inr (hpending hp)
    · exact Or.inr (hpending hp)
  · have hcall : (.localDigest collection', .scanned rows') ∈ p.calls := by
      rcases mem_or_eq_of_mem_set hcall with hcall | hcall
      · exact hcall
      · cases (Prod.mk.inj hcall).2
    refine (h.scans collection' rows' hcall row hr).imp_right (Or.imp ?_ hpending)
    intro hcached
    obtain ⟨entry, hentry⟩ := Option.isSome_iff_exists.mp hcached
    have hstill : get fill.2 (digestCacheKey collection' row.1) = some entry :=
      get_fillDigest_of_some hentry
    exact Option.isSome_iff_exists.mpr ⟨entry, hstill⟩

/-- Every step keeps the invariant. -/
lemma coherent_step (p : EngineProcess) (event : Event) (hok : p.NotesInOrder event)
    (h : p.Coherent c) : (step c p event).1.Coherent c := by
  cases event with
  | call request =>
    have hpending {collection key} (hp : p.Pending collection key) :
        Pending collection key ⟨p.engine, p.calls ++ [(request, .called)]⟩ := by
      obtain ⟨call, hcall, hw⟩ := hp
      exact ⟨call, mem_append_left _ hcall, hw⟩
    refine ⟨fun collection key h0 => (h.cache collection key h0).imp_right hpending,
      fun collection rows hcall row hr => ?_⟩
    rcases mem_append.mp hcall with hcall | hcall
    · exact (h.scans collection rows hcall row hr).imp_right (Or.imp_right hpending)
    · cases (Prod.mk.inj (mem_singleton.mp hcall)).2
  | advance i env appended =>
    cases hi : p.calls[i]? with
    | none =>
      rw [step, hi]
      exact h
    | some call =>
      obtain ⟨request, stage⟩ := call
      have hstep : (step c p (.advance i env appended)).1 =
          ⟨(p.engine.advance c env appended request stage).2, p.calls.set i (request,
            (p.engine.advance c env appended request stage).1)⟩ := by
        rw [step, hi]
      rw [hstep]
      rcases p.engine.advance_cases c env appended request stage with
        ⟨w, rfl, hadvance⟩ | ⟨w, rfl, hadvance⟩ | ⟨collection, rows, rfl, rfl, hadvance⟩ |
          ⟨hstorage, hcache, -, hstage⟩
      · rw [hadvance, writeCall]
        rcases hput : p.engine.storage.putRaw c env.put w.collection w.key w.doc.encode with
          ⟨st | _, storage⟩
        · exact h.frame hi rfl (getRaw_putRaw_of_error hput) rfl (by rintro _ ⟨⟩)
            (by rintro _ _ - ⟨⟩)
        · exact h.write hi hput
      · rw [hadvance]
        dsimp only
        obtain ⟨h0, hwriter, doc, hdecode⟩ := hok.1 request w hi
        exact h.note hi h0 hwriter hdecode
      · rw [hadvance]
        exact h.fill hi (hok.2 collection rows hi)
      · refine h.frame hi rfl (fun _ _ => by rw [hstorage]) hcache hstage ?_
        rintro collection rows rfl hscanned
        exact advance_eq_scanned hscanned

/-- Two merges, one after the other up to the write, that note in the opposite order. -/
def crossedNotes : List Event :=
  [.call (sampleMerge "x" 1), sampleAdvance 0, sampleAdvance 0, sampleAdvance 0,
    .call (sampleMerge "y" 2), sampleAdvance 1, sampleAdvance 1, sampleAdvance 1,
    sampleAdvance 1, sampleAdvance 0]

/-- A step that neither notes nor digests is in order. -/
lemma notesInOrder_of_stage {env : WriteEnv} {appended : Except Status Unit} (stage : Stage)
    (hi : p.calls[i]? = some (request, stage)) (hw : ∀ w, stage ≠ .written w)
    (hs : ∀ rows, stage ≠ .scanned rows) : p.NotesInOrder (.advance i env appended) := by
  refine ⟨fun request' w h => ?_, fun collection rows h => ?_⟩
  · rw [hi] at h
    exact absurd (Prod.mk.inj (Option.some.inj h)).2 (hw w)
  · rw [hi] at h
    exact absurd (Prod.mk.inj (Option.some.inj h)).2 (hs rows)

end EngineProcess

end DeSentry
