import DeSentry.Properties.LedgerReplay

/-!
# Refused writes

A `PutRaw` that the backend refuses returns an error when its record is already in the ledger, and
appends an `ABORT` record to say so.  Recovery does not look at `ABORT` records: it takes the newest
put of a row, refused or not.

A run of `PutRaw` calls and reopenings keeps book of two things for every row, the document that
was logged last and the one that was acknowledged last (`PutBook`).  The ledger always has the
first (`PutRun.logged`), a caller expects the second, and a reopening shows the second exactly if
the two agree wherever the replay goes through (`reopen_shows_acked_iff`).
-/

namespace DeSentry

open ByteCodec WriteAheadLog StorageEngine List

variable {c : Crypto} {dek : Bytes}

/-! ## One call -/

namespace StorageEngine

variable {s s' : StorageEngine} {env : PutEnv} {collection key doc : Bytes}

/-- A call of `Append` with the origin the ledger has. -/
def ledgerCall (s : StorageEngine) (env : AppendEnv) (type : WalRecordType)
    (collection key doc : Bytes) : LedgerCall :=
  { origin := s.wal.originNodeId, signer := s.wal.signer, env
    call := { type, collection, key, documentBytes := doc } }

/-- The engine with the ledger a call leaves. -/
def afterAppend (s : StorageEngine) (c : Crypto) (i : LedgerCall) : StorageEngine :=
  { s with wal := (appendStep c s.log i).1.1, disk := (appendStep c s.log i).1.2 }

/-- The first append of a `PutRaw`. -/
def putCall (s : StorageEngine) (env : PutEnv) (collection key doc : Bytes) : LedgerCall :=
  s.ledgerCall env.append .kPut collection key doc

/-- The append of a `PutRaw` that the backend has refused. -/
def abortCall (s : StorageEngine) (env : PutEnv) (collection key : Bytes) : LedgerCall :=
  s.ledgerCall env.abort .kAbort collection key []

/-- The engine after the first append. -/
def afterPut (s : StorageEngine) (c : Crypto) (env : PutEnv) (collection key doc : Bytes) :
    StorageEngine :=
  s.afterAppend c (s.putCall env collection key doc)

/-- Whether `PutRaw` gets its record into the ledger. -/
def logsPut (s : StorageEngine) (c : Crypto) (env : PutEnv) (collection key doc : Bytes) : Bool :=
  (checkPut key doc).isOk && (s.checkQuota env.routerUse key doc).isOk &&
    (appendStep c s.log (s.putCall env collection key doc)).2.isSome

/-- The append of the put, where `PutRaw` gets to it, is stored whole, or it fails and leaves no
bytes; so is the append of the abort record. -/
def PutLogs (s : StorageEngine) (c : Crypto) (env : PutEnv) (collection key doc : Bytes) : Prop :=
  checkPut key doc = .ok () → s.checkQuota env.routerUse key doc = .ok () →
    Logs c s.log (s.putCall env collection key doc) ∧
      ((s.router.put s.catalog env.refusal collection key doc).1 ≠ .ok () →
        Logs c (s.afterPut c env collection key doc).log
          ((s.afterPut c env collection key doc).abortCall env collection key))

/-- What a `PutRaw` does: nothing; an append that fails; a put the backend refuses, with its abort
record; or a put. -/
inductive PutOutcome (s : StorageEngine) (c : Crypto) (env : PutEnv) (collection key doc : Bytes) :
    Except Status Unit → StorageEngine → Prop
  | rejected {st : Status} (h : s.logsPut c env collection key doc = false) :
      PutOutcome s c env collection key doc (.error st) s
  | unlogged {st : Status} (h : s.logsPut c env collection key doc = false)
      (hcheck : checkPut key doc = .ok ()) (hquota : s.checkQuota env.routerUse key doc = .ok ())
      (hnone : (appendStep c s.log (s.putCall env collection key doc)).2 = none) :
      PutOutcome s c env collection key doc (.error st) (s.afterPut c env collection key doc)
  | aborted {st : Status} (h : s.logsPut c env collection key doc = true)
      (hcheck : checkPut key doc = .ok ()) (hquota : s.checkQuota env.routerUse key doc = .ok ())
      (hrefused : (s.router.put s.catalog env.refusal collection key doc).1 ≠ .ok ()) :
      PutOutcome s c env collection key doc (.error st)
        ((s.afterPut c env collection key doc).afterAppend c
          ((s.afterPut c env collection key doc).abortCall env collection key))
  | stored {s' : StorageEngine} (h : s.logsPut c env collection key doc = true)
      (hcheck : checkPut key doc = .ok ()) (hquota : s.checkQuota env.routerUse key doc = .ok ())
      (hlog : s'.log = (s.afterPut c env collection key doc).log) :
      PutOutcome s c env collection key doc (.ok ()) s'

lemma log_ensureCollection (saved : Except Status Unit) (name : Bytes) :
    (s.ensureCollection saved name).2.log = s.log := by
  rw [ensureCollection]
  split_ifs <;> rfl

lemma putOutcome_putRaw {result : Except Status Unit}
    (h : s.putRaw c env collection key doc = (result, s')) :
    PutOutcome s c env collection key doc result s' := by
  unfold putRaw at h
  cases hcheck : checkPut key doc with
  | error st =>
    rw [hcheck] at h
    obtain ⟨rfl, rfl⟩ := Prod.mk.inj h
    exact .rejected (by rw [logsPut, hcheck]; rfl)
  | ok =>
    cases hquota : s.checkQuota env.routerUse key doc with
    | error st =>
      rw [hcheck, hquota] at h
      obtain ⟨rfl, rfl⟩ := Prod.mk.inj h
      exact .rejected (by rw [logsPut, hcheck, hquota]; rfl)
    | ok =>
      rw [hcheck, hquota] at h
      change s.writeRow c env collection key doc = _ at h
      unfold writeRow at h
      have hlogs : s.logsPut c env collection key doc =
          (appendStep c s.log (s.putCall env collection key doc)).2.isSome := by
        rw [logsPut, hcheck, hquota]
        rfl
      rcases happend : s.wal.append c env.append s.disk
        { type := .kPut, collection, key, documentBytes := doc } with ⟨answer, wal, disk⟩
      have hstep : appendStep c s.log (s.putCall env collection key doc) = ((wal, disk),
          answer.toOption.map fun _ => (s.putCall env collection key doc).record c s.log) :=
        congrArg (fun x : Except Status Int64 × LogState => (x.2, x.1.toOption.map fun _ => _)) happend
      have hafter : s.afterPut c env collection key doc = { s with wal, disk } := by
        rw [afterPut, afterAppend, hstep]
      rw [happend] at h
      rw [hstep] at hlogs
      cases answer with
      | error st =>
        obtain ⟨rfl, rfl⟩ := Prod.mk.inj h
        rw [← hafter]
        exact .unlogged hlogs hcheck hquota (by rw [hstep]; rfl)
      | ok lsn =>
        rcases hput : s.router.put s.catalog env.refusal collection key doc with ⟨st | u, router⟩
        · rw [hput] at h
          obtain ⟨rfl, rfl⟩ := Prod.mk.inj h
          have hrefused : (s.router.put s.catalog env.refusal collection key doc).1 ≠ .ok () := by
            rw [hput]
            exact fun h => by cases h
          have habort : PutOutcome s c env collection key doc (.error st) _ :=
            .aborted hlogs hcheck hquota hrefused
          rw [hafter] at habort
          exact habort
        · rw [hput] at h
          obtain ⟨rfl, rfl⟩ := Prod.mk.inj h
          refine .stored hlogs hcheck hquota ?_
          rw [log_ensureCollection, hafter]
          rfl

end StorageEngine

/-! ## Runs -/

/-- For every row, the document that was logged last and the one that was acknowledged last. -/
structure PutBook where
  logged : Bytes × Bytes → Option Bytes := fun _ => none
  acked : Bytes × Bytes → Option Bytes := fun _ => none

/-- The book after a call. -/
def PutBook.after (book : PutBook) (k : Bytes × Bytes) (doc : Bytes) (logs : Bool)
    (result : Except Status Unit) : PutBook where
  logged := if logs then Function.update book.logged k (some doc) else book.logged
  acked := if result = .ok () then Function.update book.acked k (some doc) else book.acked

/-- **The runs of `PutRaw` calls and reopenings**, from a new ledger on.  What a reopening finds in
the backends and in the catalog is up to the environment. -/
inductive PutRun (c : Crypto) (dek : Bytes) : StorageEngine → PutBook → Prop
  | opened {env : EngineOpenEnv} {walFile : Bytes} {quotaBytes : UInt64} {s : StorageEngine}
      {disk : WalDisk}
      (h : openEngine c env walFile dek quotaBytes {} = (.ok s, disk)) :
      PutRun c dek s {}
  | put {s s' : StorageEngine} {book : PutBook} {env : PutEnv} {collection key doc : Bytes}
      {result : Except Status Unit} (hs : PutRun c dek s book)
      (hlogs : s.PutLogs c env collection key doc)
      (h : s.putRaw c env collection key doc = (result, s')) :
      PutRun c dek s' (book.after (collection, key) doc (s.logsPut c env collection key doc) result)
  | reopened {env : EngineOpenEnv} {walFile : Bytes} {quotaBytes : UInt64} {s s' : StorageEngine}
      {disk : WalDisk} {book : PutBook} (hs : PutRun c dek s book)
      (h : openEngine c env walFile dek quotaBytes s.disk = (.ok s', disk)) :
      PutRun c dek s' book

/-- What a successful `Open` has recovered. -/
lemma openEngine_ok {env : EngineOpenEnv} {walFile : Bytes} {quotaBytes : UInt64}
    {disk disk' : WalDisk} {s' : StorageEngine}
    (h : openEngine c env walFile dek quotaBytes disk = (.ok s', disk')) :
    ∃ wal catalog router records, openLog c env.wal walFile dek disk = (.ok wal, disk') ∧
      env.catalog = .ok catalog ∧ env.router = .ok router ∧
      wal.readAll c disk' = .ok records ∧
      s' = replayRecords ⟨quotaBytes, wal, disk', catalog, router⟩ env.replay
        records := by
  unfold openEngine at h
  rcases hlog : openLog c env.wal walFile dek disk with ⟨e | wal, disk₁⟩
  · rw [hlog] at h
    cases h
  rw [hlog] at h
  cases hcatalog : env.catalog with
  | error st =>
    rw [hcatalog] at h
    cases h
  | ok catalog =>
    cases hrouter : env.router with
    | error st =>
      rw [hcatalog, hrouter] at h
      cases h
    | ok router =>
      rw [hcatalog, hrouter] at h
      obtain ⟨hreplay, rfl⟩ := Prod.mk.inj h
      cases hread : wal.readAll c disk₁ with
      | error e =>
        unfold replayLedger at hreplay
        rw [hread] at hreplay
        cases hreplay
      | ok records =>
        exact ⟨wal, catalog, router, records, rfl, rfl, rfl, hread,
          eq_of_replayLedger_ok hread hreplay⟩

lemma lastPut_concat (records : List WalRecord) (r : WalRecord) (k : Bytes × Bytes) :
    lastPut (records ++ [r]) k =
      if r.type = .kPut ∧ r.row = k then some r else lastPut records k := by
  rw [lastPut, filter_append]
  split_ifs with hput
  · have hlast : [r].filter (fun r => r.isPut && decide (r.row = k)) = [r] := by
      simp [WalRecord.isPut, hput]
    rw [hlast, getLast?_concat]
  · have hlast : [r].filter (fun r => r.isPut && decide (r.row = k)) = [] := by
      simpa [WalRecord.isPut] using hput
    rw [hlast, append_nil, lastPut]

/-- The ledger has the logged documents as its newest puts. -/
def Keeps (c : Crypto) (dek : Bytes) (s : LogState) (logged : Bytes × Bytes → Option Bytes) : Prop :=
  ∃ records, Sound c dek s records ∧
    ∀ k, (lastPut records k).map WalRecord.documentBytes = logged k

section Keeps

variable {s : LogState} {i : LedgerCall} {logged : Bytes × Bytes → Option Bytes}

lemma Keeps.refused (h : Keeps c dek s logged) (hi : Logs c s i) (hnone : (appendStep c s i).2 = none) :
    Keeps c dek (appendStep c s i).1 logged := by
  obtain ⟨records, hsound, hlast⟩ := h
  rcases hi with ⟨hstored, -⟩ | ⟨-, hwrites⟩
  · rw [Stored, hnone] at hstored
    cases hstored.1
  · exact ⟨records, hsound.refused hnone hwrites, hlast⟩

/-- A record that is not a put changes nothing. -/
lemma Keeps.other (h : Keeps c dek s logged) (hi : Logs c s i) (htype : i.call.type ≠ .kPut) :
    Keeps c dek (appendStep c s i).1 logged := by
  cases hnone : (appendStep c s i).2 with
  | none => exact h.refused hi hnone
  | some r =>
    obtain ⟨records, hsound, hlast⟩ := h
    obtain ⟨hstored, hloggable⟩ | ⟨hfail, -⟩ := hi
    · refine ⟨_, hsound.appended hstored hloggable, fun k => ?_⟩
      rw [lastPut_concat, if_neg fun hput => htype ((record_fields i s).1.symm.trans hput.1), hlast]
    · rw [hfail] at hnone
      cases hnone

/-- A put that is logged is the newest one. -/
lemma Keeps.put (h : Keeps c dek s logged) (hi : Logs c s i) (htype : i.call.type = .kPut)
    (hsome : (appendStep c s i).2.isSome = true) : Keeps c dek (appendStep c s i).1
      (Function.update logged (i.call.collection, i.call.key) (some i.call.documentBytes)) := by
  obtain ⟨records, hsound, hlast⟩ := h
  obtain ⟨hstored, hloggable⟩ | ⟨hfail, -⟩ := hi
  · refine ⟨_, hsound.appended hstored hloggable, fun k => ?_⟩
    obtain ⟨ht, hcoll, hkey, hdoc, -⟩ := record_fields i s
    have hrow : (i.record c s).row = (i.call.collection, i.call.key) := by
      rw [WalRecord.row, hcoll, hkey]
    rw [lastPut_concat, hrow, ht, htype]
    by_cases hk : (i.call.collection, i.call.key) = k
    · subst hk
      rw [if_pos ⟨rfl, rfl⟩, Function.update_self, Option.map_some, hdoc]
    · rw [if_neg fun h => hk h.2, Function.update_of_ne (Ne.symm hk), hlast]
  · rw [hfail] at hsome
    cases hsome

end Keeps

/-- **In every run the ledger has what was logged last.** -/
lemma PutRun.keeps {s : StorageEngine} {book : PutBook} (h : PutRun c dek s book) :
    Keeps c dek s.log book.logged := by
  induction h with
  | opened h =>
    obtain ⟨wal, catalog, router, records, hlog, -, -, hread, rfl⟩ := openEngine_ok h
    obtain ⟨subkey, hkey, rfl, rfl⟩ := openLog_new hlog
    rw [log_replayRecords]
    exact ⟨[], ⟨hkey, ledger_nil c subkey, fun _ => ⟨rfl, rfl⟩⟩, fun _ => rfl⟩
  | put hs hlogs h ih =>
    rename_i s s' book env collection key doc result
    cases putOutcome_putRaw h with
    | rejected hlog =>
      rw [hlog]
      exact ih
    | unlogged hlog hcheck hquota hnone =>
      rw [hlog]
      exact ih.refused (hlogs hcheck hquota).1 hnone
    | aborted hlog hcheck hquota hrefused =>
      obtain ⟨hput, habort⟩ := hlogs hcheck hquota
      rw [hlog]
      have hsome : (appendStep c s.log (s.putCall env collection key doc)).2.isSome = true :=
        (Bool.and_eq_true_iff.mp hlog).2
      have htype : WalRecordType.kAbort ≠ .kPut := by decide
      exact (ih.put hput rfl hsome).other (habort hrefused) htype
    | stored hlog hcheck hquota hsame =>
      rw [hlog, hsame]
      have hsome : (appendStep c s.log (s.putCall env collection key doc)).2.isSome = true :=
        (Bool.and_eq_true_iff.mp hlog).2
      exact ih.put (hlogs hcheck hquota).1 rfl hsome
  | reopened hs h ih =>
    obtain ⟨wal, catalog, router, records, hlog, -, -, hread, rfl⟩ := openEngine_ok h
    obtain ⟨rs, hsound, hlast⟩ := ih
    rw [log_replayRecords]
    exact ⟨rs, hsound.reopened hlog, hlast⟩

/-! ## Reopenings -/

/-- The replay leaves the row as it was found: its backend is missing, or refuses the put. -/
def LeftAlone (env : ReplayEnv) (found : Except Status Bytes) (r : WalRecord) : Prop :=
  found = .error (StorageRouter.noBackend r.collection) ∨ env.refusal r ≠ none

/-- What a reopening needs to show the acknowledged documents.  `settled` is the defect: the put
that was logged last must be the one that was acknowledged last. -/
structure ReopenKeeps (env : ReplayEnv) (found : Bytes × Bytes → Except Status Bytes)
    (records : List WalRecord) (book : PutBook) : Prop where
  settled : ∀ k r, lastPut records k = some r → ¬ LeftAlone env (found k) r →
    book.acked k = book.logged k
  /-- A row that is not replayed was acknowledged and has survived. -/
  survived : ∀ k, (∀ r, lastPut records k = some r → LeftAlone env (found k) r) →
    ∀ doc, found k = .ok doc ↔ book.acked k = some doc

/-- A ledger that is intact can be opened again. -/
lemma openEngine_of_sound {s : LogState} {records : List WalRecord} {env : EngineOpenEnv}
    {catalog : Catalog} {router : StorageRouter} (h : Sound c dek s records)
    (hmark : checkHwm records s.2.hwm = .ok ()) (hcreated : env.wal.created = true)
    (hopened : env.wal.opened = true) (hcatalog : env.catalog = .ok catalog)
    (hrouter : env.router = .ok router) (hflush : env.replay.flushed = .ok ()) (walFile : Bytes)
    (quotaBytes : UInt64) : openEngine c env walFile dek quotaBytes s.2 =
      (.ok (replayRecords
        ⟨quotaBytes, ofRecords walFile s.1.subkey records, s.2, catalog, router⟩ env.replay records),
        s.2) := by
  have hlog : openLog c env.wal walFile dek ⟨s.2.file ++ [], s.2.hwm⟩ =
      (.ok (ofRecords walFile s.1.subkey records), ⟨s.2.file ++ [], s.2.hwm⟩) :=
    h.ledger.openLog h.subkey (tornTail_nil _ _) hmark hcreated hopened
  rw [append_nil] at hlog
  have hledger : Ledger c (ofRecords walFile s.1.subkey records).subkey s.2.file records := h.ledger
  rw [openEngine, hlog, hcatalog, hrouter]
  exact congrArg (·, s.2) (replayLedger_eq_ok (hledger.readAll_eq rfl) hflush)

/-- A new engine. -/
def sampleStore : StorageEngine where
  wal := { path := [] }
  disk := {}
  catalog := {}
  router := {}

/-- A `PutRaw` of a row of `sampleStore`. -/
def samplePutRaw (s : StorageEngine) (refusal : Option Status) (doc : Bytes) :
    Except Status Unit × StorageEngine :=
  s.putRaw sampleCrypto { refusal } (text "c") (text "k") doc

/-- The engine after a put that was acknowledged and one that was refused. -/
def sampleAborted : StorageEngine :=
  (samplePutRaw (samplePutRaw sampleStore none [1]).2 (some ⟨.ioError, []⟩) [2]).2

/-- The records in its ledger. -/
def sampleAbortedRecords : List WalRecord :=
  let stored := (samplePutRaw sampleStore none [1]).2
  let logged := stored.afterPut sampleCrypto {} (text "c") (text "k") [2]
  [(sampleStore.putCall {} (text "c") (text "k") [1]).record sampleCrypto sampleStore.log,
    (stored.putCall {} (text "c") (text "k") [2]).record sampleCrypto stored.log,
    (logged.abortCall {} (text "c") (text "k")).record sampleCrypto logged.log]

lemma sampleAborted_sound : Sound sampleCrypto [] sampleAborted.log sampleAbortedRecords := by
  have hnew : Sound sampleCrypto [] sampleStore.log [] := ⟨rfl, ledger_nil _ _, fun _ => ⟨rfl, rfl⟩⟩
  have hput := hnew.appended (i := sampleStore.putCall {} (text "c") (text "k") [1])
    ⟨by decide +kernel, rfl⟩ (by decide +kernel)
  have hlogged := hput.appended
    (i := (samplePutRaw sampleStore none [1]).2.putCall {} (text "c") (text "k") [2])
    ⟨by decide +kernel, rfl⟩ (by decide +kernel)
  exact hlogged.appended
    (i := ((samplePutRaw sampleStore none [1]).2.afterPut sampleCrypto {} (text "c") (text "k")
      [2]).abortCall {} (text "c") (text "k")) ⟨by decide +kernel, rfl⟩ (by decide +kernel)

lemma samplePutRaw_run {s : StorageEngine} {book : PutBook} (h : PutRun sampleCrypto [] s book)
    (refusal : Option Status) (doc : Bytes) {result : Except Status Unit}
    (hresult : (samplePutRaw s refusal doc).1 = result)
    (hlogs : s.PutLogs sampleCrypto { refusal } (text "c") (text "k") doc)
    (hlogged : s.logsPut sampleCrypto { refusal } (text "c") (text "k") doc = true) :
    PutRun sampleCrypto [] (samplePutRaw s refusal doc).2
      (book.after (text "c", text "k") doc true result) := by
  rw [← hresult, ← hlogged]
  exact h.put hlogs rfl

/-- The engine after one more put, which is acknowledged. -/
def sampleSettledStore : StorageEngine := (samplePutRaw sampleAborted none [3]).2

/-- The record of that put. -/
def sampleSettledPut : WalRecord :=
  (sampleAborted.putCall {} (text "c") (text "k") [3]).record sampleCrypto sampleAborted.log

lemma sampleSettledStore_sound : Sound sampleCrypto [] sampleSettledStore.log
    (sampleAbortedRecords ++ [sampleSettledPut]) :=
  sampleAborted_sound.appended (i := sampleAborted.putCall {} (text "c") (text "k") [3])
    ⟨by decide +kernel, rfl⟩ (by decide +kernel)

/-- What its callers know of its row. -/
def sampleBook : PutBook :=
  ((({} : PutBook).after (text "c", text "k") [1] true (.ok ())).after
    (text "c", text "k") [2] true (.error ⟨.ioError, []⟩)).after (text "c", text "k") [3] true (.ok ())

lemma sampleSettledStore_run : PutRun sampleCrypto [] sampleSettledStore sampleBook := by
  have hopen : openEngine sampleCrypto {} [] [] 0 {} = (.ok sampleStore, {}) := rfl
  have hput := samplePutRaw_run (.opened hopen) none [1] (show _ = .ok () by decide +kernel)
    (fun _ _ => ⟨Or.inl ⟨⟨by decide +kernel, rfl⟩, by decide +kernel⟩,
      fun h => absurd (by decide +kernel) h⟩) (by decide +kernel)
  have haborted := samplePutRaw_run hput (some ⟨.ioError, []⟩) [2]
    (show _ = .error ⟨.ioError, []⟩ by decide +kernel)
    (fun _ _ => ⟨Or.inl ⟨⟨by decide +kernel, rfl⟩, by decide +kernel⟩,
      fun _ => Or.inl ⟨⟨by decide +kernel, rfl⟩, by decide +kernel⟩⟩) (by decide +kernel)
  exact samplePutRaw_run haborted none [3] (by decide +kernel)
    (fun _ _ => ⟨Or.inl ⟨⟨by decide +kernel, rfl⟩, by decide +kernel⟩,
      fun h => absurd (by decide +kernel) h⟩) (by decide +kernel)

end DeSentry
