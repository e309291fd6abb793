import DeSentry.Construction.Storage.PutCalls
import DeSentry.Properties.AbortedPuts

/-!
# The order of the ledger and the order of the rows

Two calls of `PutRaw` on one row append in one order and may put in the other.  Then the row has the
document of the older record when both have returned, and a restart, which puts the newest record,
changes it (`late_put_wins`).

Whatever the schedule, a row without a call in progress has the document of its newest record
exactly as long as the call that leaves the row alone is the one of that record, or has the same
bytes (`Settles`).  Under that condition the ledger and the rows agree whenever no call is in
progress, and a `ReplayLedger` changes nothing that is visible (`rows_follow_ledger_iff`).
-/

namespace DeSentry

open ByteCodec WriteAheadLog Runs StorageEngine List

variable {c : Crypto} {dek : Bytes}

/-- The row a call is about. -/
def PendingPut.row (call : PendingPut) : Bytes × Bytes := (call.collection, call.key)

namespace PutProcess

variable {p : PutProcess}

/-- No call on the row is in progress. -/
def Idle (p : PutProcess) (k : Bytes × Bytes) : Prop := ∀ call ∈ p.pending, call.row ≠ k

/-- The rows that are left alone have the documents of their newest records. -/
def RowsAgree (c : Crypto) (p : PutProcess) : Prop :=
  ∀ records, p.engine.wal.readAll c p.engine.disk = .ok records → ∀ k, p.Idle k →
    ∀ r, lastPut records k = some r → p.engine.shows k = .ok r.documentBytes

/-- The call to the ledger of a first step. -/
def putCall (p : PutProcess) (env : AppendEnv) (collection key doc : Bytes) : LedgerCall :=
  p.engine.ledgerCall env .kPut collection key doc

/-- The record of a first step is in the ledger, whole and as the reader accepts it. -/
def Whole (c : Crypto) (p : PutProcess) : PutEvent → Prop
  | .append env _ collection key doc => env.reached = none ∧
    ((p.putCall env collection key doc).record c p.engine.log).Loggable p.engine.wal.subkey
  | .put .. => True

/-- The step does not fail. -/
def Completes (c : Crypto) (p : PutProcess) (event : PutEvent) : Prop :=
  (∀ st, (p.step c event).2 ≠ some (.error st)) ∧ p.Whole c event

/-- A put that leaves its row alone has the document of the row's newest record. -/
def Settles (c : Crypto) (p : PutProcess) (event : PutEvent) : Prop :=
  match event with
  | .append .. => True
  | .put i .. => ∀ call, p.pending[i]? = some call →
      (∀ other ∈ p.pending.eraseIdx i, other.row ≠ call.row) →
        ∀ records, p.engine.wal.readAll c p.engine.disk = .ok records →
          ∀ r, lastPut records call.row = some r → call.doc = r.documentBytes

/-! ## The steps -/

/-- A first step that does not fail. -/
lemma append_completes {env : AppendEnv} {routerUse : UInt64} {collection key doc : Bytes}
    (h : p.Completes c (.append env routerUse collection key doc)) :
    let i := p.putCall env collection key doc
    Stored c p.engine.log i ∧ ∃ lsn,
      (p.step c (.append env routerUse collection key doc)).1 =
        { engine := p.engine.afterAppend c i
          pending := p.pending ++ [⟨collection, key, doc, lsn⟩] } := by
  intro i
  obtain ⟨hanswer, hreached, -⟩ := h
  have hstep : p.step c (.append env routerUse collection key doc) =
      p.logPut c env routerUse collection key doc := rfl
  rw [hstep] at hanswer ⊢
  unfold logPut at hanswer ⊢
  cases hcheck : checkPut key doc with
  | error st =>
    rw [hcheck] at hanswer
    exact absurd rfl (hanswer st)
  | ok =>
    cases hquota : p.engine.checkQuota routerUse key doc with
    | error st =>
      rw [hcheck, hquota] at hanswer
      exact absurd rfl (hanswer st)
    | ok =>
      rcases happend : p.engine.wal.append c env p.engine.disk
        { type := .kPut, collection, key, documentBytes := doc } with ⟨st | lsn, wal, disk⟩
      · rw [hcheck, hquota, happend] at hanswer
        exact absurd rfl (hanswer st)
      have hlog : appendStep c p.engine.log i = ((wal, disk), some (i.record c p.engine.log)) :=
        congrArg (fun x : Except Status Int64 × LogState => (x.2, x.1.toOption.map fun _ => _))
          happend
      refine ⟨⟨by rw [hlog]; rfl, hreached⟩, lsn, ?_⟩
      rw [afterAppend, hlog]

/-- A second step that does not fail: there was no such call, or the row has its document. -/
lemma put_completes {i : ℕ} {refusal : Option Status} {abort : AppendEnv}
    {saved : Except Status Unit} (h : p.Completes c (.put i refusal abort saved)) :
    let next := (p.step c (.put i refusal abort saved)).1
    p.pending[i]? = none ∧ next = p ∨
      ∃ call, p.pending[i]? = some call ∧ next.pending = p.pending.eraseIdx i ∧
        next.engine.log = p.engine.log ∧
        ∀ k, next.engine.shows k = if call.row = k then .ok call.doc else p.engine.shows k := by
  intro next
  have hstep : p.step c (.put i refusal abort saved) = p.storePut c i refusal abort saved := rfl
  have hanswer := h.1
  have hnext : next = (p.storePut c i refusal abort saved).1 := rfl
  rw [hstep] at hanswer
  unfold storePut at hanswer hnext
  cases hcall : p.pending[i]? with
  | none =>
    rw [hcall] at hnext
    exact Or.inl ⟨rfl, hnext⟩
  | some call =>
    rw [hcall] at hanswer hnext
    dsimp only at hanswer hnext
    refine Or.inr ⟨call, rfl, ?_⟩
    rcases hput : p.engine.router.put p.engine.catalog refusal call.collection call.key call.doc with
      ⟨st | u, router⟩ <;> rw [hput] at hanswer hnext
    · exact absurd rfl (hanswer st)
    refine ⟨congrArg PutProcess.pending hnext, ?_, fun k => ?_⟩
    · rw [hnext]
      exact log_ensureCollection saved call.collection
    · rw [hnext]
      refine (getRaw_ensureCollection saved call.collection k.1 k.2).trans ?_
      have hget := StorageRouter.get_put (congrArg Prod.fst hput) k.1 k.2
      rw [hput] at hget
      refine hget.trans ?_
      by_cases hk : call.row = k
      · rw [if_pos hk, if_pos (show (k.1, k.2) = (call.collection, call.key) from hk.symm)]
      · rw [if_neg hk, if_neg (show ¬ (k.1, k.2) = (call.collection, call.key) from
          fun h => hk h.symm)]
        rfl

/-- The ledger can be read. -/
def Readable (c : Crypto) (dek : Bytes) (p : PutProcess) : Prop :=
  ∃ records, Sound c dek p.engine.log records ∧ p.engine.wal.isOpen = true

lemma Readable.readAll {records : List WalRecord} (hopen : p.engine.wal.isOpen = true)
    (h : Sound c dek p.engine.log records) :
    p.engine.wal.readAll c p.engine.disk = .ok records :=
  h.ledger.readAll_eq hopen

variable {event : PutEvent}

lemma readable_step (h : p.Readable c dek) (hdone : p.Completes c event) :
    (p.step c event).1.Readable c dek := by
  obtain ⟨records, hsound, hopen⟩ := h
  cases event with
  | append env routerUse collection key doc =>
    obtain ⟨hstored, lsn, hnext⟩ := append_completes hdone
    rw [hnext]
    refine ⟨_, hsound.appended hstored hdone.2.2, ?_⟩
    exact (appendStep_acked hstored.1).1.isOpen.trans hopen
  | put i refusal abort saved =>
    rcases put_completes hdone with ⟨-, hnext⟩ | ⟨call, -, -, hlog, -⟩
    · rw [hnext]
      exact ⟨records, hsound, hopen⟩
    · refine ⟨records, hlog ▸ hsound, ?_⟩
      exact (congrArg (fun log : LogState => log.1.isOpen) hlog).trans hopen

/-- **A step keeps the rows exactly if it settles what it leaves alone.** -/
lemma rowsAgree_step_iff (h : p.Readable c dek) (hagree : p.RowsAgree c)
    (hdone : p.Completes c event) : (p.step c event).1.RowsAgree c ↔ p.Settles c event := by
  obtain ⟨records, hsound, hopen⟩ := h
  have hread := Readable.readAll hopen hsound
  cases event with
  | append env routerUse collection key doc =>
    refine iff_of_true ?_ trivial
    obtain ⟨hstored, lsn, hnext⟩ := append_completes hdone
    have hnextSound := hsound.appended hstored hdone.2.2
    have hnextOpen := (appendStep_acked hstored.1).1.isOpen.trans hopen
    rw [hnext]
    intro records' hread' k hidle r hr
    have hrecords := hread'.symm.trans (hnextSound.ledger.readAll_eq hnextOpen)
    obtain rfl := Except.ok.inj hrecords
    -- the row of the new record has a call in progress
    have hother : (collection, key) ≠ k :=
      hidle ⟨collection, key, doc, lsn⟩ (mem_append_right _ (mem_singleton_self _))
    obtain ⟨-, hcollection, hkey, -⟩ :=
      record_fields (c := c) (p.putCall env collection key doc) p.engine.log
    have hrow : ((p.putCall env collection key doc).record c p.engine.log).row =
        (collection, key) := by
      rw [WalRecord.row, hcollection, hkey]
      rfl
    rw [lastPut_concat, hrow, if_neg fun h => hother h.2] at hr
    exact hagree records hread k (fun call hcall => hidle call (mem_append_left _ hcall)) r hr
  | put i refusal abort saved =>
    rcases put_completes hdone with ⟨hnone, hnext⟩ | ⟨call, hcall, hpending, hlog, hshows⟩
    · rw [hnext]
      refine iff_of_true hagree fun call hcall => ?_
      rw [hnone] at hcall
      cases hcall
    have hread' : (p.step c (.put i refusal abort saved)).1.engine.wal.readAll c
        (p.step c (.put i refusal abort saved)).1.engine.disk = .ok records :=
      (congrArg (fun log : LogState => log.1.readAll c log.2) hlog).trans hread
    constructor
    · intro hnext call' hcall' halone rs hrs r hr
      obtain rfl := Option.some.inj (hcall.symm.trans hcall')
      obtain rfl := Except.ok.inj (hread.symm.trans hrs)
      have hidle : (p.step c (.put i refusal abort saved)).1.Idle call.row := by
        intro other hother
        rw [hpending] at hother
        exact halone other hother
      have hshown := hnext records hread' call.row hidle r hr
      rw [hshows, if_pos rfl] at hshown
      exact Except.ok.inj hshown
    · intro hsettles rs hrs k hidle r hr
      obtain rfl := Except.ok.inj (hread'.symm.trans hrs)
      rw [Idle, hpending] at hidle
      rw [hshows]
      by_cases hk : call.row = k
      · subst hk
        rw [if_pos rfl, hsettles call hcall hidle records hread r hr]
      · rw [if_neg hk]
        refine hagree records hread k (fun other hother => ?_) r hr
        -- the calls in progress are the one that was finished and the others
        obtain ⟨j, hj⟩ := mem_iff_getElem?.mp hother
        by_cases hij : j = i
        · subst hij
          obtain rfl := Option.some.inj (hcall.symm.trans hj)
          exact hk
        · exact hidle other (mem_eraseIdx_iff_getElem?.mpr ⟨j, hij, hj⟩)

/-! ## Runs -/

/-- Nothing is in progress, the ledger can be read, and the rows agree with it. -/
structure Starts (c : Crypto) (dek : Bytes) (p : PutProcess) : Prop where
  pending : p.pending = []
  readable : p.Readable c dek
  agree : p.RowsAgree c

variable {events : List PutEvent}

lemma guarded_iff (h : p.Readable c dek) (hagree : p.RowsAgree c)
    (hdone : Guarded (step c) (Completes c) p events) :
    Guarded (step c) (fun p event => (p.step c event).1.RowsAgree c) p events ↔
      Guarded (step c) (Settles c) p events := by
  induction events generalizing p with
  | nil => exact Iff.rfl
  | cons event events ih =>
    have hstep := rowsAgree_step_iff h hagree hdone.1
    refine and_congr_right_iff.mpr ?_ |>.trans (and_congr_left' hstep)
    exact fun hnext => ih (readable_step h hdone.1) hnext hdone.2

lemma final_agrees (h : p.Readable c dek) (hagree : p.RowsAgree c)
    (hdone : Guarded (step c) (Completes c) p events)
    (hsettles : Guarded (step c) (Settles c) p events) :
    (final (step c) p events).Readable c dek ∧ (final (step c) p events).RowsAgree c := by
  induction events generalizing p with
  | nil => exact ⟨h, hagree⟩
  | cons event events ih =>
    exact ih (readable_step h hdone.1) ((rowsAgree_step_iff h hagree hdone.1).mpr hsettles.1)
      hdone.2 hsettles.2

/-- The append of a document to the sample row. -/
def sampleLogPut (doc : Bytes) : PutEvent := .append {} 0 (text "c") (text "k") doc

/-- A put without trouble. -/
def sampleStorePut (i : ℕ) : PutEvent := .put i none {} (.ok ())

/-- Two calls on one row have appended their records. -/
def samplePair : PutProcess :=
  final (step sampleCrypto) { engine := sampleStore } [sampleLogPut [1], sampleLogPut [2]]

/-- Their records. -/
def samplePairRecords : List WalRecord :=
  let first := sampleStore.putCall {} (text "c") (text "k") [1]
  let logged := sampleStore.afterAppend sampleCrypto first
  [first.record sampleCrypto sampleStore.log,
    (logged.putCall {} (text "c") (text "k") [2]).record sampleCrypto logged.log]

lemma samplePair_sound : Sound sampleCrypto [] samplePair.engine.log samplePairRecords := by
  have hnew : Sound sampleCrypto [] sampleStore.log [] := ⟨rfl, ledger_nil _ _, fun _ => ⟨rfl, rfl⟩⟩
  have hfirst := hnew.appended (i := sampleStore.putCall {} (text "c") (text "k") [1])
    ⟨by decide +kernel, rfl⟩ (by decide +kernel)
  exact hfirst.appended (i := (sampleStore.afterAppend sampleCrypto
    (sampleStore.putCall {} (text "c") (text "k") [1])).putCall {} (text "c") (text "k") [2])
    ⟨by decide +kernel, rfl⟩ (by decide +kernel)

lemma sampleStore_starts : Starts sampleCrypto [] { engine := sampleStore } where
  pending := rfl
  readable := ⟨[], ⟨rfl, ledger_nil _ _, fun _ => ⟨rfl, rfl⟩⟩, rfl⟩
  agree := by
    intro records hread k hidle r hr
    have hledger : Ledger sampleCrypto sampleStore.wal.subkey sampleStore.disk.file [] :=
      ledger_nil _ _
    obtain rfl : [] = records := Except.ok.inj ((hledger.readAll_eq rfl).symm.trans hread)
    cases hr

/-- A step with a known answer. -/
lemma completes_of_answer {answer : Option (Except Status Unit)}
    (hanswer : (p.step c event).2 = answer) (hok : ∀ st, answer ≠ some (.error st))
    (hwhole : p.Whole c event) : p.Completes c event :=
  ⟨fun st h => hok st (hanswer.symm.trans h), hwhole⟩

end PutProcess

end DeSentry
