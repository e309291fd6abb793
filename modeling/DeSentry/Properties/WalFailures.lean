import DeSentry.Properties.WalDurability

/-!
# Failed appends

`Append` reports a write error or a sync error without touching the object: the tip, the next
LSN and the mark stay as they were.  The bytes it had written by then stay in the file.  On
their own they do no harm.  A part of a frame is taken for the end of the file, and a whole frame
is one more record, chained like any other, that nobody was promised.

The next `Append` is what they harm.  It writes behind them, and if they were a whole frame it
writes a record with the LSN and the previous hash of the record already there, which the
reader refuses as a step backwards.  So `failed_appends_harmless` is about runs in which, once a
failed append has left bytes in the file, no later append leaves any; and
`sync_failure_poisons_log` is the shortest run in which one does.
-/

namespace DeSentry

open ByteCodec FrameLog WriteAheadLog List

variable {c : Crypto} {dek : Bytes} {s : LogState} {i : LedgerCall} {is : List LedgerCall}
  {records : List WalRecord} {dirty : Bool}

/-! ## Harmless runs -/

/-- Some bytes of the call's frame reach the file. -/
def Writes (c : Crypto) (s : LogState) (i : LedgerCall) : Prop :=
  (appendStep c s i).1.2.file ≠ s.2.file

instance (c : Crypto) (s : LogState) (i : LedgerCall) : Decidable (Writes c s i) :=
  inferInstanceAs (Decidable (_ ≠ _))

lemma Stored.writes (h : Stored c s i) : Writes c s i := by
  rw [Writes, h.file]
  intro he
  have hlen := congrArg List.length he
  rw [length_append, Format.length_frame] at hlen
  omega

/-- A call that keeps the log usable; `dirty` when an earlier call failed and left bytes. -/
structure HarmlessStep (c : Crypto) (dirty : Bool) (s : LogState) (i : LedgerCall) : Prop where
  /-- What reaches the file belongs to a record the reader accepts. -/
  loggable : Writes c s i → (i.record c s).Loggable s.1.subkey
  /-- An acknowledged frame is in the file. -/
  whole : (appendStep c s i).2.isSome = true → i.env.reached = none
  /-- Nothing is written behind what a failed call has left. -/
  behind : dirty = true → ¬ Writes c s i

/-- A run of such calls. -/
def Harmless (c : Crypto) : Bool → LogState → List LedgerCall → Prop
  | _, _, [] => True
  | dirty, s, i :: is =>
    HarmlessStep c dirty s i ∧
      Harmless c (dirty || ((appendStep c s i).2.isNone && decide (Writes c s i)))
        (appendStep c s i).1 is

/-- The log can be used: the given records are read back, the chain verifies, and the file can be
opened again and then still has the records. -/
structure Usable (c : Crypto) (dek : Bytes) (s : LogState) (records : List WalRecord) : Prop where
  readAll : ∃ rs, s.1.readAll c s.2 = .ok rs ∧ records <+: rs
  verifyChain : ∃ result, s.1.verifyChain c none s.2 = .ok result ∧ result.ok = true
  openLog : ∀ env walFile, env.created = true ∧ env.opened = true → ∃ wal disk,
    openLog c env walFile dek s.2 = (.ok wal, disk) ∧
      ∃ rs, wal.readAll c disk = .ok rs ∧ records <+: rs

/-! ## The invariant -/

/-- A log in good order with, at most, the remains of one failed append behind it: bytes that
read as the end of the file, or one whole further record. -/
def LogInv (c : Crypto) (dek : Bytes) (dirty : Bool) (s : LogState) (records : List WalRecord) :
    Prop :=
  ∃ bytes residue, s.2.file = bytes ++ residue ∧ Ready c dek s.1 bytes s.2.hwm records ∧
    (dirty = false → residue = []) ∧ (TornTail s.1.subkey bytes residue ∨
      ∃ r, Ledger c s.1.subkey (bytes ++ residue) (records ++ [r]) ∧ lastLsn records < r.lsn)

lemma Ready.logInv (h : Ready c dek s.1 s.2.file s.2.hwm records) :
    LogInv c dek false s records :=
  ⟨s.2.file, [], (append_nil _).symm, h, fun _ => rfl, Or.inl (tornTail_nil _ _)⟩

/-- A part of the frame of a loggable record is taken for the end of the file. -/
lemma tornTail_of_part {payload subkey : Bytes} {env : AppendEnv} {r : WalRecord}
    (hseal : sealPayload c env.nonce subkey (encodeBody r) = .ok payload) (hlog : r.Loggable subkey)
    (hpart : env.part (walFormat.frame payload) ≠ walFormat.frame payload) (bytes : Bytes) :
    TornTail subkey bytes (env.part (walFormat.frame payload)) := by
  have hpre : env.part (walFormat.frame payload) <+: walFormat.frame payload := by
    rw [AppendEnv.part]
    cases env.reached with
    | none => exact prefix_rfl
    | some n => exact take_prefix n _
  have hfits := (fits_sealPayload_iff hseal).mpr hlog.2
  exact tornTail_of_interrupted hseal hpre (Format.readFrame_of_partial hfits hpre hpart) bytes

/-- The remains of a failed append of a loggable record. -/
lemma remains_of_part {bytes payload : Bytes} {wal : WriteAheadLog}
    {call : AppendCall} {env : AppendEnv} (h : Consistent c dek wal bytes records)
    (hseal : sealPayload c env.nonce wal.subkey (encodeBody (wal.newRecord c call)) = .ok payload)
    (hmax : wal.nextLsn ≠ Int64.maxValue) (hlog : (wal.newRecord c call).Loggable wal.subkey) :
    TornTail wal.subkey bytes (env.part (walFormat.frame payload)) ∨
      ∃ r, Ledger c wal.subkey (bytes ++ env.part (walFormat.frame payload)) (records ++ [r]) ∧
        lastLsn records < r.lsn := by
  by_cases hpart : env.part (walFormat.frame payload) = walFormat.frame payload
  · right
    rw [hpart]
    exact ⟨_, h.ledger_concat hseal hmax hlog, h.lastLsn_lt call⟩
  · exact Or.inl (tornTail_of_part hseal hlog hpart bytes)

/-- **One harmless call.** -/
lemma LogInv.step (h : LogInv c dek dirty s records) (hi : HarmlessStep c dirty s i) :
    LogInv c dek (dirty || ((appendStep c s i).2.isNone && decide (Writes c s i)))
      (appendStep c s i).1 (records ++ (appendStep c s i).2.toList) := by
  obtain ⟨bytes, residue, hfile, hready, hclean, hremains⟩ := h
  have hlog := hready.setOrigin i.origin i.signer
  obtain ⟨answer, wal', disk', hanswer, hstep⟩ := exists_appendStep_eq c s i
  cases answer with
  | ok lsn =>
    -- Acknowledged: the frame is in the file, so nothing was left there before.
    have hsome : (appendStep c s i).2.isSome = true := by
      rw [hstep]
      rfl
    have hreach := hi.whole hsome
    have hwrites : Writes c s i := Stored.writes ⟨hsome, hreach⟩
    have hdirty : dirty = false := by
      cases dirty with
      | false => rfl
      | true => exact absurd hwrites (hi.behind rfl)
    rw [hclean hdirty, append_nil] at hfile
    rw [← hfile] at hlog
    obtain ⟨hdone, hrecord⟩ := appendStep_acked hsome
    have hnext := hlog.acked hdone hreach (hi.loggable hwrites)
    rw [hrecord, hdirty]
    exact hnext.logInv
  | error st =>
    obtain ⟨rfl, hdisk⟩ := append_failed hanswer
    have hnone : appendStep c s i = ((i.log s, disk'), none) := hstep
    have hhwm : disk'.hwm = s.2.hwm := by
      rcases hdisk with rfl | ⟨payload, -, -, rfl⟩ <;> rfl
    rw [← hhwm] at hlog
    by_cases hwrites : Writes c s i
    · -- Bytes were left: they are the first to be left.
      have hdirty : dirty = false := by
        cases dirty with
        | false => rfl
        | true => exact absurd hwrites (hi.behind rfl)
      have hsame : disk' ≠ s.2 := fun he => hwrites (by rw [hnone, he])
      obtain ⟨payload, hseal, hmax, rfl⟩ := hdisk.resolve_left hsame
      rw [hclean hdirty, append_nil] at hfile
      rw [hnone, Option.toList_none, append_nil]
      exact ⟨bytes, i.env.part (walFormat.frame payload), by rw [hfile], hlog, by simp [hwrites],
        remains_of_part hlog.toConsistent hseal hmax (hi.loggable hwrites)⟩
    · have hkeep : disk'.file = s.2.file := by
        rw [Writes, not_not, hnone] at hwrites
        exact hwrites
      rw [hnone, Option.toList_none, append_nil]
      exact ⟨bytes, residue, hkeep.trans hfile, hlog, by simpa [hwrites] using hclean, hremains⟩

/-- What the invariant is for. -/
lemma LogInv.usable (h : LogInv c dek dirty s records) : Usable c dek s records := by
  obtain ⟨bytes, residue, hfile, hready, -, hremains⟩ := h
  have hcontents : s.1.contents s.2 = bytes ++ residue := by
    rw [contents, if_pos hready.isOpen, hfile]
  -- In both cases the file is a ledger with a torn tail, possibly an empty one.
  have hledger : ∃ bytes' residue' rs, bytes ++ residue = bytes' ++ residue' ∧
      Ledger c s.1.subkey bytes' rs ∧ TornTail s.1.subkey bytes' residue' ∧ records <+: rs ∧
      checkHwm rs s.2.hwm = .ok () := by
    rcases hremains with htail | ⟨r, hledger, hlt⟩
    · exact ⟨bytes, residue, records, rfl, hready.ledger, htail, prefix_rfl, hready.mark⟩
    · exact ⟨bytes ++ residue, [], records ++ [r], (append_nil _).symm, hledger,
        tornTail_nil _ _, prefix_append _ _, checkHwm_concat hready.mark hlt⟩
  obtain ⟨bytes', residue', rs, hbytes, hledger, htail, hrs, hmark⟩ := hledger
  have hread := hledger.readAllLocked htail.readsAsEnd
  rw [← hbytes, ← hcontents] at hread
  refine ⟨⟨rs, bind_eq_ok.mpr ⟨_, hread, rfl⟩, hrs⟩,
    ⟨_, bind_eq_ok.mpr ⟨_, hread, rfl⟩, hledger.verifyRead_ok⟩, fun env walFile hworks => ?_⟩
  obtain ⟨wal, disk, hopen, hback⟩ :=
    open_and_read env s.2 hledger hready.subkey htail (hfile.trans hbytes) hmark hworks
  exact ⟨wal, disk, hopen, rs, hback, hrs⟩

lemma acknowledged_append_step : acknowledged c s (i :: is) =
      (appendStep c s i).2.toList ++ acknowledged c (appendStep c s i).1 is := by
  rw [acknowledged, Runs.outputs]
  cases (appendStep c s i).2 <;> rfl

/-- A harmless run keeps the invariant in every state it passes through. -/
lemma LogInv.run {is₁ is₂ : List LedgerCall} (h : LogInv c dek dirty s records)
    (his : Harmless c dirty s (is₁ ++ is₂)) : ∃ dirty',
    LogInv c dek dirty' (Runs.final (appendStep c) s is₁) (records ++ acknowledged c s is₁) := by
  induction is₁ generalizing dirty s records with
  | nil =>
    have hnil : acknowledged c s [] = [] := rfl
    rw [hnil, append_nil]
    exact ⟨dirty, h⟩
  | cons i is₁ ih =>
    rw [acknowledged_append_step, ← append_assoc]
    exact ih (h.step his.1) his.2

/-- **Failed appends are harmless as long as nothing is written behind what they left.**  From
every log in good order, along every run of appends, any of which may fail after any part of its
frame reached the file: in every state the run passes through, all records so far acknowledged
are read back, the chain verifies, and the file can be opened again. -/
theorem failed_appends_harmless (c : Crypto) (dek : Bytes) (s : LogState)
    (records : List WalRecord) (hs : Ready c dek s.1 s.2.file s.2.hwm records)
    (is₁ is₂ : List LedgerCall) (his : Harmless c false s (is₁ ++ is₂)) :
    Usable c dek (Runs.final (appendStep c) s is₁) (records ++ acknowledged c s is₁) := by
  obtain ⟨dirty, hinv⟩ := hs.logInv.run his
  exact hinv.usable

/-! ## A poisoned log -/

/-- A record behind a ledger with an LSN the ledger has passed stops the reader. -/
lemma Ledger.readAllLocked_backwards {subkey bytes p : Bytes} {nonce : Except Bytes Nonce}
    {r : WalRecord} (h : Ledger c subkey bytes records)
    (hseal : sealPayload c nonce subkey (encodeBody r) = .ok p) (hr : r.WellFormed)
    (hlog : r.Loggable subkey) (hback : 0 ≤ r.lsn ∧ r.lsn < lsnAfter records) (rest : Bytes) :
    DeSentry.readAllLocked c subkey (bytes ++ (walFormat.frame p ++ rest)) =
      .ok ⟨records, true, false⟩ := by
  have hfits := (fits_sealPayload_iff hseal).mpr hlog.2
  rw [DeSentry.readAllLocked, h.replay, Format.replay_eq, Format.readFrame_frame hfits]
  simp only [readRecord_of_chunksOk hseal hr hlog.1, acceptRecord, if_pos hback]

/-- `Open` refuses a file its reader finds corrupt. -/
lemma openLog_ne_ok_of_corrupt {env : OpenEnv} {walFile subkey : Bytes} {disk disk' : WalDisk}
    {wal : WriteAheadLog} {read : ReadResult} (hkey : subkeyFor c dek = .ok subkey)
    (hread : readAllLocked c subkey disk.file = .ok read) (hcorrupt : read.corrupt = true) :
    openLog c env walFile dek disk ≠ (.ok wal, disk') := by
  intro hopen
  obtain ⟨subkey', read', hkey', hread', hclean, -⟩ := openLog_ok hopen
  obtain rfl : subkey = subkey' := Except.ok.inj (hkey.symm.trans hkey')
  obtain rfl : read = read' := Except.ok.inj (hread.symm.trans hread')
  rw [hcorrupt] at hclean
  cases hclean

/-- A put whose frame reaches the file and whose sync then fails. -/
def sampleUnsynced : LedgerCall := { samplePut 107 with env := { syncErr := some [] } }

/-- The log after it: the object still expects to write the first record. -/
def samplePoisoned : LogState := (appendStep sampleCrypto sampleLog sampleUnsynced).1

lemma samplePoisoned_ledger : Ledger sampleCrypto [] samplePoisoned.2.file
    [sampleUnsynced.record sampleCrypto sampleLog] := by
  have hseal : sealPayload sampleCrypto (.error []) []
      (encodeBody (sampleUnsynced.record sampleCrypto sampleLog)) = .ok _ := rfl
  exact sampleLog_ready.toConsistent.ledger_concat hseal (by decide) (by decide +kernel)

/-- One put fails in the sync, the next one is acknowledged.  The acknowledged record is not read
back, the chain does not verify, and the ledger cannot be opened any more. -/
theorem sync_failure_poisons_log :
    (appendStep sampleCrypto sampleLog sampleUnsynced).2 = none ∧
      (appendStep sampleCrypto samplePoisoned (samplePut 108)).2 =
        some ((samplePut 108).record sampleCrypto samplePoisoned) ∧
      let s := (appendStep sampleCrypto samplePoisoned (samplePut 108)).1
      (∃ rs, s.1.readAll sampleCrypto s.2 = .ok rs ∧
        (samplePut 108).record sampleCrypto samplePoisoned ∉ rs) ∧
      (∃ result, s.1.verifyChain sampleCrypto none s.2 = .ok result ∧ result.ok = false) ∧
      ∀ env walFile wal disk, openLog sampleCrypto env walFile [] s.2 ≠ (.ok wal, disk) := by
  have hstored : Stored sampleCrypto samplePoisoned (samplePut 108) := ⟨rfl, rfl⟩
  have hread : readAllLocked sampleCrypto []
      (appendStep sampleCrypto samplePoisoned (samplePut 108)).1.2.file =
        .ok ⟨[sampleUnsynced.record sampleCrypto sampleLog], true, false⟩ := by
    have hrecord : ((samplePut 108).record sampleCrypto samplePoisoned).WellFormed :=
      wellFormed_newRecord sampleCrypto (by decide +kernel) (by decide +kernel)
    have hback := samplePoisoned_ledger.readAllLocked_backwards
      (appendStep_acked hstored.1).1.sealed hrecord (by decide +kernel) (by decide +kernel) []
    rwa [append_nil, ← hstored.file] at hback
  refine ⟨rfl, rfl, ⟨_, bind_eq_ok.mpr ⟨_, hread, rfl⟩, by decide +kernel⟩,
    ⟨_, bind_eq_ok.mpr ⟨_, hread, rfl⟩, rfl⟩, fun env walFile wal disk => ?_⟩
  exact openLog_ne_ok_of_corrupt rfl hread rfl

/-- A put that fails after three bytes of its frame. -/
def sampleUnwritten : LedgerCall :=
  { samplePut 108 with env := { reached := some 3, writeGood := false } }

/-- An acknowledged put and a failed one that left three bytes: the put is still read back. -/
theorem failed_appends_harmless_sample :
    Usable sampleCrypto [] (Runs.final (appendStep sampleCrypto) sampleLog
      [samplePut 107, sampleUnwritten])
      (acknowledged sampleCrypto sampleLog [samplePut 107, sampleUnwritten]) := by
  have hrun : Harmless sampleCrypto false sampleLog ([samplePut 107, sampleUnwritten] ++ []) :=
    ⟨⟨fun _ => by decide +kernel, fun _ => rfl, fun h => by cases h⟩,
      ⟨fun _ => by decide +kernel, fun h => absurd h (by decide +kernel),
        fun h => absurd h (by decide +kernel)⟩, trivial⟩
  exact failed_appends_harmless sampleCrypto [] sampleLog [] sampleLog_ready _ _ hrun

end DeSentry
