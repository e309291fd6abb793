import DeSentry.Construction.Storage.WalFiles
import DeSentry.Properties.CheckpointClaims

/-!
# A crash inside a prune

A prune makes six steps: it writes the new ledger beside the old one, removes the old one, renames
the new one, and then does the same to the mark.  What `Open` makes of the files at each crash
point follows from what it makes of a ledger and a mark (`Ledger.recovers_iff`):

* before the old ledger is removed, and once the old mark is, a crash does no harm;
* between the two steps on the ledger there is none, and `Open` refuses the mark or starts an empty
  ledger;
* between the two files the new ledger is checked against the old mark, and its tip has another
  hash.

So the rewrite is atomic exactly at the crash points of `CrashSafe` (`prune_crash_atomic_iff`).
-/

namespace DeSentry

open ByteCodec FileSteps WriteAheadLog List

variable {c : Crypto} {dek subkey bytes residue : Bytes} {records : List WalRecord}

/-! ## The steps -/

/-- The records a `Prune` leaves. -/
def prunedRecords (c : Crypto) (checkpointLsn : Int64) (records : List WalRecord) :
    List WalRecord :=
  let kept := records.filter fun r => !droppable checkpointLsn (claimedBelow checkpointLsn records) r
  if records.length - kept.length = 0 then records else rechain c genesisHash kept

section Steps

variable {wal : WriteAheadLog} {files : WalFiles} {n : Int64}

/-- `Prune` when it has something to drop. -/
lemma pruneSteps_eq {nonce : ℕ → Except Bytes Nonce} {kept : List WalRecord} {payloads : List Bytes}
    (hread : wal.readAll c files.disk = .ok records)
    (hkept : records.filter (fun r => !droppable n (claimedBelow n records) r) = kept)
    (hdropped : records.length - kept.length ≠ 0)
    (hseal : sealAll c nonce wal.subkey 0 (rechain c genesisHash kept) = .ok payloads) :
    wal.pruneSteps c nonce files n = rewriteSteps payloads ++
      hwmSteps (lsnAfter (rechain c genesisHash kept) - 1)
        (lastHash (rechain c genesisHash kept)) := by
  unfold pruneSteps
  simp only [hread, hkept, if_neg hdropped, hseal]

/-- `Prune` does nothing, or replaces both files. -/
lemma pruneSteps_cases (nonce : ℕ → Except Bytes Nonce)
    (hread : wal.readAll c files.disk = .ok records) :
    wal.pruneSteps c nonce files n = [] ∨
      ∃ kept payloads, kept.length < records.length ∧
        records.filter (fun r => !droppable n (claimedBelow n records) r) = kept ∧
        prunedRecords c n records = rechain c genesisHash kept ∧
        sealAll c nonce wal.subkey 0 (rechain c genesisHash kept) = .ok payloads ∧
        wal.pruneSteps c nonce files n = rewriteSteps payloads ++
          hwmSteps (lsnAfter (rechain c genesisHash kept) - 1)
            (lastHash (rechain c genesisHash kept)) := by
  generalize hkept : records.filter (fun r => !droppable n (claimedBelow n records) r) = kept
  by_cases hdropped : records.length - kept.length = 0
  · left
    unfold pruneSteps
    simp only [hread, hkept, if_pos hdropped]
  cases hseal : sealAll c nonce wal.subkey 0 (rechain c genesisHash kept) with
  | error st =>
    left
    unfold pruneSteps
    simp only [hread, hkept, if_neg hdropped, hseal]
  | ok payloads =>
    have hpruned : prunedRecords c n records = rechain c genesisHash kept := by
      simp only [prunedRecords, hkept, if_neg hdropped]
    exact Or.inr ⟨kept, payloads, by omega, rfl, hpruned, hseal,
      pruneSteps_eq hread hkept hdropped hseal⟩

/-- The ledger and the mark at each crash point. -/
lemma disk_crash (payloads : List Bytes) (tipId : Int64) (tipHash : Bytes) (k : ℕ) :
    WalFiles.disk (FileSteps.crash (rewriteSteps payloads ++ hwmSteps tipId tipHash) k files) =
      { file := if k ≤ 1 then files.disk.file else if k = 2 then [] else walFormat.frames payloads
        hwm := if k ≤ 4 then files.disk.hwm else if k = 5 then none
          else some (hwmBytes tipId tipHash) } := by
  have hrewrite : WalFileName.rewrite ≠ .log := by decide
  have hhwm : WalFileName.hwmTmp ≠ .hwm := by decide
  have hlen : (rewriteSteps payloads).length = 3 := rfl
  rw [crash_append, WalFiles.disk, hlen, rewriteSteps, hwmSteps,
    crash_replace_of_ne hhwm (by decide) (by decide), crash_replace_self hrewrite,
    crash_replace_self hhwm, crash_replace_of_ne hrewrite (by decide) (by decide)]
  congr 1
  · split_ifs <;> rfl
  · split_ifs <;> first | rfl | omega

/-- **However a `Prune` ends, it leaves the files of a crash point.** -/
lemma exists_crash_eq_prune (env : RewriteEnv) (files : WalFiles) :
    ∃ k, WalFiles.disk (FileSteps.crash (wal.pruneSteps c env.nonce files n) k files) =
      (wal.prune c env files.disk n).2.2 := by
  unfold WriteAheadLog.prune
  cases hread : wal.readAll c files.disk with
  | error failure => exact ⟨0, rfl⟩
  | ok records =>
    simp only
    generalize hkept : records.filter (fun r => !droppable n (claimedBelow n records) r) = kept
    by_cases hdropped : records.length - kept.length = 0
    · rw [if_pos hdropped]
      exact ⟨0, rfl⟩
    rw [if_neg hdropped]
    unfold rewriteLocked
    by_cases hopened : (!env.tmpOpened) = true
    · rw [if_pos hopened]
      exact ⟨0, rfl⟩
    rw [if_neg hopened]
    cases hseal : sealAll c env.nonce wal.subkey 0 (rechain c genesisHash kept) with
    | error st => exact ⟨0, rfl⟩
    | ok payloads =>
      simp only [pruneSteps_eq hread hkept hdropped hseal, disk_crash]
      split_ifs
      · exact ⟨0, rfl⟩
      · exact ⟨2, rfl⟩
      · exact ⟨3, rfl⟩
      · cases env.hwm with
        | kept => exact ⟨4, rfl⟩
        | removed => exact ⟨5, rfl⟩
        | written => exact ⟨6, rfl⟩

end Steps

/-! ## What `Open` makes of the files -/

/-- `Open` succeeds and returns one of the two lists of records. -/
def Recovers (c : Crypto) (env : OpenEnv) (walFile dek : Bytes) (disk : WalDisk)
    (before after : List WalRecord) : Prop :=
  ∃ wal disk', openLog c env walFile dek disk = (.ok wal, disk') ∧
    (wal.readAll c disk' = .ok before ∨ wal.readAll c disk' = .ok after)

/-- A ledger is recovered iff the mark lets it pass. -/
lemma Ledger.recovers_iff {env : OpenEnv} (h : Ledger c subkey bytes records)
    (hkey : subkeyFor c dek = .ok subkey) (htail : TornTail subkey bytes residue)
    (hcreated : env.created = true) (hopened : env.opened = true) (walFile : Bytes)
    (hwm : Option Bytes) (before after : List WalRecord) :
    Recovers c env walFile dek ⟨bytes ++ residue, hwm⟩ before after ↔
      checkHwm records hwm = .ok () ∧ (records = before ∨ records = after) := by
  have hlocked := h.readAllLocked htail.readsAsEnd
  have hread : (ofRecords walFile subkey records).readAll c ⟨bytes ++ residue, hwm⟩ = .ok records :=
    bind_eq_ok.mpr ⟨_, hlocked, rfl⟩
  constructor
  · rintro ⟨wal, disk', hopen, hback⟩
    obtain ⟨subkey', read, hkey', hread', -, hmark, hdone⟩ := openLog_ok hopen
    obtain rfl : subkey = subkey' := Except.ok.inj (hkey.symm.trans hkey')
    obtain rfl := Except.ok.inj (hlocked.symm.trans hread')
    obtain ⟨rfl, rfl⟩ := hdone rfl
    rw [hread] at hback
    exact ⟨hmark, hback.imp Except.ok.inj Except.ok.inj⟩
  · rintro ⟨hmark, hback⟩
    refine ⟨_, _, h.openLog hkey htail hmark hcreated hopened, ?_⟩
    rw [hread]
    exact hback.imp (congrArg Except.ok) (congrArg Except.ok)

/-- The mark of a ledger lets it pass, an empty one included. -/
lemma checkHwm_tip (h : Ledger c subkey bytes records) :
    checkHwm records (some (hwmBytes (lsnAfter records - 1) (lastHash records))) = .ok () := by
  cases records using List.reverseRecOn with
  | nil => decide
  | append_singleton rs r =>
    have hlen := (h.wellFormed r (by simp)).1.length_entryHash
    rw [lsnAfter_concat, lastHash_concat, Int64.add_sub_cancel]
    exact checkHwm_own rs hlen

/-- The crash points that do no harm, by the number of steps that were made.  After two the ledger
is missing, after three and four the mark is the old one. -/
def CrashSafe (hwm : Option Bytes) (after : List WalRecord) : ℕ → Prop
  | 2 => after = [] ∧ checkHwm after hwm = .ok ()
  | 3 => checkHwm after hwm = .ok ()
  | 4 => checkHwm after hwm = .ok ()
  | _ => True

/-- **A prune is crash atomic exactly at the safe points**: a crash before it is at the `k`-th step
is followed by an `Open` that succeeds with the records from before or from after the prune, if
and only if the prune had nothing to rewrite or the point is safe. -/
theorem prune_crash_atomic_iff (c : Crypto) (nonce : ℕ → Except Bytes Nonce) (env : OpenEnv)
    (walFile dek : Bytes) (wal : WriteAheadLog) (files : WalFiles) (bytes residue : Bytes)
    (records : List WalRecord) (n : Int64) (k : ℕ) (hopen : wal.isOpen = true)
    (hkey : subkeyFor c dek = .ok wal.subkey) (hledger : Ledger c wal.subkey bytes records)
    (htail : TornTail wal.subkey bytes residue) (hfile : files .log = some (bytes ++ residue))
    (hmark : checkHwm records (files .hwm) = .ok ()) (hcreated : env.created = true)
    (hopened : env.opened = true) :
    Recovers c env walFile dek (WalFiles.disk (FileSteps.crash (wal.pruneSteps c nonce files n) k files))
        records (prunedRecords c n records) ↔
      wal.pruneSteps c nonce files n = [] ∨
        CrashSafe (files .hwm) (prunedRecords c n records) k := by
  have hdisk : files.disk = ⟨bytes ++ residue, files .hwm⟩ := by rw [WalFiles.disk, hfile]; rfl
  have hread : wal.readAll c files.disk = .ok records := by
    have hlocked : readAllLocked c wal.subkey (wal.contents files.disk) =
        .ok ⟨records, false, false⟩ := by
      rw [WriteAheadLog.contents, hopen, hdisk]
      exact hledger.readAllLocked htail.readsAsEnd
    exact bind_eq_ok.mpr ⟨_, hlocked, rfl⟩
  have hsame : Recovers c env walFile dek files.disk records (prunedRecords c n records) := by
    rw [hdisk]
    exact (hledger.recovers_iff hkey htail hcreated hopened ..).mpr ⟨hmark, Or.inl rfl⟩
  rcases pruneSteps_cases nonce hread with
    hnone | ⟨kept, payloads, hfewer, hkept, hpruned, hseal, hsteps⟩
  · rw [hnone]
    exact ⟨fun _ => Or.inl rfl, fun _ => by simpa [FileSteps.crash, run] using hsame⟩
  have hnew : Ledger c wal.subkey (walFormat.frames payloads) (prunedRecords c n records) := by
    rw [hpruned]
    subst hkept
    exact hledger.rechain_filter _ hseal
  have hpost : ∀ hwm, Recovers c env walFile dek ⟨walFormat.frames payloads, hwm⟩ records
      (prunedRecords c n records) ↔ checkHwm (prunedRecords c n records) hwm = .ok () := by
    intro hwm
    have hiff := hnew.recovers_iff hkey (tornTail_nil _ _) hcreated hopened walFile hwm records
      (prunedRecords c n records)
    rw [append_nil] at hiff
    exact hiff.trans ⟨fun h => h.1, fun h => ⟨h, Or.inr rfl⟩⟩
  have hsome : rewriteSteps payloads ++ hwmSteps (lsnAfter (rechain c genesisHash kept) - 1)
      (lastHash (rechain c genesisHash kept)) ≠ [] := cons_ne_nil _ _
  rw [hsteps, disk_crash, or_iff_right hsome, ← hpruned]
  rcases k with _ | _ | _ | _ | _ | _ | k
  · exact iff_of_true hsame trivial
  · exact iff_of_true hsame trivial
  · -- the ledger is missing, and an empty one is never the old one
    have hnil := (ledger_nil c wal.subkey).recovers_iff hkey (tornTail_nil _ _) hcreated hopened
      walFile (files .hwm) records (prunedRecords c n records)
    have hne : [] ≠ records := fun h => by simp [← h] at hfewer
    refine hnil.trans ⟨fun h => ?_, fun h => ?_⟩
    · have hempty := h.2.resolve_left hne
      exact ⟨hempty.symm, hempty ▸ h.1⟩
    · exact ⟨h.1 ▸ h.2, Or.inr h.1.symm⟩
  · exact hpost _
  · exact hpost _
  · exact iff_of_true ((hpost none).mpr rfl) trivial
  · exact iff_of_true ((hpost _).mpr (checkHwm_tip hnew)) trivial

/-! ## A lost ledger -/

/-- A call made five seconds after the system was started. -/
def sampleAppend (type : WalRecordType) (collection : Bytes) : LedgerCall where
  call := { type, collection, key := text "k", documentBytes := [1] }
  env := { nowMs := 5000 }

/-- A new plaintext ledger. -/
def sampleNewLog : LogState := ({ path := [] }, {})

/-- The ledger after a put, an intent and its claim. -/
def samplePairLog : LogState :=
  Runs.final (appendStep sampleCrypto) sampleNewLog
    [sampleAppend .kPut (text "c"), sampleAppend .kTransitIntent [98],
      sampleAppend .kTransitClaimed [98]]

/-- Its records. -/
def samplePairRecords : List WalRecord :=
  let afterPut := (appendStep sampleCrypto sampleNewLog (sampleAppend .kPut (text "c"))).1
  let afterIntent := (appendStep sampleCrypto afterPut (sampleAppend .kTransitIntent [98])).1
  [(sampleAppend .kPut (text "c")).record sampleCrypto sampleNewLog,
    (sampleAppend .kTransitIntent [98]).record sampleCrypto afterPut,
    (sampleAppend .kTransitClaimed [98]).record sampleCrypto afterIntent]

lemma samplePairLog_sound : Sound sampleCrypto [] samplePairLog samplePairRecords := by
  have hnew : Sound sampleCrypto [] sampleNewLog [] := ⟨rfl, ledger_nil _ _, fun _ => ⟨rfl, rfl⟩⟩
  have hput := hnew.appended (i := sampleAppend .kPut (text "c")) ⟨by decide +kernel, rfl⟩
    (by decide +kernel)
  have hintent := hput.appended (i := sampleAppend .kTransitIntent [98]) ⟨by decide +kernel, rfl⟩
    (by decide +kernel)
  exact hintent.appended (i := sampleAppend .kTransitClaimed [98]) ⟨by decide +kernel, rfl⟩
    (by decide +kernel)

/-- Its files. -/
def samplePairFiles : WalFiles
  | .log => some samplePairLog.2.file
  | .hwm => samplePairLog.2.hwm
  | _ => none

/-- The steps of a prune at the tip. -/
def samplePruneSteps : List (Step WalFileName Bytes) :=
  samplePairLog.1.pruneSteps sampleCrypto (fun _ => .error []) samplePairFiles 2

/-- A put, an intent and its claim, and a prune at the tip.  The crash comes behind the removal of
the old ledger: the put is lost, and `Open` refuses to go on without it. -/
theorem crash_between_remove_and_rename : checkHwm samplePairRecords (samplePairFiles .hwm) = .ok () ∧
    ∀ env walFile, ¬ Recovers sampleCrypto env walFile []
      (WalFiles.disk (FileSteps.crash samplePruneSteps 2 samplePairFiles)) samplePairRecords
      (prunedRecords sampleCrypto 2 samplePairRecords) := by
  have hmark : checkHwm samplePairRecords (samplePairFiles .hwm) = .ok () := by decide +kernel
  refine ⟨hmark, ?_⟩
  have hread : samplePairLog.1.readAll sampleCrypto samplePairFiles.disk = .ok samplePairRecords :=
    samplePairLog_sound.ledger.readAll_eq rfl
  have hsteps := pruneSteps_eq (n := 2) hread rfl (by decide +kernel)
    (sealAll_plain (fun _ => .error []) _ _)
  have hdisk : WalFiles.disk (FileSteps.crash samplePruneSteps 2 samplePairFiles) =
      ⟨[], samplePairFiles .hwm⟩ := by
    rw [samplePruneSteps, hsteps, disk_crash]
    rfl
  rw [hdisk]
  rintro env walFile ⟨wal, disk', hopen, -⟩
  obtain ⟨subkey, read, -, hlocked, -, hpass, -⟩ := openLog_ok hopen
  obtain rfl : (⟨[], false, false⟩ : ReadResult) = read := Except.ok.inj hlocked
  revert hpass
  decide +kernel

/-- One step later the new ledger is in place; the put has kept its hash, and the old mark accepts
it. -/
theorem prune_crash_atomic_iff_sample : Recovers sampleCrypto {} [] []
    (WalFiles.disk (FileSteps.crash samplePruneSteps 3 samplePairFiles)) samplePairRecords
      (prunedRecords sampleCrypto 2 samplePairRecords) := by
  have hfile : samplePairFiles .log = some (samplePairLog.2.file ++ []) := by
    rw [append_nil]
    rfl
  refine (prune_crash_atomic_iff sampleCrypto (fun _ => .error []) {} [] [] samplePairLog.1
    samplePairFiles samplePairLog.2.file [] samplePairRecords 2 3 rfl rfl samplePairLog_sound.ledger
    (tornTail_nil _ _) hfile (by decide +kernel) rfl rfl).mpr (Or.inr ?_)
  show checkHwm _ _ = .ok ()
  decide +kernel

end DeSentry
