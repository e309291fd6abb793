import DeSentry.Construction.Storage.Wal
import DeSentry.Framework.FileSteps

/-!
# The files behind a prune

`Wal.lean` has `Prune` as what it leaves on disk when it returns.  Here it is the list of steps it
makes: `RewriteLocked` replaces the ledger by way of `<wal>.rewrite`, and `WriteHwmBestEffort` then
replaces the mark by way of `<wal>.hwm.tmp`.  Both remove the old file before they rename the new
one.  The syncs in between do not change any contents.

`Open` reads the ledger and the mark and no other file; a ledger that is not there is created empty.
-/

namespace DeSentry

open FileSteps

/-- The files of a ledger. -/
inductive WalFileName where
  | log
  /-- `<wal>.rewrite`. -/
  | rewrite
  /-- `<wal>.hwm`. -/
  | hwm
  /-- `<wal>.hwm.tmp`. -/
  | hwmTmp
  deriving DecidableEq, Repr

/-- The contents of the files that are there. -/
abbrev WalFiles := WalFileName → Option Bytes

/-- What the operations see of the files. -/
def WalFiles.disk (files : WalFiles) : WalDisk := ⟨(files .log).getD [], files .hwm⟩

/-- `RewriteLocked`, when it gets to the end. -/
def rewriteSteps (payloads : List Bytes) : List (Step WalFileName Bytes) :=
  replace .rewrite .log (walFormat.frames payloads)

/-- `WriteHwmBestEffort`, when it gets to the end. -/
def hwmSteps (tipId : Int64) (tipHash : Bytes) : List (Step WalFileName Bytes) :=
  replace .hwmTmp .hwm (hwmBytes tipId tipHash)

namespace WriteAheadLog

/-- The steps of `Prune`.  When a record cannot be sealed only `<wal>.rewrite` has been written, and
nothing reads it. -/
def pruneSteps (c : Crypto) (nonce : ℕ → Except Bytes Nonce) (wal : WriteAheadLog)
    (files : WalFiles) (checkpointLsn : Int64) : List (Step WalFileName Bytes) :=
  match wal.readAll c files.disk with
  | .error _ => []
  | .ok records =>
    let claimed := claimedBelow checkpointLsn records
    let kept := records.filter fun r => !droppable checkpointLsn claimed r
    if records.length - kept.length = 0 then []
    else
      let kept := rechain c genesisHash kept
      match sealAll c nonce wal.subkey 0 kept with
      | .error _ => []
      | .ok payloads => rewriteSteps payloads ++ hwmSteps (lsnAfter kept - 1) (lastHash kept)

end WriteAheadLog

end DeSentry
