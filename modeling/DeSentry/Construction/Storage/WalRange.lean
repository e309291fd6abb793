import DeSentry.Construction.Storage.Wal

/-!
# Reading a part of the ledger (`storage/wal.cpp`)

`ReadRange` seeks to a frame and reads on from there until a record is past the range or the file
cannot be read any further.  Where it seeks to is looked up in an index of offsets; the index is
not part of this file, and its answer is an argument.
-/

namespace DeSentry

open ByteCodec FrameLog

/-- `struct LedgerTip`. -/
structure LedgerTip where
  entryId : Int64
  entryHash : Bytes
  deriving DecidableEq, Repr

/-- A payload as a record of either layout. -/
def decodePayload (c : Crypto) (payload : Bytes) : Except Status WalRecord :=
  if hasBodyMagic payload then decodeBody payload else decodeBodyV1 c payload

/-- The loop body of `ReadRange` on a frame whose checksum is right. -/
def readRangeRecord (c : Crypto) (subkey : Bytes) (lo hi : Int64) (out : List WalRecord)
    (payload : Bytes) : Verdict (List WalRecord) :=
  match unsealPayload c subkey payload with
  | .error (.status _) => .reject
  | .error .thrown => .throw
  | .ok payload =>
    match decodePayload c payload with
    | .error _ => .reject
    | .ok r => if r.lsn > hi then .reject else .accept (if r.lsn ≥ lo then out ++ [r] else out)

namespace WriteAheadLog

/-- `Tip`. -/
def tip (wal : WriteAheadLog) : LedgerTip := ⟨wal.nextLsn - 1, wal.tipHash⟩

/-- `ReadRange`; `start` is the offset the index has for the range. -/
def readRange (c : Crypto) (wal : WriteAheadLog) (disk : WalDisk) (start : Option ℕ)
    (lo hi : Int64) : Except Failure (List WalRecord) :=
  if hi < 0 ∨ wal.nextLsn ≤ 0 then .ok []
  else
    let lo := if lo < 0 then 0 else lo
    if lo > hi then .ok []
    else
      match walFormat.replay (readRangeRecord c wal.subkey lo hi) []
          ((wal.contents disk).drop (start.getD 0)) with
      | (_, .thrown) => .error .thrown
      | (out, _) => .ok out

end WriteAheadLog

end DeSentry
