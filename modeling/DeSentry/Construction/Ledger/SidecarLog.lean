import DeSentry.Construction.Common.Crc32
import DeSentry.Construction.Security.AtRest
import DeSentry.Framework.RecordLog

/-!
# The logs beside the ledger (`ledger/outbox_store.cpp`, `ledger/transit_store.cpp`)

The outbox and the transit store write through to a log of their own.  The two files have the same
form and the same code around it: a frame is the length of a payload, the payload and its CRC, the
payload is a record, sealed if the node encrypts its files.  A call appends at the end of the file,
wherever that is; a compaction writes the live rows to a sibling, removes the log, and renames.

What an operation does to the files is a list of steps.  The sibling is never read, so a compaction
that fails before it removes the log has no step.
-/

namespace DeSentry

open ByteCodec RecordLog

namespace SidecarLog

/-- `kOutboxRecordCap` and `kTransitRecordCap`. -/
def kRecordCap : ℕ := 2 ^ 20

/-- The frames of a log. -/
def format : Format := ⟨crc32, kRecordCap, by decide⟩

/-- What tells one log from another. -/
structure Config where
  /-- The tag of the subkey, which is also the associated data of a sealed record. -/
  tag : Bytes
  /-- The name of the file. -/
  logName : Bytes
  dataDir : Bytes := []
  /-- The data-encryption key; empty for a node in plaintext. -/
  dek : Bytes := []

/-- The `path_` of a store. -/
def Config.path (cfg : Config) : Bytes := cfg.dataDir ++ text "/" ++ cfg.logName

variable (c : Crypto) (cfg : Config)

/-! ## Opening -/

/-- `DetectLogMode`. -/
def detectLogMode (haveKey : Bool) : Option Bytes → Except Status Unit
  | none => .ok ()
  | some file =>
    if file.length < 4 then .ok ()
    else
      let bodyLen := leValue (file.take 4)
      if bodyLen = 0 ∨ bodyLen > kRecordCap then
        .error ⟨.corruption, cfg.logName ++ text ": implausible first record length -- not a " ++
          cfg.logName ++ text " file"⟩
      else
        let head := (file.drop 4).take (min bodyLen 64)
        if head.length < min bodyLen 64 then .ok ()
        else
          let isSealed := decide (4 ≤ head.length) && AtRest.looksSealedRecord head
          if isSealed ∧ !haveKey then
            .error ⟨.corruption, text "at-rest: sealed " ++ cfg.logName ++ text " " ++ cfg.path ++
              text " opened without encryption (missing unlock key?)"⟩
          else if !isSealed ∧ haveKey then
            .error ⟨.corruption, text "at-rest: plaintext " ++ cfg.logName ++ text " " ++
              cfg.path ++
              text " opened with encryption enabled; migrate it with `desentryd --re-encrypt`"⟩
          else .ok ()

/-- What the operating system does during an `Open`. -/
structure OpenEnv where
  /-- `MakeDirs`. -/
  made : Bool := true
  /-- The log can be created and opened. -/
  accessible : Bool := true

/-- `Open` up to `Load`: the subkey of the log. -/
def openSubkey (env : OpenEnv) (log : Option Bytes) : Except Status Bytes :=
  if cfg.dek ≠ [] ∧ cfg.dek.length ≠ AtRest.kDekLen then
    .error ⟨.invalidArgument, text "at-rest: DEK must be 32 bytes"⟩
  else if !env.made then .error ⟨.ioError, text "cannot create directory: " ++ cfg.dataDir⟩
  else
    match detectLogMode cfg (decide (cfg.dek ≠ [])) log with
    | .error st => .error st
    | .ok () => if cfg.dek = [] then .ok [] else AtRest.fileSubkey c cfg.dek cfg.tag

/-- The at-rest layer of `Load`: the body of a payload, or why the load stops. -/
def openBody (subkey payload : Bytes) : Except Failure Bytes :=
  if subkey ≠ [] then
    if !AtRest.looksSealedRecord payload then
      .error (.status ⟨.corruption, text "plaintext record in sealed log"⟩)
    else AtRest.openRecord c subkey payload cfg.tag
  else if AtRest.looksSealedRecord payload then
    .error (.status ⟨.corruption, text "sealed record without an unlock key"⟩)
  else .ok payload

/-! ## Writing -/

/-- The payload of a body. -/
def sealBody (nonce : Except Bytes Nonce) (subkey body : Bytes) : Except Status Bytes :=
  if subkey = [] then .ok body else AtRest.sealRecord c nonce subkey body cfg.tag

/-- What the operating system does during an `AppendRecord`. -/
structure AppendEnv where
  /-- The random generator's answer, or the text of its exception. -/
  nonce : Except Bytes Nonce := .error []
  /-- How many bytes of the frame reached the file; `none` when all of them did. -/
  reached : Option ℕ := none
  /-- `file_->good()` after the write. -/
  writeGood : Bool := true

variable {R : Type}

/-- `AppendRecord`; the stream is closed after a compaction that could not commit. -/
def appendRecord (env : AppendEnv) (subkey : Bytes) (isOpen : Bool) (record : R) (body : Bytes) :
    Except Status Unit × List (Step R) :=
  match sealBody c cfg env.nonce subkey body with
  | .error st => (.error st, [])
  | .ok payload =>
    let failed : Except Status Unit := .error ⟨.ioError, cfg.tag ++ text " log append failed"⟩
    if !isOpen then (failed, [])
    else
      let step := Step.append record (format.frame payload)
      (if env.writeGood then .ok () else failed,
        [match env.reached with
          | none => step
          | some k => step.cut k])

/-- What the operating system does during a `CompactLocked`. -/
structure CompactEnv where
  /-- The sibling could be opened. -/
  created : Bool := true
  /-- The random generator, for each row. -/
  nonce : ℕ → Except Bytes Nonce := fun _ => .error []
  /-- `out.good()` at the end. -/
  written : Bool := true
  /-- `std::rename` succeeded. -/
  renamed : Bool := true
  /-- The new log could be opened. -/
  reopened : Bool := true

/-- The payloads of the rows, from the `i`-th on. -/
def sealBodies (nonce : ℕ → Except Bytes Nonce) (subkey : Bytes) :
    ℕ → List Bytes → Except Status (List Bytes)
  | _, [] => .ok []
  | i, body :: bodies =>
    match sealBody c cfg (nonce i) subkey body with
    | .error st => .error st
    | .ok payload =>
      match sealBodies nonce subkey (i + 1) bodies with
      | .error st => .error st
      | .ok payloads => .ok (payload :: payloads)

/-- `CompactLocked`: the answer, the steps, and whether the stream is open afterwards. -/
def compactLocked (env : CompactEnv) (subkey : Bytes) (isOpen : Bool) (bodies : List Bytes) :
    Except Status Unit × List (Step R) × Bool :=
  if !env.created then
    (.error ⟨.ioError, text "cannot write " ++ cfg.path ++ text ".compact"⟩, [], isOpen)
  else
    match sealBodies c cfg env.nonce subkey 0 bodies with
    | .error st => (.error st, [], isOpen)
    | .ok payloads =>
      let steps := FileSteps.replace LogFile.sibling LogFile.log (format.frames payloads)
      if !env.written then
        (.error ⟨.ioError, cfg.tag ++ text " log compaction write failed"⟩, [], isOpen)
      else if !env.renamed then
        (.error ⟨.ioError, text "cannot commit compacted " ++ cfg.tag ++ text " log: " ++ cfg.path⟩,
          (steps.take 2).map .file, false)
      else if !env.reopened then
        (.error ⟨.ioError, text "cannot reopen " ++ cfg.tag ++ text " log: " ++ cfg.path⟩,
          steps.map .file, false)
      else (.ok (), steps.map .file, true)

end SidecarLog

end DeSentry
