import DeSentry.Construction.Ledger.OutboxStore
import DeSentry.Construction.Ledger.SidecarLog

/-!
# The log of the outbox (`ledger/outbox_store.cpp`)

`Put` appends the entry, `DrainAll` appends a drop record for every entry and then compacts, and
`Load` reads the file when the store is opened.  `Decode` answers a drop record with an error, which
the loop of `Load` logs and skips.

A process is the files, the records written to them completely, and the store while it is open.  A
crash ends a call at any byte of what it writes.
-/

namespace DeSentry

open ByteCodec FrameLog RecordLog

/-- A record of `outbox.log`. -/
inductive OutboxRecord where
  | put (e : OutboxEntry)
  | drop (collection keyHash : Bytes)
  deriving DecidableEq, Repr

/-- The parameters of `OutboxStore::Open`. -/
structure OutboxConfig where
  dataDir : Bytes := []
  localNodeId : Bytes
  dek : Bytes := []

/-- An open store. -/
structure OutboxInstance where
  store : OutboxStore := {}
  subkey : Bytes := []
  /-- `file_` is open. -/
  isOpen : Bool := true
  deriving DecidableEq, Repr

namespace OutboxLog

/-- The log of the outbox. -/
def sidecar (cfg : OutboxConfig) : SidecarLog.Config where
  tag := text "outbox"
  logName := text "outbox.log"
  dataDir := cfg.dataDir
  dek := cfg.dek

variable (c : Crypto) (cfg : OutboxConfig)

/-! ## `Open` and `Load` -/

/-- One round of the loop of `Load`. -/
def judge (subkey : Bytes) (store : OutboxStore) (payload : Bytes) : Verdict OutboxStore :=
  match SidecarLog.openBody c (sidecar cfg) subkey payload with
  | .error .thrown => .throw
  | .error (.status _) => .reject
  | .ok body =>
    match OutboxEntry.decode body with
    | .error _ => .accept store
    | .ok e => .accept (store.insert e)

/-- `Open`.  The load stops at the first record it cannot read, and that is no error. -/
def openStore (env : SidecarLog.OpenEnv) (files : Files) : Except Failure OutboxInstance × Files :=
  if cfg.localNodeId = [] then
    (.error (.status ⟨.invalidArgument, text "outbox store opened with an empty node id"⟩), files)
  else
    match SidecarLog.openSubkey c (sidecar cfg) env (files .log) with
    | .error st => (.error (.status st), files)
    | .ok subkey =>
      if !env.accessible then
        (.error (.status ⟨.ioError, text "cannot open outbox log: " ++ (sidecar cfg).path⟩), files)
      else
        let contents := (files .log).getD []
        let files := Function.update files .log (some contents)
        match SidecarLog.format.load (judge c cfg subkey) {} contents with
        | (_, .thrown) => (.error .thrown, files)
        | (store, _) => (.ok { store, subkey }, files)

/-! ## `Put` and `DrainAll` -/

/-- `Put`, with what it does to the files. -/
def put (env : SidecarLog.AppendEnv) (nowMs : Int64) (e : OutboxEntry) (inst : OutboxInstance) :
    Except Status Unit × OutboxInstance × List (Step OutboxRecord) :=
  match OutboxStore.checkPut e with
  | .error st => (.error st, inst, [])
  | .ok () =>
    let stored := { e with createdMs := nowMs }
    let (appended, steps) := SidecarLog.appendRecord c (sidecar cfg) env inst.subkey inst.isOpen
      (.put stored) stored.encode
    let (answer, store) := inst.store.put appended nowMs e
    (answer, { inst with store }, steps)

/-- The drop records of `DrainAll`.  One that cannot be appended is only logged. -/
def dropSteps (drops : ℕ → SidecarLog.AppendEnv) (inst : OutboxInstance) (out : List OutboxEntry) :
    List (Step OutboxRecord) :=
  (out.mapIdx fun i e => (SidecarLog.appendRecord c (sidecar cfg) (drops i) inst.subkey inst.isOpen
    (.drop e.collection e.keyHash) (OutboxEntry.encodeDrop e.collection e.keyHash)).2).flatten

/-- `DrainAll`, with what it does to the files. -/
def drainAll (order : MapOrder OutboxEntry) (drops : ℕ → SidecarLog.AppendEnv)
    (compact : SidecarLog.CompactEnv) (inst : OutboxInstance) :
    List OutboxEntry × OutboxInstance × List (Step OutboxRecord) :=
  let (out, store) := inst.store.drainAll order
  if out = [] then ([], inst, [])
  else
    let (_, steps, isOpen) := SidecarLog.compactLocked c (sidecar cfg) compact inst.subkey
      inst.isOpen (store.entries.map fun e => e.2.encode)
    (out, { inst with store, isOpen }, dropSteps c cfg drops inst out ++ steps)

end OutboxLog

/-! ## The process -/

/-- The files, the records that were written completely, and the store while it is open. -/
structure OutboxProcess extends Recorded OutboxRecord where
  running : Option OutboxInstance := none

/-- What can happen.  A crash lets `n` steps of a call happen, and `k` bytes of the next one. -/
inductive OutboxLogEvent where
  | openStore (env : SidecarLog.OpenEnv)
  | put (env : SidecarLog.AppendEnv) (nowMs : Int64) (e : OutboxEntry) (crash : Option (ℕ × ℕ))
  | drainAll (order : MapOrder OutboxEntry) (drops : ℕ → SidecarLog.AppendEnv)
      (compact : SidecarLog.CompactEnv) (crash : Option (ℕ × ℕ))

/-- What a call answers; a call that ends in a crash answers nothing. -/
inductive OutboxLogAnswer where
  | opened (answer : Except Failure OutboxInstance)
  | put (answer : Except Status Unit)
  | drained (entries : List OutboxEntry)
  | silent

namespace OutboxProcess

variable (c : Crypto) (cfg : OutboxConfig)

/-- The process after a call that makes some steps. -/
def after (p : OutboxProcess) (inst : OutboxInstance) (steps : List (Step OutboxRecord))
    (crash : Option (ℕ × ℕ)) (answer : OutboxLogAnswer) : OutboxProcess × OutboxLogAnswer :=
  ({ toRecorded := p.exec (executed steps crash)
     running := if crash.isNone then some inst else none },
    if crash.isNone then answer else .silent)

/-- One event. -/
def step (p : OutboxProcess) : OutboxLogEvent → OutboxProcess × OutboxLogAnswer
  | .openStore env =>
    let (answer, files) := OutboxLog.openStore c cfg env p.files
    ({ p with files, running := answer.toOption }, .opened answer)
  | .put env nowMs e crash =>
    match p.running with
    | none => (p, .silent)
    | some inst =>
      let (answer, inst, steps) := OutboxLog.put c cfg env nowMs e inst
      p.after inst steps crash (.put answer)
  | .drainAll order drops compact crash =>
    match p.running with
    | none => (p, .silent)
    | some inst =>
      let (out, inst, steps) := OutboxLog.drainAll c cfg order drops compact inst
      p.after inst steps crash (.drained out)

end OutboxProcess

end DeSentry
