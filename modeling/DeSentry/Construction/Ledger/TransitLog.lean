import DeSentry.Construction.Ledger.OutboxStore
import DeSentry.Construction.Ledger.SidecarLog
import DeSentry.Construction.Ledger.TransitStore

/-!
# The log of the transit store (`ledger/transit_store.cpp`)

`Hold` and `MergeRemoteEnvelope` append the envelope, `ExpireAsOf` and `Release` append a drop record
for every envelope they take out and then compact.  `Load` applies both kinds of records.  Where it
finds bytes that are all there and wrong, it stops and rewrites the log with what it has; a torn
frame at the end is left there.

A process is the files, the records written to them completely, and the store while it is open.  A
crash ends a call at any byte of what it writes.
-/

namespace DeSentry

open ByteCodec FrameLog RecordLog

/-- `EncodeDropBody`. -/
def TransitEnvelope.encodeDrop (ownerNode keyHash : Bytes) : Bytes :=
  ByteWriter.u32 kTransitMagic ++ ByteWriter.u32 3 ++ ByteWriter.u8 2 ++
  ByteWriter.bytes ownerNode ++ ByteWriter.bytes keyHash

/-- A record of `transit.log`. -/
inductive TransitRecord where
  | hold (e : TransitEnvelope)
  | drop (ownerNode keyHash : Bytes)
  deriving DecidableEq, Repr

/-- The parameters of `TransitStore::Open`. -/
structure TransitConfig where
  dataDir : Bytes := []
  ttlSeconds : UInt32 := 0
  holderNodeId : Bytes
  dek : Bytes := []

/-- An open store. -/
structure TransitInstance where
  store : TransitStore
  subkey : Bytes := []
  /-- `file_` is open. -/
  isOpen : Bool := true
  deriving DecidableEq, Repr

variable (store : TransitStore)

/-- The map without a key. -/
def TransitStore.erase (ownerNode keyHash : Bytes) : TransitStore :=
  { store with
    entries := store.entries.filter fun e => decide (e.1 ≠ transitMapKey ownerNode keyHash) }

namespace TransitLog

/-- The log of the transit store. -/
def sidecar (cfg : TransitConfig) : SidecarLog.Config where
  tag := text "transit"
  logName := text "transit.log"
  dataDir := cfg.dataDir
  dek := cfg.dek

variable (c : Crypto) (cfg : TransitConfig)

/-- What `CompactLocked` has around it, with the order in which it walks the map. -/
structure CompactEnv extends SidecarLog.CompactEnv where
  order : MapOrder TransitEnvelope := ⟨id, fun _ => .refl _⟩

/-- `CompactLocked`. -/
def compactLocked (env : CompactEnv) (subkey : Bytes) (isOpen : Bool) (store : TransitStore) :
    Except Status Unit × List (Step TransitRecord) × Bool :=
  SidecarLog.compactLocked c (sidecar cfg) env.toCompactEnv subkey isOpen
    ((env.order.1 (store.entries.map Prod.snd)).map (·.encode))

/-! ## `Open` and `Load` -/

/-- One round of the loop of `Load`. -/
def judge (subkey : Bytes) (store : TransitStore) (payload : Bytes) : Verdict TransitStore :=
  match SidecarLog.openBody c (sidecar cfg) subkey payload with
  | .error .thrown => .throw
  | .error (.status _) => .reject
  | .ok body =>
    match TransitEnvelope.readBody.run body with
    | .ok (.ok (.hold e), _) => .accept (store.insert e)
    | .ok (.ok (.drop ownerNode keyHash), _) => .accept (store.erase ownerNode keyHash)
    | _ => .accept store

/-- `Open`, with what it does to the log once it is there. -/
def openStore (env : SidecarLog.OpenEnv) (compact : CompactEnv) (files : Files) :
    Except Failure TransitInstance × Files × List (Step TransitRecord) :=
  if cfg.holderNodeId = [] then
    (.error (.status ⟨.invalidArgument,
      text "transit store opened with an empty holder node id"⟩), files, [])
  else
    match SidecarLog.openSubkey c (sidecar cfg) env (files .log) with
    | .error st => (.error (.status st), files, [])
    | .ok subkey =>
      if !env.accessible then
        (.error (.status ⟨.ioError, text "cannot open transit log: " ++ (sidecar cfg).path⟩),
          files, [])
      else
        let contents := (files .log).getD []
        let files := Function.update files .log (some contents)
        let empty : TransitStore := ⟨cfg.holderNodeId, cfg.ttlSeconds, []⟩
        match SidecarLog.format.load (judge c cfg subkey) empty contents with
        | (_, .thrown) => (.error .thrown, files, [])
        | (store, .clean) => (.ok { store, subkey }, files, [])
        | (store, .corrupt) =>
          let (_, steps, isOpen) := compactLocked c cfg compact subkey true store
          (.ok { store, subkey, isOpen }, files, steps)

/-! ## `Hold` and `MergeRemoteEnvelope` -/

/-- The checks of `Hold` let the envelope through. -/
def holds (e : TransitEnvelope) : Bool :=
  decide (e.ownerNode ≠ []) && decide (e.keyHash.length = kWalHashLen) &&
    decide (e.ownerNode ≠ store.holderNodeId)

/-- `Hold`, with what it does to the files. -/
def hold (env : SidecarLog.AppendEnv) (nowMs : Int64) (e : TransitEnvelope)
    (inst : TransitInstance) : Except Status Unit × TransitInstance × List (Step TransitRecord) :=
  let stored := inst.store.stamped nowMs e
  let (appended, steps) :=
    if holds inst.store e then SidecarLog.appendRecord c (sidecar cfg) env inst.subkey inst.isOpen
      (.hold stored) stored.encode
    else (.ok (), [])
  let (answer, store) := inst.store.hold appended nowMs e
  (answer, { inst with store }, steps)

/-- The checks of `MergeRemoteEnvelope` let the envelope through. -/
def merges (e : TransitEnvelope) : Bool :=
  decide (e.ownerNode ≠ []) && decide (e.keyHash.length = kWalHashLen)

/-- `MergeRemoteEnvelope`, with what it does to the files. -/
def mergeRemoteEnvelope (env : SidecarLog.AppendEnv) (e : TransitEnvelope)
    (inst : TransitInstance) : Except Status Unit × TransitInstance × List (Step TransitRecord) :=
  let (appended, steps) :=
    if merges e then SidecarLog.appendRecord c (sidecar cfg) env inst.subkey inst.isOpen
      (.hold e) e.encode
    else (.ok (), [])
  let (answer, store) := inst.store.mergeRemoteEnvelope appended e
  (answer, { inst with store }, steps)

/-! ## `Release` and `ExpireAsOf` -/

/-- What the operating system does during a `Release` or an `ExpireAsOf`: the order in which the map
is walked, the drop record of each envelope, and the compaction. -/
structure DropEnv where
  order : MapOrder (Bytes × TransitEnvelope) := ⟨id, fun _ => .refl _⟩
  drops : TransitEnvelope → SidecarLog.AppendEnv := fun _ => {}
  compact : CompactEnv := {}

/-- `AppendRecord` of a drop record. -/
def dropRecord (env : SidecarLog.AppendEnv) (inst : TransitInstance) (e : TransitEnvelope) :
    Except Status Unit × List (Step TransitRecord) :=
  SidecarLog.appendRecord c (sidecar cfg) env inst.subkey inst.isOpen
    (.drop e.ownerNode e.keyHash) (TransitEnvelope.encodeDrop e.ownerNode e.keyHash)

variable (env : DropEnv) (inst : TransitInstance)

/-- The answers of the drop records. -/
def dropped (e : TransitEnvelope) : Except Status Unit :=
  (dropRecord c cfg (env.drops e) inst e).1

/-- The drop records of some envelopes, until an append fails. -/
def dropSteps (env : DropEnv) (inst : TransitInstance) :
    List TransitEnvelope → List (Step TransitRecord)
  | [] => []
  | e :: rest =>
    match dropRecord c cfg (env.drops e) inst e with
    | (.error _, steps) => steps
    | (.ok (), steps) => steps ++ dropSteps env inst rest

/-- What both calls do to the files, and whether the stream is open afterwards: the drop records of
`rows`, and if there are any and all are written, a compaction to the rows of `store`. -/
def dropAll (rows : List TransitEnvelope) (store : TransitStore) :
    Except Status Unit × List (Step TransitRecord) × Bool :=
  let steps := dropSteps c cfg env inst rows
  match TransitStore.appendDrops ⟨dropped c cfg env inst, .ok ()⟩ rows with
  | .error st => (.error st, steps, inst.isOpen)
  | .ok () =>
    if rows = [] then (.ok (), steps, inst.isOpen)
    else
      let (answer, more, isOpen) := compactLocked c cfg env.compact inst.subkey inst.isOpen store
      (answer, steps ++ more, isOpen)

/-- The map, as it is walked. -/
def walked : TransitStore :=
  { inst.store with entries := env.order.1 inst.store.entries }

variable (keyHashes : List Bytes)

/-- The envelopes that `Release` goes for, in the order of the walk. -/
def wanted (inst : TransitInstance) : List TransitEnvelope :=
  ((walked env inst).entries.map Prod.snd).filter fun e => decide (e.keyHash ∈ keyHashes)

/-- `Release`, with what it does to the files. -/
def release (inst : TransitInstance) :
    Except Status ℕ × TransitInstance × List (Step TransitRecord) :=
  let store := walked env inst
  let dropped := dropped c cfg env inst
  let (compacted, steps, isOpen) := dropAll c cfg env inst (wanted env keyHashes inst)
    (store.release ⟨dropped, .ok ()⟩ keyHashes).2
  let (answer, store) := store.release ⟨dropped, compacted⟩ keyHashes
  (answer, { inst with store, isOpen }, steps)

/-- The envelopes that `ExpireAsOf` goes for. -/
def expired (nowMs : Int64) (inst : TransitInstance) : List TransitEnvelope :=
  ((walked env inst).entries.map Prod.snd).filter fun e => !e.live nowMs

/-- `ExpireAsOf`, with what it does to the files. -/
def expireAsOf (nowMs : Int64) (inst : TransitInstance) :
    Except Status ℕ × TransitInstance × List (Step TransitRecord) :=
  let store := walked env inst
  let dropped := dropped c cfg env inst
  let (compacted, steps, isOpen) := dropAll c cfg env inst (expired env nowMs inst)
    (store.expireAsOf ⟨dropped, .ok ()⟩ nowMs).2
  let (answer, store) := store.expireAsOf ⟨dropped, compacted⟩ nowMs
  (answer, { inst with store, isOpen }, steps)

end TransitLog

/-! ## The process -/

/-- The files, the records that were written completely, and the store while it is open. -/
structure TransitProcess extends Recorded TransitRecord where
  running : Option TransitInstance := none

/-- What can happen.  A crash lets `n` steps of a call happen, and `k` bytes of the next one. -/
inductive TransitLogEvent where
  | openStore (env : SidecarLog.OpenEnv) (compact : TransitLog.CompactEnv)
      (crash : Option (ℕ × ℕ))
  | hold (env : SidecarLog.AppendEnv) (nowMs : Int64) (e : TransitEnvelope)
      (crash : Option (ℕ × ℕ))
  | mergeRemoteEnvelope (env : SidecarLog.AppendEnv) (e : TransitEnvelope)
      (crash : Option (ℕ × ℕ))
  | release (env : TransitLog.DropEnv) (keyHashes : List Bytes) (crash : Option (ℕ × ℕ))
  | expireAsOf (env : TransitLog.DropEnv) (nowMs : Int64) (crash : Option (ℕ × ℕ))

/-- What a call answers; a call that ends in a crash answers nothing. -/
inductive TransitLogAnswer where
  | opened (answer : Except Failure TransitInstance)
  | held (answer : Except Status Unit)
  | dropped (answer : Except Status ℕ)
  | silent

namespace TransitProcess

variable (c : Crypto) (cfg : TransitConfig) (p : TransitProcess)

/-- The process after a call that makes some steps. -/
def after (inst : Option TransitInstance) (steps : List (Step TransitRecord))
    (crash : Option (ℕ × ℕ)) (answer : TransitLogAnswer) : TransitProcess × TransitLogAnswer :=
  ({ toRecorded := p.exec (executed steps crash), running := if crash.isNone then inst else none },
    if crash.isNone then answer else .silent)

/-- One event. -/
def step : TransitLogEvent → TransitProcess × TransitLogAnswer
  | .openStore env compact crash =>
    let (answer, files, steps) := TransitLog.openStore c cfg env compact p.files
    after { p with files } answer.toOption steps crash (.opened answer)
  | .hold env nowMs e crash =>
    match p.running with
    | none => (p, .silent)
    | some inst =>
      let (answer, inst, steps) := TransitLog.hold c cfg env nowMs e inst
      p.after inst steps crash (.held answer)
  | .mergeRemoteEnvelope env e crash =>
    match p.running with
    | none => (p, .silent)
    | some inst =>
      let (answer, inst, steps) := TransitLog.mergeRemoteEnvelope c cfg env e inst
      p.after inst steps crash (.held answer)
  | .release env keyHashes crash =>
    match p.running with
    | none => (p, .silent)
    | some inst =>
      let (answer, inst, steps) := TransitLog.release c cfg env keyHashes inst
      p.after inst steps crash (.dropped answer)
  | .expireAsOf env nowMs crash =>
    match p.running with
    | none => (p, .silent)
    | some inst =>
      let (answer, inst, steps) := TransitLog.expireAsOf c cfg env nowMs inst
      p.after inst steps crash (.dropped answer)

end TransitProcess

end DeSentry
