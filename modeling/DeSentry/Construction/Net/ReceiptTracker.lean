import DeSentry.Construction.Net.WireProtocol
import DeSentry.Framework.AssocMap

/-!
# Durable writes (`net/receipt_tracker.h`)

A `PUT` with a durability above one broadcasts its write from inside `PutDocument` and waits
afterwards, in `WaitForDurability`, for the receipts of peers.  The receipts come in on the threads
of the broadcast pool, which check their signatures and hand them to `NoteReceipt`; a receipt whose
message nobody waits for is dropped.

`DurableWrite` is one such request with the tracker.  A receipt in an event is one whose signature
has been verified.  The waiter sleeps on a condition variable: it looks at its state when it is
woken and when its deadline has passed.
-/

namespace DeSentry

open ByteCodec

/-- `struct WaitState`. -/
structure WaitState where
  wanted : UInt32 := 0
  receipts : List MergeReceipt := []
  satisfied : Bool := false
  stopped : Bool := false
  deriving DecidableEq, Repr

/-- `class ReceiptTracker`. -/
structure ReceiptTracker where
  capacity : ℕ := 8192
  waits : List (Bytes × WaitState) := []
  order : List Bytes := []
  deriving DecidableEq, Repr

namespace ReceiptTracker

variable (t : ReceiptTracker)

/-- The waits without the one of a message. -/
def eraseWait (waits : List (Bytes × WaitState)) (messageId : Bytes) : List (Bytes × WaitState) :=
  waits.filter fun w => decide (w.1 ≠ messageId)

/-- The loop of `EvictIfNeeded`; it stops at a wait that is active, or whose message is gone. -/
def evictLoop (capacity : ℕ) :
    List (Bytes × WaitState) → List Bytes → List (Bytes × WaitState) × List Bytes
  | waits, [] => (waits, [])
  | waits, front :: order =>
    if waits.length < capacity then (waits, front :: order)
    else
      match AssocMap.get waits front with
      | none => (waits, front :: order)
      | some ws =>
        if ws.satisfied || ws.stopped then evictLoop capacity (eraseWait waits front) order
        else (waits, front :: order)

/-- `EvictIfNeeded`. -/
def evictIfNeeded : ReceiptTracker :=
  let (waits, order) := evictLoop t.capacity t.waits t.order
  { t with waits, order }

/-- `WaitFor` up to its wait. -/
def register (messageId : Bytes) (wanted : UInt32) : ReceiptTracker :=
  match AssocMap.get t.waits messageId with
  | some ws =>
    { t with
      waits := AssocMap.set t.waits messageId
        { ws with wanted := if wanted > ws.wanted then wanted else ws.wanted } }
  | none =>
    let t := t.evictIfNeeded
    { t with
      waits := AssocMap.set t.waits messageId { wanted }
      order := t.order ++ [messageId] }

/-- The end of `WaitFor`. -/
def finish (messageId : Bytes) : ReceiptTracker :=
  { t with
    waits := eraseWait t.waits messageId
    order := if t.order.head? = some messageId then t.order.tail else t.order }

/-- `NoteReceipt`. -/
def noteReceipt (receipt : MergeReceipt) : ReceiptTracker :=
  if receipt.messageId = [] ∨ receipt.applierNode = [] ∨ receipt.keyHash.length ≠ 32 then t
  else
    match AssocMap.get t.waits receipt.messageId with
    | none => t
    | some ws =>
      -- a receipt of the same node for the same key is a duplicate
      if ws.receipts.any fun r => decide (r.applierNode = receipt.applierNode) &&
          decide (r.keyHash = receipt.keyHash) then t
      else
        let receipts := ws.receipts ++ [receipt]
        { t with
          waits := AssocMap.set t.waits receipt.messageId
            { ws with
              receipts
              satisfied := ws.satisfied || decide (receipts.length ≥ ws.wanted.toNat) } }

/-- `Stop`. -/
def stop : ReceiptTracker :=
  { t with waits := t.waits.map fun w => (w.1, { w.2 with stopped := true }) }

end ReceiptTracker

/-- `struct DurabilityReport`. -/
structure DurabilityReport where
  requested : UInt32
  achieved : UInt32
  replicas : List Bytes
  timedOut : Bool := false
  deriving DecidableEq, Repr

/-- Where a durable write stands. -/
inductive WritePhase where
  /-- In `PutDocument`: the broadcast may be out. -/
  | writing
  /-- In `WaitFor`, registered. -/
  | waiting
  | returned (report : DurabilityReport)
  deriving DecidableEq, Repr

/-- A `PUT` and the tracker. -/
structure DurableWrite where
  self : Bytes
  messageId : Bytes
  durability : UInt32
  tracker : ReceiptTracker := {}
  phase : WritePhase := .writing
  deriving DecidableEq, Repr

/-- What can happen. -/
inductive WriteEvent where
  /-- A thread of the pool has verified a receipt. -/
  | note (receipt : MergeReceipt)
  /-- `PutDocument` has returned, and `WaitForDurability` is called. -/
  | waitForDurability
  /-- The waiter looks at its state; `timeout` when the deadline has passed. -/
  | wake (timeout : Bool)
  | stop

namespace DurableWrite

variable (w : DurableWrite)

/-- The receipts `WaitForDurability` wants. -/
def wantedFromPeers : UInt32 := if w.durability > 1 then w.durability - 1 else 0

/-- The report on the local write alone. -/
def localReport (timedOut : Bool) : DurabilityReport :=
  { requested := w.durability, achieved := 1, replicas := [w.self], timedOut }

/-- The report of `WaitForDurability` on the receipts `WaitFor` returned. -/
def receiptReport (receipts : List MergeReceipt) : DurabilityReport :=
  { requested := w.durability
    achieved := 1 + UInt32.ofNat receipts.length
    replicas := w.self :: receipts.map (·.applierNode)
    timedOut := decide (receipts.length < w.wantedFromPeers.toNat) }

/-- `WaitFor` returns. -/
def finishWith (ws : WaitState) : DurableWrite :=
  { w with
    tracker := w.tracker.finish w.messageId
    phase := .returned (if ws.stopped then w.localReport true else w.receiptReport ws.receipts) }

/-- `WaitForDurability` up to the wait. -/
def startWait : DurableWrite :=
  if w.wantedFromPeers = 0 then { w with phase := .returned (w.localReport false) }
  else
    let w := { w with tracker := w.tracker.register w.messageId w.wantedFromPeers }
    match AssocMap.get w.tracker.waits w.messageId with
    | none => w
    | some ws =>
      -- here `stopped` is not looked at
      if ws.receipts.length ≥ w.wantedFromPeers.toNat then
        { w with
          tracker := w.tracker.finish w.messageId
          phase := .returned (w.receiptReport ws.receipts) }
      else { w with phase := .waiting }

/-- The waiter looks at its state. -/
def look (timeout : Bool) : DurableWrite :=
  match AssocMap.get w.tracker.waits w.messageId with
  | none => w
  | some ws =>
    if timeout || ws.satisfied || ws.stopped ||
        decide (ws.receipts.length ≥ w.wantedFromPeers.toNat) then w.finishWith ws
    else w

/-- The call has returned. -/
def hasReturned : Bool :=
  match w.phase with
  | .returned _ => true
  | _ => false

/-- One event, and the receipt for this write that has arrived in it, before the call returned. -/
def step (w : DurableWrite) : WriteEvent → DurableWrite × Option MergeReceipt
  | .note receipt =>
    ({ w with tracker := w.tracker.noteReceipt receipt },
      if receipt.messageId = w.messageId ∧ !w.hasReturned then some receipt else none)
  | .waitForDurability => (if w.phase = .writing then w.startWait else w, none)
  | .wake timeout => (if w.phase = .waiting then w.look timeout else w, none)
  | .stop => ({ w with tracker := w.tracker.stop }, none)

end DurableWrite

end DeSentry
