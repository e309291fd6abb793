import DeSentry.Construction.Storage.WalRange

/-!
# The change feed (`ledger/change_feed.h`)

A client asks for the entries behind a cursor and waits until there are some.  `Wait` is a loop
around `Snapshot`: it returns a snapshot with entries or a truncated one, and otherwise sleeps until
the ledger has grown or its time is up.

`FeedClient` is a ledger, its feed and a client that starts at the beginning and moves its cursor to
the last entry it got.  A poll is one round of the loop of `Wait`; a `Wait` that runs out of time and
the next one with the same cursor are rounds of one loop.
-/

namespace DeSentry

open ByteCodec

/-- `struct ChangeBatch`. -/
structure ChangeBatch where
  entries : List WalRecord := []
  /-- The field `from`. -/
  cursor : Int64
  tip : Int64
  truncated : Bool := false
  deriving DecidableEq, Repr

/-- `class ChangeFeed`. -/
structure ChangeFeed where
  stopped : Bool := false
  maxTipEver : Int64 := kInvalidLsn
  deriving DecidableEq, Repr

namespace ChangeFeed

variable (feed : ChangeFeed)

/-- `Publish`. -/
def publish (tip : Int64) : ChangeFeed :=
  if tip > feed.maxTipEver then { feed with maxTipEver := tip } else feed

/-- The test `stale` of `Snapshot`. -/
def stale (tip since : Int64) : Bool :=
  let oldest := tip + 1
  decide (since ≥ 0) && (decide (since > tip) || decide (oldest > since + 1) ||
    (decide (since < tip) && decide (tip < feed.maxTipEver)))

/-- The mark after a `Snapshot`. -/
def marked (tip since : Int64) : ChangeFeed :=
  if since ≥ tip then { feed with maxTipEver := tip }
  else if tip > feed.maxTipEver then { feed with maxTipEver := tip }
  else feed

/-- `Snapshot`; a limit of 0 is none, and `start` is the offset the index of the ledger has. -/
def snapshot (c : Crypto) (wal : WriteAheadLog) (disk : WalDisk) (start : Option ℕ) (since : Int64)
    (limit : ℕ) : Except Failure ChangeBatch × ChangeFeed :=
  let tip := wal.tip.entryId
  let next := feed.marked tip since
  if feed.stale tip since then (.ok { cursor := since, tip, truncated := true }, next)
  else
    match wal.readRange c disk start (if since = kInvalidLsn then kInvalidLsn else since + 1) tip with
    | .error .thrown => (.error .thrown, next)
    | .error (.status _) => (.ok { cursor := since, tip, truncated := true }, next)
    | .ok records =>
      (.ok { entries := if limit ≠ 0 then records.take limit else records, cursor := since, tip },
        next)

/-- One round of the loop of `Wait`. -/
def poll (c : Crypto) (wal : WriteAheadLog) (disk : WalDisk) (start : Option ℕ) (since : Int64)
    (limit : ℕ) : Except Failure ChangeBatch × ChangeFeed :=
  if feed.stopped then (.error (.status ⟨.internal, text "change feed is stopped"⟩), feed)
  else feed.snapshot c wal disk start since limit

end ChangeFeed

/-- A ledger, its feed and a client. -/
structure FeedClient where
  wal : WriteAheadLog
  disk : WalDisk
  feed : ChangeFeed := {}
  since : Int64 := kInvalidLsn
  received : List WalRecord := []

/-- What can happen. -/
inductive FeedEvent where
  | append (env : AppendEnv) (call : AppendCall)
  | publish (tip : Int64)
  /-- The client is in a `Wait` and the feed looks at the ledger. -/
  | poll (limit : ℕ)

namespace FeedClient

variable (s : FeedClient)

/-- What a poll answers.  A range that is read starts at the first record or is empty; the index has
offset 0, or none, for the former. -/
def answer (c : Crypto) (limit : ℕ) : Except Failure ChangeBatch × ChangeFeed :=
  s.feed.poll c s.wal s.disk none s.since limit

/-- The client takes what it got. -/
def take (batch : ChangeBatch) : FeedClient :=
  { s with
    received := s.received ++ batch.entries
    since := (batch.entries.getLast?.map (·.lsn)).getD s.since }

/-- One event. -/
def step (c : Crypto) (s : FeedClient) : FeedEvent → FeedClient × Unit
  | .append env call =>
    let (_, wal, disk) := s.wal.append c env s.disk call
    ({ s with wal, disk }, ())
  | .publish tip => ({ s with feed := s.feed.publish tip }, ())
  | .poll limit =>
    match s.answer c limit with
    | (.error _, feed) => ({ s with feed }, ())
    | (.ok batch, feed) => ({ s with feed }.take batch, ())

end FeedClient

end DeSentry
