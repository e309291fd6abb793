import DeSentry.Construction.Net.NetworkManager

/-!
# An owner pages through its envelopes

A returning owner asks a holder for its envelopes, page by page: it starts at offset 0 and goes on
at the `next_offset` of the last answer until an answer is not truncated (`ClaimPendingTransit`).
The holder keeps nothing between two requests.  It lists the pending envelopes anew, sorts them by
intent, and skips as many as the offset says (`HandleTransitQuery`); between two requests it may
hold, merge, release and expire envelopes, and time passes.

`std::sort` is not stable, so the order of envelopes with one intent LSN is part of the event.
-/

namespace DeSentry

open ByteCodec

namespace NetworkManager

/-- An order `std::sort` may leave the pending envelopes in. -/
structure IntentOrder where
  sort : List TransitEnvelope → List TransitEnvelope
  perm : ∀ l, (sort l).Perm l
  sorted : ∀ l, (sort l).Pairwise fun a b => a.intentLsn ≤ b.intentLsn

/-- A page of a sorted list. -/
def transitPage (pending : List TransitEnvelope) (offset : UInt64) : TransitResponsePayload :=
  let rest := pending.drop offset.toNat
  let entries := (rest.take kMaxEntriesPerResponse).map transitEntry
  { entries
    truncated := decide (rest.length > kMaxEntriesPerResponse)
    nextOffset := offset + UInt64.ofNat entries.length }

/-- `HandleTransitQuery` answers with a page of its list. -/
lemma transitResponse_eq (e : NodeEngine) (nowMs : Int64) (peer : Bytes) (offset : UInt64) :
    transitResponse e nowMs peer offset =
      transitPage (KeyedList.sortBy (·.intentLsn.toInt) (e.transit.pendingFor nowMs peer)) offset :=
  rfl

/-- A holder's store and the owner that pages through it. -/
structure Paging where
  owner : Bytes
  store : TransitStore
  /-- Where the owner goes on. -/
  offset : UInt64 := 0
  pages : List (List TransitEntry) := []
  /-- The last answer was not truncated. -/
  done : Bool := false

/-- What can happen. -/
inductive PagingEvent where
  | hold (appended : Except Status Unit) (nowMs : Int64) (e : TransitEnvelope)
  | merge (appended : Except Status Unit) (e : TransitEnvelope)
  | release (env : TransitStore.ReleaseEnv) (keyHashes : List Bytes)
  | expire (env : TransitStore.ReleaseEnv) (nowMs : Int64)
  /-- The owner asks for the next page. -/
  | page (nowMs : Int64) (order : IntentOrder)

namespace Paging

variable (s : Paging)

/-- The list the holder makes for a request. -/
def listed (nowMs : Int64) (order : IntentOrder) : List TransitEnvelope :=
  order.sort (s.store.pendingFor nowMs s.owner)

/-- One event. -/
def step (s : Paging) : PagingEvent → Paging × Unit
  | .hold appended nowMs e => ({ s with store := (s.store.hold appended nowMs e).2 }, ())
  | .merge appended e => ({ s with store := (s.store.mergeRemoteEnvelope appended e).2 }, ())
  | .release env keyHashes => ({ s with store := (s.store.release env keyHashes).2 }, ())
  | .expire env nowMs => ({ s with store := (s.store.expireAsOf env nowMs).2 }, ())
  | .page nowMs order =>
    if s.done then (s, ())
    else
      let response := transitPage (s.listed nowMs order) s.offset
      ({ s with
        offset := response.nextOffset
        pages := s.pages ++ [response.entries]
        done := !response.truncated }, ())

end Paging

end NetworkManager

end DeSentry
