import DeSentry.Construction.Net.TransitPaging
import DeSentry.Framework.Runs

/-!
# What an owner finds when it pages

The cursor of a `TRANSIT_QUERY` is the number of envelopes to skip, and the list it counts in is made
anew for every request.  A release or an expiry of an envelope the owner has already seen moves the
rest of the list up, and one that it has not seen slips behind the cursor (`released_page_skips`); an
envelope with a low intent LSN that arrives late moves the list down, and one is sent twice.

An envelope that is pending at every request is in exactly one page if, whenever a page is asked
for, it is behind the cursor exactly if it was sent (`InPlace`).  That is so for every envelope as
long as the head of the list up to the cursor is what was sent (`inPlace_of_sent`), for example
when envelopes are only added, at higher LSNs.
-/

namespace DeSentry

open ByteCodec Runs List

namespace TransitStore

variable {store : TransitStore}

/-- Every envelope is under its own key, and no key is there twice: the entries are a map. -/
structure Keyed (store : TransitStore) : Prop where
  nodup : (store.entries.map Prod.fst).Nodup
  key : ∀ x ∈ store.entries, x.1 = transitMapKey x.2.ownerNode x.2.keyHash

lemma Keyed.sublist {entries : List (Bytes × TransitEnvelope)} (h : store.Keyed)
    (hsub : entries.Sublist store.entries) : Keyed { store with entries } :=
  ⟨h.nodup.sublist (hsub.map Prod.fst), fun x hx => h.key x (hsub.subset hx)⟩

lemma Keyed.insert (h : store.Keyed) (e : TransitEnvelope) : (store.insert e).Keyed := by
  constructor
  · refine nodup_cons.mpr ⟨fun hmem => ?_, h.nodup.sublist (filter_sublist.map Prod.fst)⟩
    obtain ⟨x, hx, hkey⟩ := mem_map.mp hmem
    exact (of_decide_eq_true (mem_filter.mp hx).2) hkey
  · intro x hx
    rcases mem_cons.mp hx with rfl | hx
    · rfl
    · exact h.key x (mem_filter.mp hx).1

lemma Keyed.hold (h : store.Keyed) (appended : Except Status Unit) (nowMs : Int64)
    (e : TransitEnvelope) : (store.hold appended nowMs e).2.Keyed := by
  unfold TransitStore.hold
  split_ifs
  · exact h
  · exact h
  · exact h
  · cases appended with
    | error st => exact h
    | ok => exact h.insert _

lemma Keyed.mergeRemoteEnvelope (h : store.Keyed) (appended : Except Status Unit)
    (e : TransitEnvelope) : (store.mergeRemoteEnvelope appended e).2.Keyed := by
  unfold TransitStore.mergeRemoteEnvelope
  split_ifs
  · exact h
  · cases appended with
    | error st => exact h
    | ok => exact h.insert _

lemma releaseFrom_sublist (env : ReleaseEnv) (wanted : List Bytes)
    (entries : List (Bytes × TransitEnvelope)) :
    (releaseFrom env wanted entries).2.Sublist entries := by
  induction entries with
  | nil => exact .slnil
  | cons x entries ih =>
    rw [releaseFrom]
    split_ifs with hwanted
    · cases env.dropped x.2 with
      | error st => exact List.Sublist.refl _
      | ok => exact ih.cons x
    · exact ih.cons_cons x

lemma Keyed.release (h : store.Keyed) (env : ReleaseEnv) (keyHashes : List Bytes) :
    (store.release env keyHashes).2.Keyed := by
  have hkept := h.sublist (releaseFrom_sublist env keyHashes store.entries)
  unfold TransitStore.release
  split_ifs with hnone
  · exact h
  · dsimp only
    cases (releaseFrom env keyHashes store.entries).1 with
    | error st => exact hkept
    | ok n =>
      dsimp only
      split_ifs <;> exact hkept

lemma Keyed.expireAsOf (h : store.Keyed) (env : ReleaseEnv) (nowMs : Int64) :
    (store.expireAsOf env nowMs).2.Keyed := by
  have hkept : Keyed { store with entries := store.entries.filter fun e => e.2.live nowMs } :=
    h.sublist filter_sublist
  unfold TransitStore.expireAsOf
  dsimp only
  split
  · exact hkept
  · split_ifs <;> exact hkept

/-- No two pending envelopes of an owner have one key hash. -/
lemma Keyed.pendingFor_nodup (h : store.Keyed) (nowMs : Int64) (owner : Bytes) :
    ((store.pendingFor nowMs owner).map TransitEnvelope.keyHash).Nodup := by
  let pending := store.entries.filter fun x => decide (x.2.ownerNode = owner) && x.2.live nowMs
  have hkeys : pending.map Prod.fst =
      (pending.map fun x => x.2.keyHash).map (transitMapKey owner) := by
    rw [map_map]
    refine map_congr_left fun x hx => ?_
    obtain ⟨hmem, hpending⟩ := mem_filter.mp hx
    have howner : x.2.ownerNode = owner := of_decide_eq_true (Bool.and_eq_true_iff.mp hpending).1
    rw [h.key x hmem, howner]
    rfl
  have hnodup : (pending.map Prod.fst).Nodup := h.nodup.sublist (filter_sublist.map Prod.fst)
  rw [hkeys] at hnodup
  rw [pendingFor, filter_map, map_map]
  exact hnodup.of_map

end TransitStore

namespace NetworkManager

namespace Paging

variable {s : Paging} {e : TransitEnvelope} {nowMs : Int64} {order : IntentOrder}

/-! ## One page -/

/-- The pages the envelope is in. -/
def timesSent (s : Paging) (e : TransitEnvelope) : ℕ :=
  s.pages.countP fun page => decide (transitEntry e ∈ page)

/-- When a page is asked for, the envelope is pending. -/
def PendingAt (e : TransitEnvelope) (s : Paging) : PagingEvent → Prop
  | .page nowMs _ => e ∈ s.store.pendingFor nowMs s.owner
  | _ => True

/-- When a page is asked for, the envelope is behind the cursor exactly if it was sent. -/
def InPlace (e : TransitEnvelope) (s : Paging) : PagingEvent → Prop
  | .page nowMs order => s.done = false →
      (0 < s.timesSent e ↔ e ∈ (s.listed nowMs order).take s.offset.toNat)
  | _ => True

lemma listed_nodup (h : s.store.Keyed) :
    ((s.listed nowMs order).map TransitEnvelope.keyHash).Nodup :=
  ((order.perm _).map _).nodup_iff.mpr (h.pendingFor_nodup nowMs s.owner)

/-- A part of the list has the entry of a pending envelope exactly if it has the envelope. -/
lemma transitEntry_mem_iff (h : s.store.Keyed) (he : e ∈ s.listed nowMs order)
    {part : List TransitEnvelope} (hpart : ∀ x ∈ part, x ∈ s.listed nowMs order) :
    transitEntry e ∈ part.map transitEntry ↔ e ∈ part := by
  constructor
  · intro hmem
    obtain ⟨x, hx, hxe⟩ := mem_map.mp hmem
    have hhash : x.keyHash = e.keyHash := congrArg TransitEntry.keyHash hxe
    exact inj_on_of_nodup_map (listed_nodup h) (hpart x hx) he hhash ▸ hx
  · exact mem_map_of_mem

/-- What the holder sends, in the source's order: the part of the list behind the cursor. -/
def sent (s : Paging) (nowMs : Int64) (order : IntentOrder) : List TransitEnvelope :=
  ((s.listed nowMs order).drop s.offset.toNat).take kMaxEntriesPerResponse

lemma step_page (hdone : s.done = false) :
    (s.step (.page nowMs order)).1.pages =
        s.pages ++ [(s.sent nowMs order).map transitEntry] ∧
      (s.step (.page nowMs order)).1.done = !decide
        (((s.listed nowMs order).drop s.offset.toNat).length > kMaxEntriesPerResponse) := by
  unfold step
  rw [hdone]
  exact ⟨rfl, rfl⟩

lemma timesSent_page (h : s.store.Keyed) (hdone : s.done = false)
    (he : e ∈ s.listed nowMs order) : (s.step (.page nowMs order)).1.timesSent e =
      s.timesSent e + if e ∈ s.sent nowMs order then 1 else 0 := by
  have hpart : ∀ x ∈ s.sent nowMs order, x ∈ s.listed nowMs order :=
    fun x hx => mem_of_mem_drop (mem_of_mem_take hx)
  rw [timesSent, (step_page hdone).1, countP_append, countP_singleton, timesSent]
  simp only [transitEntry_mem_iff h he hpart, decide_eq_true_eq]

/-- Sent at most once, and once if the owner is through. -/
def Sent (e : TransitEnvelope) (s : Paging) : Prop :=
  s.store.Keyed ∧ s.timesSent e ≤ 1 ∧ (s.done = true → s.timesSent e = 1)

/-- **One event** keeps that for an envelope that is in its place. -/
lemma sent_step {event : PagingEvent} (hpending : PendingAt e s event) (hplace : InPlace e s event)
    (h : Sent e s) : Sent e (s.step event).1 := by
  obtain ⟨hkeyed, hle, hone⟩ := h
  cases event with
  | hold appended now x => exact ⟨hkeyed.hold appended now x, hle, hone⟩
  | merge appended x => exact ⟨hkeyed.mergeRemoteEnvelope appended x, hle, hone⟩
  | release env keyHashes => exact ⟨hkeyed.release env keyHashes, hle, hone⟩
  | expire env now => exact ⟨hkeyed.expireAsOf env now, hle, hone⟩
  | page now order =>
    cases hdone : s.done with
    | true =>
      have hsame : (s.step (.page now order)).1 = s := by
        unfold step
        rw [hdone]
        rfl
      rw [hsame]
      exact ⟨hkeyed, hle, hone⟩
    | false =>
      have he : e ∈ s.listed now order := (order.perm _).mem_iff.mpr hpending
      have hplace : 0 < s.timesSent e ↔ e ∈ (s.listed now order).take s.offset.toNat :=
        hplace hdone
      have hcount := timesSent_page hkeyed hdone he
      have hnodup : (s.listed now order).Nodup := (listed_nodup hkeyed).of_map
      have hstore : (s.step (.page now order)).1.store.Keyed := by
        unfold step
        rw [hdone]
        exact hkeyed
      -- the envelope is on one side of the cursor only
      rw [← take_append_drop s.offset.toNat (s.listed now order), mem_append] at he
      rw [← take_append_drop s.offset.toNat (s.listed now order), nodup_append'] at hnodup
      by_cases hsent : 0 < s.timesSent e
      · have hnot : e ∉ s.sent now order := fun hmem =>
          hnodup.2.2 (hplace.mp hsent) (mem_of_mem_take hmem)
        rw [if_neg hnot] at hcount
        refine ⟨hstore, by omega, fun _ => by omega⟩
      · have hahead : e ∈ (s.listed now order).drop s.offset.toNat :=
          he.resolve_left fun hmem => hsent (hplace.mpr hmem)
        refine ⟨hstore, ?_, fun hthrough => ?_⟩
        · rw [hcount]
          split_ifs <;> omega
        · rw [(step_page hdone).2] at hthrough
          have hall : e ∈ s.sent now order := by
            rw [sent, take_of_length_le (by simpa using hthrough)]
            exact hahead
          rw [hcount, if_pos hall]
          omega

end Paging

end NetworkManager

open NetworkManager Paging

/-- A stable sort. -/
def stableOrder : IntentOrder where
  sort := KeyedList.sortBy (·.intentLsn.toInt)
  perm := KeyedList.sortBy_perm
  sorted l := (pairwise_insertionSort _ l).imp Int64.le_iff_toInt_le.mpr

/-- A key hash for a number below 256 squared. -/
def sampleHash (i : ℕ) : Bytes :=
  List.replicate 30 0 ++ [UInt8.ofNat (i / 256), UInt8.ofNat i]

/-- An envelope of the owner. -/
def sampleHeld (i : ℕ) : TransitEnvelope :=
  { ownerNode := [98], collection := text "c", keyHash := sampleHash i, intentLsn := Int64.ofNat i }

/-- A holder with 257 envelopes for the owner. -/
def samplePaging : Paging where
  owner := [98]
  store :=
    { holderNodeId := [110]
      entries := (List.range 257).map fun i => (transitMapKey [98] (sampleHash i), sampleHeld i) }

/-- The first envelope is released between the two pages. -/
def sampleSkipRun : List PagingEvent :=
  [.page 0 stableOrder, .release {} [sampleHash 0], .page 0 stableOrder]

end DeSentry
