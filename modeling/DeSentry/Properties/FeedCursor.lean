import DeSentry.Construction.Ledger.ChangeFeed
import DeSentry.Properties.LedgerDisclosure
import DeSentry.Properties.PutOrder

/-!
# What a client of the change feed gets

`Snapshot` takes the tip plus one for the oldest entry of the ledger, so a cursor counts as pruned
away as soon as the ledger has an entry behind it.  A client gets its first batch; if that was not
the whole ledger, or the ledger has grown when it comes back, the next answer is `truncated`
(`second_batch_truncated`).

The feed keeps its promise in exactly those runs in which every poll is made from the beginning or
with nothing new behind the cursor (`feed_delivers_iff`).
-/

namespace DeSentry

open ByteCodec WriteAheadLog Runs ChangeFeed List

variable {c : Crypto} {dek : Bytes} {records : List WalRecord}

/-! ## The tip and the records -/

section Tip

variable {s : LogState}

/-- The tip is the last record's LSN. -/
lemma Sound.tip_eq (h : Sound c dek s records) (hopen : s.1.isOpen = true) :
    s.1.tip.entryId = (records.getLast?.map (·.lsn)).getD kInvalidLsn := by
  change s.1.nextLsn - 1 = _
  rw [(h.object hopen).2]
  cases records using List.reverseRecOn with
  | nil => rfl
  | append_singleton rs r =>
    rw [lsnAfter_concat, getLast?_concat]
    exact Int64.add_sub_cancel r.lsn 1

/-- No record is past the tip. -/
lemma Sound.lsn_le_tip (h : Sound c dek s records) (hopen : s.1.isOpen = true) {r : WalRecord}
    (hr : r ∈ records) : r.lsn ≤ s.1.tip.entryId := by
  rw [h.tip_eq hopen]
  have hordered := h.ledger.ordered
  cases records using List.reverseRecOn with
  | nil => cases hr
  | append_singleton rs last =>
    rw [getLast?_concat]
    change r.lsn ≤ last.lsn
    rcases mem_append.mp hr with hr | hr
    · exact Int64.le_of_lt ((pairwise_append.mp hordered).2.2 r hr last (mem_singleton_self _))
    · rw [mem_singleton.mp hr]
      exact Int64.le_refl _

/-- The last record is before the next LSN. -/
lemma Sound.last_bounds {rs : List WalRecord} {r : WalRecord} (h : Sound c dek s (rs ++ [r]))
    (hopen : s.1.isOpen = true) : s.1.tip.entryId = r.lsn ∧ s.1.nextLsn = r.lsn + 1 ∧ 0 ≤ r.lsn ∧
      r.lsn < r.lsn + 1 := by
  have htip := h.tip_eq hopen
  have hnext := (h.object hopen).2
  have hbounds := h.ledger.lsn_bounds r (mem_append_right _ (mem_singleton_self _))
  rw [getLast?_concat] at htip
  rw [lsnAfter_concat] at hnext hbounds
  exact ⟨htip, hnext, hbounds⟩

/-- The tip has a successor. -/
lemma Sound.tip_ne_maxValue (h : Sound c dek s records) (hopen : s.1.isOpen = true) :
    s.1.tip.entryId ≠ Int64.maxValue := by
  cases records using List.reverseRecOn with
  | nil =>
    rw [h.tip_eq hopen]
    decide
  | append_singleton rs r =>
    obtain ⟨htip, -, -, hlt⟩ := h.last_bounds hopen
    intro hmax
    rw [htip] at hmax
    rw [hmax] at hlt
    exact absurd hlt (by decide)

/-- There is nothing to read in an empty ledger. -/
lemma Sound.readRange_nil (h : Sound c dek s []) (hopen : s.1.isOpen = true) (lo : Int64) :
    s.1.readRange c s.2 none lo s.1.tip.entryId = .ok [] := by
  have hnone : s.1.tip.entryId < 0 := by
    rw [h.tip_eq hopen]
    decide
  unfold WriteAheadLog.readRange
  rw [if_pos (Or.inl hnone)]

/-- Reading everything. -/
lemma Sound.readRange_all (h : Sound c dek s records) (hopen : s.1.isOpen = true) :
    s.1.readRange c s.2 none kInvalidLsn s.1.tip.entryId = .ok records := by
  cases records using List.reverseRecOn with
  | nil => exact h.readRange_nil hopen _
  | append_singleton rs r =>
    obtain ⟨htip, hnext, hnonneg, hlt⟩ := h.last_bounds hopen
    have hstart : s.1.readRange c s.2 none kInvalidLsn s.1.tip.entryId =
        s.1.readRange c s.2 none 0 s.1.tip.entryId := rfl
    have hread := h.readRange hopen (hnext ▸ Int64.lt_of_le_of_lt hnonneg hlt) (Int64.le_refl 0)
      (htip ▸ hnonneg) (fun _ => h.lsn_le_tip hopen) (htip ▸ hnonneg)
    rw [hstart, hread, filter_eq_self.mpr]
    intro q hq
    exact decide_eq_true (h.ledger.lsn_bounds q hq).1

/-- There is nothing behind the tip. -/
lemma Sound.readRange_past (h : Sound c dek s records) (hopen : s.1.isOpen = true) :
    s.1.readRange c s.2 none (s.1.tip.entryId + 1) s.1.tip.entryId = .ok [] := by
  cases records using List.reverseRecOn with
  | nil => exact h.readRange_nil hopen _
  | append_singleton rs r =>
    obtain ⟨htip, -, hnonneg, hlt⟩ := h.last_bounds hopen
    rw [htip]
    unfold WriteAheadLog.readRange
    have hpositive : ¬ r.lsn + 1 < 0 :=
      Int64.not_lt.mpr (Int64.le_trans hnonneg (Int64.le_of_lt hlt))
    split_ifs
    · rfl
    · exact if_pos hlt

end Tip

namespace FeedClient

variable {s : FeedClient}

/-- The ledger of the client. -/
def log (s : FeedClient) : LogState := (s.wal, s.disk)

/-- An append, as a call on the ledger. -/
def ledgerCall (s : FeedClient) (env : AppendEnv) (call : AppendCall) : LedgerCall :=
  { origin := s.wal.originNodeId, signer := s.wal.signer, env, call }

/-- Appends are stored, readable, or fail without leaving bytes. -/
def AppendsOnly (c : Crypto) (s : FeedClient) : FeedEvent → Prop
  | .append env call => Logs c s.log (s.ledgerCall env call)
  | _ => True

/-- The poll is made from the beginning, or with nothing new behind the cursor. -/
def Current (s : FeedClient) : FeedEvent → Prop
  | .poll _ => s.since = kInvalidLsn ∨ s.since = s.wal.tip.entryId
  | _ => True

/-- A poll answers with a batch that is not truncated, what the client has then is the beginning of
the ledger, and it is all of the ledger if the batch is empty. -/
def Delivers (c : Crypto) (s : FeedClient) : FeedEvent → Prop
  | .poll limit => ∃ batch records, (s.answer c limit).1 = .ok batch ∧ batch.truncated = false ∧
      s.wal.readAll c s.disk = .ok records ∧ s.received ++ batch.entries <+: records ∧
      (batch.entries = [] → s.received = records)
  | _ => True

/-- What the client has is the beginning of the ledger, and its cursor is at the end of that. -/
structure Follows (c : Crypto) (dek : Bytes) (s : FeedClient) (records : List WalRecord) : Prop where
  sound : Sound c dek s.log records
  isOpen : s.wal.isOpen = true
  running : s.feed.stopped = false
  received : s.received <+: records
  since : s.since = (s.received.getLast?.map (·.lsn)).getD kInvalidLsn

/-! ## A poll -/

section Poll

variable (h : s.Follows c dek records)
include h

lemma Follows.readAll : s.wal.readAll c s.disk = .ok records :=
  h.sound.ledger.readAll_eq h.isOpen

/-- The cursor is at the beginning, or at a record of the ledger. -/
lemma Follows.since_cases : s.received = [] ∧ s.since = kInvalidLsn ∨
      ∃ rs r, s.received = rs ++ [r] ∧ s.since = r.lsn ∧ r ∈ records := by
  have hsince := h.since
  have hreceived := h.received
  cases hcase : s.received using List.reverseRecOn with
  | nil =>
    rw [hcase] at hsince
    exact Or.inl ⟨rfl, hsince⟩
  | append_singleton rs r =>
    rw [hcase, getLast?_concat] at hsince
    rw [hcase] at hreceived
    exact Or.inr ⟨rs, r, rfl, hsince,
      hreceived.subset (mem_append_right _ (mem_singleton_self _))⟩

/-- A cursor at the tip has everything before it. -/
lemma Follows.eq_of_tip (hpos : s.received ≠ [])
    (htip : s.since = s.wal.tip.entryId) : s.received = records := by
  obtain ⟨rest, hrest⟩ := h.received
  rcases h.since_cases with ⟨hnil, -⟩ | ⟨rs, r, hreceived, hsince, hr⟩
  · exact absurd hnil hpos
  cases rest using List.reverseRecOn with
  | nil => rw [← hrest, append_nil]
  | append_singleton rest last =>
    -- the last record has a larger LSN than the one at the cursor
    have hordered := h.sound.ledger.ordered
    have hlast : s.wal.tip.entryId = last.lsn := by
      have := h.sound.tip_eq h.isOpen
      rw [← hrest, ← append_assoc, getLast?_concat] at this
      exact this
    rw [← hrest] at hordered
    have hmem : r ∈ s.received := hreceived ▸ mem_append_right _ (mem_singleton_self _)
    have hlt : r.lsn < last.lsn := (pairwise_append.mp hordered).2.2 r hmem last
      (mem_append_right _ (mem_singleton_self _))
    rw [← hsince, htip, hlast] at hlt
    exact (Int64.lt_irrefl hlt).elim

/-- **What a poll answers** from the beginning, at the tip, and otherwise. -/
lemma answer_start (hsince : s.since = kInvalidLsn) (limit : ℕ) : (s.answer c limit).1 = .ok
      { entries := if limit ≠ 0 then records.take limit else records
        cursor := s.since, tip := s.wal.tip.entryId } := by
  have hfresh : s.feed.stale s.wal.tip.entryId s.since = false := by
    rw [hsince]
    rfl
  have hread : s.wal.readRange c s.disk none kInvalidLsn s.wal.tip.entryId = .ok records :=
    h.sound.readRange_all h.isOpen
  unfold answer poll snapshot
  rw [h.running]
  dsimp only
  rw [if_neg Bool.false_ne_true, hfresh, if_neg Bool.false_ne_true, if_pos hsince, hread]

lemma answer_tip (hpos : s.since ≠ kInvalidLsn)
    (htip : s.since = s.wal.tip.entryId) (limit : ℕ) : (s.answer c limit).1 = .ok
      { entries := [], cursor := s.since, tip := s.wal.tip.entryId } := by
  have hfresh : s.feed.stale s.wal.tip.entryId s.since = false := by
    rw [stale, htip]
    simp [Int64.lt_irrefl]
  have hread : s.wal.readRange c s.disk none (s.since + 1) s.wal.tip.entryId = .ok [] := by
    rw [htip]
    exact h.sound.readRange_past h.isOpen
  unfold answer poll snapshot
  rw [h.running]
  dsimp only
  rw [hfresh, if_neg hpos, hread]
  simp

lemma answer_behind (hpos : 0 ≤ s.since)
    (hbehind : s.since < s.wal.tip.entryId) (limit : ℕ) : (s.answer c limit).1 = .ok
      { cursor := s.since, tip := s.wal.tip.entryId, truncated := true } := by
  -- the tip is no maximum, so both sides of the comparison move up by one
  have hmax : s.wal.tip.entryId ≠ Int64.maxValue := h.sound.tip_ne_maxValue h.isOpen
  have hmax' : s.since ≠ Int64.maxValue := by
    intro heq
    have hlt := Int64.lt_iff_toInt_lt.mp hbehind
    have htip := s.wal.tip.entryId.toInt_lt
    rw [heq, Int64.toInt_maxValue] at hlt
    omega
  have holdest : s.wal.tip.entryId + 1 > s.since + 1 := by
    rw [gt_iff_lt, Int64.lt_iff_toInt_lt, toInt_succ hmax, toInt_succ hmax']
    exact Int.add_lt_add_right (Int64.lt_iff_toInt_lt.mp hbehind) 1
  have hstale : s.feed.stale s.wal.tip.entryId s.since = true := by
    unfold stale
    simp [hpos, holdest]
  unfold answer poll snapshot
  rw [h.running]
  dsimp only
  rw [if_neg Bool.false_ne_true, hstale, if_pos rfl]

/-- **A poll keeps the promise exactly if it is current.** -/
lemma delivers_poll_iff (limit : ℕ) : s.Delivers c (.poll limit) ↔ s.Current (.poll limit) := by
  constructor
  · rintro ⟨batch, rs, hanswer, htruncated, -⟩
    rcases h.since_cases with ⟨-, hsince⟩ | ⟨-, r, -, hsince, hr⟩
    · exact Or.inl hsince
    refine Or.inr ?_
    by_contra hne
    have hpos : 0 ≤ s.since := hsince ▸ (h.sound.ledger.lsn_bounds r hr).1
    have hle : s.since ≤ s.wal.tip.entryId := hsince ▸ h.sound.lsn_le_tip h.isOpen hr
    have hbehind := Int64.lt_of_le_of_ne hle hne
    rw [answer_behind h hpos hbehind] at hanswer
    rw [← Except.ok.inj hanswer] at htruncated
    cases htruncated
  · intro hcurrent
    by_cases hstart : s.since = kInvalidLsn
    · have hnone : s.received = [] := by
        rcases h.since_cases with ⟨hnone, -⟩ | ⟨-, r, -, hsince, hr⟩
        · exact hnone
        · have hpos := (h.sound.ledger.lsn_bounds r hr).1
          rw [← hsince, hstart] at hpos
          exact absurd hpos (by decide)
      refine ⟨_, records, answer_start h hstart limit, rfl, h.readAll, ?_, ?_⟩
      · rw [hnone]
        split_ifs
        · exact take_prefix _ _
        · exact prefix_refl _
      · intro hempty
        rw [hnone]
        split_ifs at hempty with hlimit
        · exact ((take_eq_nil_iff.mp hempty).resolve_left hlimit).symm
        · exact hempty.symm
    · have htip := hcurrent.resolve_left hstart
      have hall : s.received = records := by
        refine h.eq_of_tip (fun hnone => hstart ?_) htip
        rw [h.since, hnone]
        rfl
      refine ⟨_, records, answer_tip h hstart htip limit, rfl, h.readAll, ?_, fun _ => hall⟩
      rw [hall, append_nil]

end Poll

/-! ## Runs -/

lemma stopped_marked (feed : ChangeFeed) (tip since : Int64) :
    (feed.marked tip since).stopped = feed.stopped := by
  unfold marked
  split_ifs <;> rfl

/-- A poll changes nothing but the mark. -/
lemma feed_answer (hrunning : s.feed.stopped = false) (limit : ℕ) :
    (s.answer c limit).2 = s.feed.marked s.wal.tip.entryId s.since := by
  unfold answer poll snapshot
  rw [hrunning]
  rw [if_neg Bool.false_ne_true]
  by_cases hstale : s.feed.stale s.wal.tip.entryId s.since = true
  · rw [if_pos hstale]
  · rw [if_neg hstale]
    split <;> rfl

lemma step_poll {batch : ChangeBatch} (hrunning : s.feed.stopped = false) {limit : ℕ}
    (hanswer : (s.answer c limit).1 = .ok batch) : (s.step c (.poll limit)).1 =
      ({ s with feed := s.feed.marked s.wal.tip.entryId s.since } : FeedClient).take batch := by
  have hpoll : s.answer c limit = (.ok batch, s.feed.marked s.wal.tip.entryId s.since) := by
    rw [← hanswer, ← feed_answer hrunning limit]
  dsimp only [step]
  rw [hpoll]

/-- The cursor follows what the client takes. -/
lemma follows_poll {limit : ℕ} (h : s.Follows c dek records) (hdelivers : s.Delivers c (.poll limit)) :
    (s.step c (.poll limit)).1.Follows c dek records := by
  obtain ⟨batch, rs, hanswer, -, hread, hprefix, -⟩ := hdelivers
  obtain rfl := Except.ok.inj (h.readAll.symm.trans hread)
  rw [step_poll h.running hanswer]
  refine ⟨h.sound, h.isOpen, (stopped_marked ..).trans h.running, hprefix, ?_⟩
  change (batch.entries.getLast?.map (·.lsn)).getD s.since =
    ((s.received ++ batch.entries).getLast?.map (·.lsn)).getD kInvalidLsn
  rw [getLast?_append]
  cases batch.entries.getLast? with
  | none => exact h.since
  | some r => rfl

/-- An append leaves the stream open. -/
lemma isOpen_append (c : Crypto) (wal : WriteAheadLog) (env : AppendEnv) (disk : WalDisk) (call : AppendCall) :
    (wal.append c env disk call).2.1.isOpen = wal.isOpen := by
  rcases happend : wal.append c env disk call with ⟨st | lsn, wal', disk'⟩
  · obtain ⟨rfl, -⟩ := append_failed happend
    rfl
  · obtain ⟨payload, hacked⟩ := append_acked happend
    exact hacked.isOpen

/-- An append leaves what the client has, and the ledger is longer by one record or the same. -/
lemma follows_append {env : AppendEnv} {call : AppendCall} (h : s.Follows c dek records)
    (hlogs : Logs c s.log (s.ledgerCall env call)) :
    ∃ rs, (s.step c (.append env call)).1.Follows c dek rs := by
  have hlog : (s.step c (.append env call)).1.log = (appendStep c s.log (s.ledgerCall env call)).1 :=
    rfl
  have hopen := (isOpen_append c s.wal env s.disk call).trans h.isOpen
  rcases hlogs with ⟨hstored, hloggable⟩ | ⟨hfailed, hwrites⟩
  · exact ⟨_, hlog ▸ h.sound.appended hstored hloggable, hopen, h.running,
      h.received.trans (prefix_append _ _), h.since⟩
  · exact ⟨records, hlog ▸ h.sound.refused hfailed hwrites, hopen, h.running, h.received, h.since⟩

lemma follows_step {event : FeedEvent} (h : s.Follows c dek records) (hlogs : s.AppendsOnly c event)
    (hdelivers : s.Delivers c event) : ∃ rs, (s.step c event).1.Follows c dek rs := by
  cases event with
  | append env call => exact follows_append h hlogs
  | publish tip =>
    have hrunning : (s.feed.publish tip).stopped = false := by
      unfold publish
      split_ifs <;> exact h.running
    exact ⟨records, h.sound, h.isOpen, hrunning, h.received, h.since⟩
  | poll limit => exact ⟨records, follows_poll h hdelivers⟩

/-- **One event.** -/
lemma delivers_iff (h : s.Follows c dek records) (event : FeedEvent) :
    s.Delivers c event ↔ s.Current event := by
  cases event with
  | append env call => exact Iff.rfl
  | publish tip => exact Iff.rfl
  | poll limit => exact delivers_poll_iff h limit

end FeedClient

open FeedClient

/-- **The feed delivers the ledger exactly to clients whose polls are all current**: in every run of
appends and polls with any limits, no batch is truncated, the batches make up the beginning of the
ledger, and a client with an empty batch has all of it, exactly if every poll is made from the
beginning or with nothing new behind the cursor. -/
theorem feed_delivers_iff {s : FeedClient} {events : List FeedEvent} (hstart : s.Follows c dek records)
    (hlogs : Guarded (FeedClient.step c) (AppendsOnly c) s events) :
    Guarded (FeedClient.step c) (Delivers c) s events ↔
      Guarded (FeedClient.step c) (fun s event => s.Current event) s events := by
  induction events generalizing s records with
  | nil => exact Iff.rfl
  | cons event events ih =>
    have hstep := delivers_iff hstart event
    constructor
    · rintro ⟨hdelivers, hrest⟩
      obtain ⟨rs, hnext⟩ := follows_step hstart hlogs.1 hdelivers
      exact ⟨hstep.mp hdelivers, (ih hnext hlogs.2).mp hrest⟩
    · rintro ⟨hcurrent, hrest⟩
      obtain ⟨rs, hnext⟩ := follows_step hstart hlogs.1 (hstep.mpr hcurrent)
      exact ⟨hstep.mpr hcurrent, (ih hnext hlogs.2).mpr hrest⟩

/-! ## A client that comes back -/

/-- A client of a ledger with two records. -/
def sampleFeed : FeedClient where
  wal := PutProcess.samplePair.engine.wal
  disk := PutProcess.samplePair.engine.disk

lemma sampleFeed_follows : sampleFeed.Follows sampleCrypto [] PutProcess.samplePairRecords where
  sound := PutProcess.samplePair_sound
  isOpen := by decide +kernel
  running := rfl
  received := nil_prefix
  since := rfl

lemma sampleFeed_tip : sampleFeed.wal.tip.entryId = 1 := by decide +kernel

/-- With a limit of one entry the second batch is truncated, though nothing was pruned. -/
theorem second_batch_truncated :
    (sampleFeed.answer sampleCrypto 1).1 = .ok
      { entries := PutProcess.samplePairRecords.take 1, cursor := kInvalidLsn, tip := 1 } ∧
    ((sampleFeed.step sampleCrypto (.poll 1)).1.answer sampleCrypto 1).1 = .ok
      { entries := [], cursor := 0, tip := 1, truncated := true } := by
  have hfirst := answer_start sampleFeed_follows rfl 1
  have hnext := follows_poll sampleFeed_follows ((delivers_poll_iff sampleFeed_follows 1).mpr (Or.inl rfl))
  have hstep := step_poll rfl hfirst
  have hsince : (sampleFeed.step sampleCrypto (.poll 1)).1.since = 0 := by
    rw [hstep]
    decide +kernel
  have htip : (sampleFeed.step sampleCrypto (.poll 1)).1.wal.tip.entryId = 1 := by
    rw [hstep]
    exact sampleFeed_tip
  have hpos : 0 ≤ (sampleFeed.step sampleCrypto (.poll 1)).1.since := by
    rw [hsince]
    decide
  have hbehind : (sampleFeed.step sampleCrypto (.poll 1)).1.since <
      (sampleFeed.step sampleCrypto (.poll 1)).1.wal.tip.entryId := by
    rw [hsince, htip]
    decide
  have hsecond := answer_behind hnext hpos hbehind 1
  rw [hsince, htip] at hsecond
  rw [sampleFeed_tip] at hfirst
  exact ⟨hfirst, hsecond⟩

/-- A client that polls without a limit, and again. -/
theorem feed_delivers_unlimited :
    Guarded (FeedClient.step sampleCrypto) (Delivers sampleCrypto) sampleFeed [.poll 0, .poll 0] := by
  have hlogs : Guarded (FeedClient.step sampleCrypto) (AppendsOnly sampleCrypto) sampleFeed
      [.poll 0, .poll 0] := ⟨trivial, trivial, trivial⟩
  refine (feed_delivers_iff sampleFeed_follows hlogs).mpr ⟨Or.inl rfl, Or.inr ?_, trivial⟩
  rw [step_poll rfl (answer_start sampleFeed_follows rfl 0)]
  decide +kernel

end DeSentry
