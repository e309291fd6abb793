import DeSentry.Properties.ReadAccess
import DeSentry.Properties.WalChain

/-!
# Which keys the ledger gossip tells

`HandleLedgerDigest` sends the key of a record in the clear if the peer may read the collection of
the record.  For the records of a transit that field is not a collection: it is the node id of the
owner, an unknown collection in the eyes of the catalog, and so a public one.  The key of a held
document is therefore told to every peer, although its collection may be private.

What document a transit record is about can be told from the hash in its payload
(`WalRecord.Concerns`), which is not sent.  `ledger_delta_readers_iff` says that a reply tells only
keys its peer may know exactly if every transit record of the range under an owner the peer "can
read" is about a document it can read, or the peer is the owner.
-/

namespace DeSentry

open ByteCodec FrameLog List

/-! ## What `ReadRange` reads -/

section Range

variable {c : Crypto} {dek subkey bytes : Bytes} {records : List WalRecord}

/-- A payload one reader accepts is a record, and both readers see the same one. -/
lemma readRangeRecord_of_accept {s s' : ReadState} {p : Bytes}
    (h : readRecord c subkey s p = .accept s') (lo hi : Int64) (out : List WalRecord) :
    ∃ r, s'.records = s.records ++ [r] ∧ readRangeRecord c subkey lo hi out p =
      if r.lsn > hi then .reject else .accept (if r.lsn ≥ lo then out ++ [r] else out) := by
  unfold readRecord at h
  unfold readRangeRecord decodePayload
  rcases hunseal : unsealPayload c subkey p with (st | _) | payload <;> rw [hunseal] at h
  · cases h
  · cases h
  dsimp only at h ⊢
  split_ifs at h ⊢ with hmagic
  · cases hbody : decodeBody payload with
    | error st =>
      rw [hbody] at h
      cases h
    | ok r =>
      rw [hbody] at h
      exact ⟨r, (acceptRecord_accept h).1, rfl⟩
  · cases hbody : decodeBodyV1 c payload with
    | error st =>
      rw [hbody] at h
      cases h
    | ok r =>
      rw [hbody] at h
      exact ⟨r, (acceptRecord_accept h).1, rfl⟩

/-- Over the frames of records up to the end of the range, `ReadRange` collects those from its
start on. -/
lemma run_readRangeRecord {payloads : List Bytes} {s s' : ReadState} {hi : Int64}
    (h : Format.run (readRecord c subkey) s payloads = some s')
    (hhi : ∀ r ∈ s'.records, r.lsn ≤ hi) (lo : Int64) (out : List WalRecord) :
    ∃ rs, s'.records = s.records ++ rs ∧ Format.run (readRangeRecord c subkey lo hi) out payloads =
      some (out ++ rs.filter fun r => decide (r.lsn ≥ lo)) := by
  induction payloads generalizing s out with
  | nil =>
    obtain rfl : s = s' := Option.some_injective _ h
    exact ⟨[], by simp, by simp [Format.run]⟩
  | cons p payloads ih =>
    obtain ⟨s₁, hp, h⟩ := Format.run_cons.mp h
    obtain ⟨r, hr, hrange⟩ := readRangeRecord_of_accept hp lo hi out
    obtain ⟨rs, hrs, hrun⟩ := ih h (if r.lsn ≥ lo then out ++ [r] else out)
    have hlsn : r.lsn ≤ hi := hhi r (by rw [hrs, hr]; simp)
    refine ⟨r :: rs, by rw [hrs, hr, append_assoc, singleton_append], ?_⟩
    rw [Format.run, hrange, if_neg (Int64.not_lt.mpr hlsn)]
    dsimp only
    rw [hrun]
    by_cases hlo : r.lsn ≥ lo
    · rw [if_pos hlo, filter_cons_of_pos (by simpa using hlo), append_assoc,
        singleton_append]
    · rw [if_neg hlo, filter_cons_of_neg (by simpa using hlo)]

/-- **`ReadRange` up to the tip of a sound ledger.** -/
lemma Sound.readRange {s : LogState} (h : Sound c dek s records) (hopen : s.1.isOpen = true)
    (hsome : 0 < s.1.nextLsn) {lo : Int64} (hlo : 0 ≤ lo) (hhi : lo ≤ s.1.tip.entryId)
    (htop : ∀ r ∈ records, r.lsn ≤ s.1.tip.entryId) (hzero : 0 ≤ s.1.tip.entryId) :
    s.1.readRange c s.2 none lo s.1.tip.entryId =
      .ok (records.filter fun r => decide (r.lsn ≥ lo)) := by
  obtain ⟨payloads, hfile, hfit, hrun⟩ := h.ledger.readable
  obtain ⟨rs, hrs, hrange⟩ := run_readRangeRecord hrun htop lo []
  obtain rfl : records = rs := by simpa using hrs
  have hreplay : walFormat.replay (readRangeRecord c s.1.subkey lo s.1.tip.entryId) []
      (s.1.contents s.2) = (records.filter fun r => decide (r.lsn ≥ lo), .clean) := by
    rw [WriteAheadLog.contents, if_pos hopen, hfile,
      ← append_nil (walFormat.frames payloads), Format.replay_frames hfit hrange]
    rfl
  unfold WriteAheadLog.readRange
  rw [if_neg (by
    rw [not_or, Int64.not_lt, Int64.not_le]
    exact ⟨hzero, hsome⟩)]
  rw [if_neg (Int64.not_lt.mpr hlo), if_neg (Int64.not_lt.mpr hhi), Option.getD_none,
    drop_zero, hreplay]

end Range

/-! ## What an entry is about -/

/-- The record is about a document of the collection.  A transit record names an owner where others
name a collection; its document is the one whose hash, or the hash of one of whose chunks, is its
payload.  A checkpoint is about no document. -/
def WalRecord.Concerns (c : Crypto) (r : WalRecord) (collection : Bytes) : Prop :=
  if r.isTransit then
    ∃ chunkTotal i, r.documentBytes = NodeEngine.chunkKeyHash c collection r.key chunkTotal i
  else r.type ≠ .kCheckpoint ∧ collection = r.collection

/-- The record is a transit record with the node as its owner. -/
def WalRecord.OwnedBy (r : WalRecord) (nodeId : Bytes) : Prop :=
  r.isTransit = true ∧ r.collection = nodeId

namespace NetworkManager

variable {c : Crypto} {net : NetworkManager}

/-- Every key in the reply to a ledger digest is one the peer may know.  The entries of the reply
stand for the records that were read, in order. -/
def TellsReaders (c : Crypto) (net : NetworkManager) (start : Option ℕ) (peer : Bytes)
    (digest : LedgerDigestPayload) : Prop :=
  ∀ records delta, ledgerEntriesFor c net.engine start digest = .ok records →
    (net.handleLedgerDigest c start peer digest).message = .ledgerDelta delta →
    ∀ (n : ℕ) (r : WalRecord) (entry : LedgerEntrySummary), records[n]? = some r →
      delta.entries[n]? = some entry → entry.key ≠ [] → ∀ collection, r.Concerns c collection →
        net.engine.canRead collection { nodeId := peer } = true ∨ r.OwnedBy peer

/-- The transit records of the reply whose owner passes for a collection the peer can read are
about documents it can read, or about its own. -/
def TransitReadable (c : Crypto) (net : NetworkManager) (start : Option ℕ) (peer : Bytes)
    (digest : LedgerDigestPayload) : Prop :=
  ∀ records, ledgerEntriesFor c net.engine start digest = .ok records →
    ∀ r ∈ records.take kMaxDeltaEntries, r.isTransit = true → r.key ≠ [] → r.collection ≠ peer →
      net.engine.canRead r.collection { nodeId := peer } = true → ∀ collection chunkTotal i,
        r.documentBytes = NodeEngine.chunkKeyHash c collection r.key chunkTotal i →
          net.engine.canRead collection { nodeId := peer } = true

variable {records : List WalRecord}

/-- The reply for records that can be read. -/
lemma handleLedgerDigest_message {start : Option ℕ} {peer : Bytes} {digest : LedgerDigestPayload}
    (h : ledgerEntriesFor c net.engine start digest = .ok records) :
    (net.handleLedgerDigest c start peer digest).message =
      .ledgerDelta (ledgerDelta net.engine { nodeId := peer } records) := by
  unfold handleLedgerDigest
  rw [h]
  rfl

variable {e : NodeEngine} {who : Requestor} {r : WalRecord}

/-- The entries of a delta, by position. -/
lemma getElem?_entries {n : ℕ} (h : records[n]? = some r) (entry : LedgerEntrySummary) :
    (ledgerDelta e who records).entries[n]? = some entry ↔
      n < kMaxDeltaEntries ∧ ledgerEntrySummary e who r = entry := by
  rw [ledgerDelta, getElem?_map, getElem?_take]
  split_ifs with hn
  · rw [h, Option.map_some, Option.some_inj, and_iff_right hn]
  · exact iff_of_false (by simp) fun hand => hn hand.1

/-- A key is sent only to a reader of the collection field. -/
lemma key_ledgerEntrySummary :
    (ledgerEntrySummary e who r).key ≠ [] ↔ e.canRead r.collection who = true ∧ r.key ≠ [] := by
  unfold ledgerEntrySummary
  split_ifs <;> simp

end NetworkManager

open NetworkManager

/-- **Every key in a reply is one the peer may know exactly if the transit records of the reply
are.**  This is for every state of the ledger and the catalog, every peer and every digest. -/
theorem ledger_delta_readers_iff (c : Crypto) (net : NetworkManager) (start : Option ℕ)
    (peer : Bytes) (digest : LedgerDigestPayload) :
    TellsReaders c net start peer digest ↔ TransitReadable c net start peer digest := by
  constructor
  · intro h records hrecords r hr htransit hkey howner hread collection chunkTotal i hhash
    obtain ⟨n, hn⟩ := mem_iff_getElem?.mp hr
    rw [getElem?_take] at hn
    split_ifs at hn with hlt
    have hconcerns : r.Concerns c collection := by
      rw [WalRecord.Concerns, if_pos htransit]
      exact ⟨chunkTotal, i, hhash⟩
    have htold := h records _ hrecords (handleLedgerDigest_message hrecords) n r _ hn
      ((getElem?_entries hn _).mpr ⟨hlt, rfl⟩) (key_ledgerEntrySummary.mpr ⟨hread, hkey⟩)
      collection hconcerns
    exact htold.resolve_right fun howned => howner howned.2
  · intro h records delta hrecords hdelta n r entry hr hentry hkey collection hconcerns
    obtain rfl := WireMessage.ledgerDelta.inj
      ((handleLedgerDigest_message hrecords).symm.trans hdelta)
    obtain ⟨hlt, rfl⟩ := (getElem?_entries hr entry).mp hentry
    obtain ⟨hread, hkey⟩ := key_ledgerEntrySummary.mp hkey
    have hmem : r ∈ records.take kMaxDeltaEntries := by
      refine mem_iff_getElem?.mpr ⟨n, ?_⟩
      rw [getElem?_take, if_pos hlt, hr]
    unfold WalRecord.Concerns at hconcerns
    split_ifs at hconcerns with htransit
    · obtain ⟨chunkTotal, i, hhash⟩ := hconcerns
      by_cases howner : r.collection = peer
      · exact Or.inr ⟨htransit, howner⟩
      · exact Or.inl (h records hrecords r hmem htransit hkey howner hread collection chunkTotal i
          hhash)
    · obtain ⟨-, rfl⟩ := hconcerns
      exact Or.inl hread

/-! ## A key told to a stranger -/

/-- The node holds a document of its private collection for an owner that is away. -/
def sampleKeyHolder : NetworkManager :=
  (step sampleCrypto samplePrivateNet (.hold ⟨text "o", [0], fun _ => { wall := 5000 }, 0⟩
    (text "c") (text "k") (text "d") [])).1

/-- The append of the intent. -/
def sampleIntentCall : LedgerCall where
  origin := [110]
  signer := some fun _ => []
  call :=
    { type := .kTransitIntent, collection := text "o", key := text "k"
      documentBytes := NodeEngine.chunkKeyHash sampleCrypto (text "c") (text "k") 1 0
      options :=
        { hlc := (sampleNode.now 5000).2, transitHolder := [110], transitSizeBytes := 1
          transitChunkIndex := 0, transitChunkTotal := 1 } }

/-- The ledger before it. -/
def sampleKeyHolderLog : LogState := (samplePrivateNet.engine.storage.wal, {})

lemma sampleKeyHolder_sound : Sound sampleCrypto []
    (sampleKeyHolder.engine.storage.wal, sampleKeyHolder.engine.storage.disk)
    [sampleIntentCall.record sampleCrypto sampleKeyHolderLog] := by
  have hnew : Sound sampleCrypto [] sampleKeyHolderLog [] := ⟨rfl, ledger_nil _ _, fun _ => ⟨rfl, rfl⟩⟩
  exact hnew.appended (i := sampleIntentCall) ⟨by decide +kernel, rfl⟩ (by decide +kernel)

lemma sampleKeyHolder_entries : ledgerEntriesFor sampleCrypto sampleKeyHolder.engine none {} =
    .ok [sampleIntentCall.record sampleCrypto sampleKeyHolderLog] := by
  have hread := sampleKeyHolder_sound.readRange rfl (by decide +kernel) (Int64.le_refl 0)
    (by decide +kernel) (by decide +kernel) (by decide +kernel)
  have hall : ([sampleIntentCall.record sampleCrypto sampleKeyHolderLog].filter fun r =>
      decide (r.lsn ≥ 0)) = [sampleIntentCall.record sampleCrypto sampleKeyHolderLog] := by
    decide +kernel
  unfold ledgerEntriesFor
  dsimp only
  rw [if_neg (by decide +kernel), if_neg (by decide +kernel), if_neg (by decide +kernel)]
  exact hread.trans (congrArg Except.ok hall)

/-- A peer that has nothing asks for the ledger.  It cannot read the private collection and is not
the owner, and it is told the key of the document that is held. -/
theorem held_key_is_told :
    sampleKeyHolder.engine.canRead (text "c") { nodeId := text "p" } = false ∧
    ∃ r delta entry, ledgerEntriesFor sampleCrypto sampleKeyHolder.engine none {} = .ok [r] ∧
      (sampleKeyHolder.handleLedgerDigest sampleCrypto none (text "p") {}).message =
        .ledgerDelta delta ∧ delta.entries = [entry] ∧ entry.key = text "k" ∧
      r.Concerns sampleCrypto (text "c") ∧ ¬ r.OwnedBy (text "p") := by
  refine ⟨by decide +kernel, _, _, ledgerEntrySummary sampleKeyHolder.engine { nodeId := text "p" }
    (sampleIntentCall.record sampleCrypto sampleKeyHolderLog), sampleKeyHolder_entries,
    handleLedgerDigest_message sampleKeyHolder_entries, rfl, by decide +kernel, ?_, ?_⟩
  · rw [WalRecord.Concerns, if_pos (by decide +kernel)]
    exact ⟨1, 0, by decide +kernel⟩
  · rw [WalRecord.OwnedBy]
    decide +kernel

end DeSentry
