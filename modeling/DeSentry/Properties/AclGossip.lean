import DeSentry.Construction.Net.LedgerExchange
import DeSentry.Properties.AclOwnership
import DeSentry.Properties.Agreement
import DeSentry.Properties.FeedCursor

/-!
# Which access lists a round carries

A node that asks for ledger entries gives its own tip, and the answer begins behind it.  The two
ledgers are different chains, so the cut says nothing about what the node has seen.  A list below
the height of the node that asks is not sent, and a node with the shorter ledger sends nothing at
all (`list_of_shorter_ledger_not_offered`).  The answer is also cut after 1024 entries.

`acl_gossip_complete_iff` says which lists reach the other side in a round each way.
-/

namespace DeSentry

open ByteCodec WriteAheadLog NetworkManager List

variable {c : Crypto} {dek : Bytes} {records : List WalRecord}

/-- A ledger has one record for an LSN. -/
lemma Ledger.eq_of_lsn_eq {subkey bytes : Bytes} (h : Ledger c subkey bytes records)
    {q r : WalRecord} (hq : q ∈ records) (hr : r ∈ records) (heq : q.lsn = r.lsn) : q = r := by
  have hnodup : (records.map (·.lsn)).Nodup :=
    pairwise_map.mpr (h.ordered.imp fun hlt => Int64.ne_of_lt hlt)
  exact inj_on_of_nodup_map hnodup hq hr heq

/-! ## Reading behind a tip -/

/-- The records behind a height below the tip. -/
lemma Sound.readRange_behind {s : LogState} (h : Sound c dek s records) (hopen : s.1.isOpen = true)
    {height : Int64} (hlt : height < s.1.tip.entryId) :
    s.1.readRange c s.2 none (height + 1) s.1.tip.entryId =
      .ok (records.filter fun r => decide (height < r.lsn)) := by
  have hsucc := toInt_succ (n := height) fun hmax => by
    rw [hmax] at hlt
    exact absurd hlt (Int64.not_lt.mpr (Int64.le_maxValue _))
  cases records using List.reverseRecOn with
  | nil => exact h.readRange_nil hopen _
  | append_singleton rs last =>
    obtain ⟨htip, hnext, hnonneg, hlast⟩ := h.last_bounds hopen
    have hsome : 0 < s.1.nextLsn := hnext ▸ Int64.lt_of_le_of_lt hnonneg hlast
    have hzero : 0 ≤ s.1.tip.entryId := htip ▸ hnonneg
    have htop : ∀ r ∈ rs ++ [last], r.lsn ≤ s.1.tip.entryId := fun _ => h.lsn_le_tip hopen
    by_cases hneg : height + 1 < 0
    · -- a height below the first LSN asks for everything
      have hread := h.readRange hopen hsome (Int64.le_refl 0) hzero htop hzero
      have hstart : s.1.readRange c s.2 none (height + 1) s.1.tip.entryId =
          s.1.readRange c s.2 none 0 s.1.tip.entryId := by
        unfold WriteAheadLog.readRange
        rw [if_pos hneg, if_neg (by decide : ¬ (0 : Int64) < 0)]
      rw [hstart, hread]
      congr 1
      refine filter_congr fun r hr => ?_
      have hr0 := (h.ledger.lsn_bounds r hr).1
      rw [decide_eq_decide]
      rw [Int64.lt_iff_toInt_lt, hsucc] at hneg
      refine ⟨fun _ => ?_, fun _ => hr0⟩
      rw [Int64.lt_iff_toInt_lt]
      rw [Int64.le_iff_toInt_le] at hr0
      exact Int.lt_of_lt_of_le (Int.lt_trans (Int.lt_succ _) hneg) hr0
    · have hle : height + 1 ≤ s.1.tip.entryId := by
        rw [Int64.lt_iff_toInt_lt] at hlt
        rw [Int64.le_iff_toInt_le, hsucc]
        exact hlt
      rw [h.readRange hopen hsome (Int64.not_lt.mp hneg) hle htop hzero]
      congr 1
      refine filter_congr fun r _ => ?_
      rw [decide_eq_decide, ge_iff_le, Int64.le_iff_toInt_le, hsucc, Int64.lt_iff_toInt_lt]
      exact Int.add_one_le_iff

/-! ## One exchange -/

variable (net : NetworkManager)

section Exchange

variable {x y : NetworkManager} {env : LedgerEnv}

/-- The ledger of a node. -/
def NetworkManager.log : LogState :=
  (net.engine.storage.wal, net.engine.storage.disk)

/-- The tip of a node. -/
def NetworkManager.tip : LedgerTip := net.engine.storage.wal.tip

/-- What of its ledger a node `y` answers `x` from: the records behind the height of a node with a
shorter ledger, and all of them if the ledgers are of one height and different. -/
def answered (x y : NetworkManager) (records : List WalRecord) : List WalRecord :=
  if x.tip.entryId < y.tip.entryId then records.filter fun r => decide (x.tip.entryId < r.lsn)
  else if x.tip.entryId = y.tip.entryId ∧ x.tip.entryHash ≠ y.tip.entryHash then records
  else []

/-- The list reaches `x` from the ledger of `y`: the record is among the first that are answered,
has its fields, and the answer as a whole comes through. -/
def Reaches (x y : NetworkManager) (records : List WalRecord) (r : WalRecord) : Prop :=
  r ∈ (answered x y records).take kMaxDeltaEntries ∧ r.documentBytes ≠ [] ∧ r.collection ≠ [] ∧
    (ledgerDelta y.engine { nodeId := x.self } (answered x y records)).received ≠ none

/-- The record was given to `ApplyRemoteAcl`. -/
def Offered (intake : Intake) (r : WalRecord) : Prop :=
  ∃ offer ∈ intake.offers, offer.1.entryId = r.lsn ∧ offer.1.originNodeId = r.originNodeId ∧
    offer.1.collection = r.collection ∧ offer.1.aclJson = r.documentBytes

/-- The record is an access list signed by its owner, as the node `net` checks it at some time. -/
def OwnerAttested (env : LedgerEnv) (net : NetworkManager) (r : WalRecord) : Prop :=
  r.type = .kAcl ∧ ∃ wall envelope, AclEnvelope.read (env.parse r.documentBytes) = .ok envelope ∧
    net.engine.checkAttestation env.keys wall r.originNodeId r.collection envelope = .ok ()

/-- An entry the loop of `ExchangeLedger` offers. -/
def isOffer (entry : LedgerEntrySummary) : Bool :=
  decide (entry.operation = .kAcl) && decide (entry.aclJson ≠ []) && decide (entry.collection ≠ [])

lemma offers_discover (s : Intake) (who : Requestor) (entry : LedgerEntrySummary) :
    (s.discover who entry).offers = s.offers := by
  unfold Intake.discover
  split_ifs <;> rfl

lemma offers_takeEntry (s : Intake) (who : Requestor) (entry : LedgerEntrySummary) :
    (s.takeEntry env who entry).offers.map Prod.fst =
      s.offers.map Prod.fst ++ if isOffer entry then [entry] else [] := by
  unfold Intake.takeEntry isOffer
  split_ifs <;> simp_all [offers_discover]

/-- The loop offers the entries that can be offered, in their order. -/
lemma offers_foldl (who : Requestor) (entries : List LedgerEntrySummary) (s : Intake) :
    (entries.foldl (Intake.takeEntry env who) s).offers.map Prod.fst =
      s.offers.map Prod.fst ++ entries.filter isOffer := by
  induction entries generalizing s with
  | nil => simp
  | cons entry entries ih =>
    rw [foldl_cons, ih, offers_takeEntry, append_assoc, filter_cons]
    split_ifs <;> rfl

/-- What a node answers from its ledger. -/
lemma ledgerEntriesFor_eq (h : Sound c dek y.log records)
    (hopen : y.engine.storage.wal.isOpen = true) :
    ledgerEntriesFor c y.engine none (ledgerDigest x.engine) = .ok (answered x y records) := by
  have hid : (ledgerDigest x.engine).tipEntryId = x.tip.entryId := rfl
  have hhash : (ledgerDigest x.engine).tipEntryHash = x.tip.entryHash := rfl
  have htip : y.engine.storage.wal.tip = y.tip := rfl
  unfold ledgerEntriesFor answered
  rw [hid, hhash, htip]
  rcases Std.lt_trichotomy x.tip.entryId y.tip.entryId with hlt | heq | hgt
  · have hne : x.tip.entryId ≠ y.tip.entryId := Int64.ne_of_lt hlt
    have hread := h.readRange_behind hopen hlt
    rw [if_neg (Int64.not_lt.mpr (Int64.le_of_lt hlt)), if_neg fun he => hne he.1, if_pos hlt,
      decide_eq_false hne]
    exact hread
  · have hread := h.readRange_all hopen
    rw [heq, if_neg (Int64.lt_irrefl), if_neg (Int64.lt_irrefl), decide_eq_true rfl]
    by_cases hchain : x.tip.entryHash ≠ y.tip.entryHash
    · have hsame : y.tip.entryId = y.tip.entryId ∧ x.tip.entryHash ≠ y.tip.entryHash := ⟨rfl, hchain⟩
      rw [decide_eq_true hchain, if_neg (by simp), if_pos hsame]
      exact hread
    · rw [decide_eq_false hchain, if_pos (by simp), if_neg fun he => hchain he.2]
  · rw [if_pos hgt, if_neg (Int64.not_lt.mpr (Int64.le_of_lt hgt)),
      if_neg fun he => Int64.ne_of_lt hgt he.1.symm]

lemma answered_subset : answered x y records ⊆ records := by
  unfold answered
  split_ifs
  · exact filter_subset_self _
  · exact List.Subset.refl _
  · exact nil_subset _

/-- The answer, as it arrives. -/
lemma ledgerAnswer_eq (h : Sound c dek y.log records)
    (hopen : y.engine.storage.wal.isOpen = true) : ledgerAnswer c x y =
      (ledgerDelta y.engine { nodeId := x.self } (answered x y records)).received := by
  unfold ledgerAnswer
  rw [handleLedgerDigest_message (ledgerEntriesFor_eq h hopen)]

/-- Arriving changes no entry beside its number of chunks. -/
lemma entries_of_received {delta delta' : LedgerDeltaPayload} (h : delta.received = some delta') :
    delta'.entries = delta.entries.map LedgerEntrySummary.withChunkTotal := by
  unfold LedgerDeltaPayload.received at h
  dsimp only at h
  split_ifs at h
  rw [← Option.some_inj.mp h]

/-- The entry of a record, as it arrives. -/
def arrived (y : NetworkManager) (who : Requestor) (r : WalRecord) : LedgerEntrySummary :=
  (ledgerEntrySummary y.engine who r).withChunkTotal

lemma arrived_fields (y : NetworkManager) (who : Requestor) (r : WalRecord) :
    (arrived y who r).entryId = r.lsn ∧ (arrived y who r).operation = r.type ∧
      (arrived y who r).originNodeId = r.originNodeId := by
  unfold arrived LedgerEntrySummary.withChunkTotal
  split_ifs <;> exact ⟨rfl, rfl, rfl⟩

/-- A list travels with its collection, whoever asks. -/
lemma arrived_acl {r : WalRecord} (hr : r.type = .kAcl) (y : NetworkManager) (who : Requestor) :
    (arrived y who r).collection = r.collection ∧ (arrived y who r).aclJson = r.documentBytes := by
  have hcollection : (ledgerEntrySummary y.engine who r).collection = r.collection :=
    if_pos (Or.inr hr)
  have hjson : (ledgerEntrySummary y.engine who r).aclJson = r.documentBytes := if_pos hr
  unfold arrived LedgerEntrySummary.withChunkTotal
  split_ifs <;> exact ⟨hcollection, hjson⟩

/-- The offers of an exchange whose answer arrives. -/
lemma mem_offers_iff (h : Sound c dek y.log records)
    (hopen : y.engine.storage.wal.isOpen = true) {delta : LedgerDeltaPayload}
    (hdelta : (ledgerDelta y.engine { nodeId := x.self } (answered x y records)).received =
      some delta) (entry : LedgerEntrySummary) :
    entry ∈ (exchangeLedger c env x y).offers.map Prod.fst ↔ isOffer entry = true ∧
      ∃ r ∈ (answered x y records).take kMaxDeltaEntries, arrived y { nodeId := x.self } r = entry := by
  unfold exchangeLedger
  rw [ledgerAnswer_eq h hopen, hdelta]
  rw [offers_foldl, map_nil, nil_append, mem_filter, entries_of_received hdelta,
    ledgerDelta, map_map, mem_map, and_comm]
  rfl

/-- **What an exchange offers.**  A list of the ledger of `y` is given to `ApplyRemoteAcl` of `x`
exactly if it reaches `x`. -/
lemma offered_iff (h : Sound c dek y.log records) (hopen : y.engine.storage.wal.isOpen = true)
    {r : WalRecord} (hr : r ∈ records) (hacl : r.type = .kAcl) :
    Offered (exchangeLedger c env x y) r ↔ Reaches x y records r := by
  obtain ⟨hid, htype, horigin⟩ := arrived_fields y { nodeId := x.self } r
  obtain ⟨hcollection, hjson⟩ := arrived_acl hacl y { nodeId := x.self }
  cases hdelta : (ledgerDelta y.engine { nodeId := x.self } (answered x y records)).received with
  | none =>
    have hnone : (exchangeLedger c env x y).offers = [] := by
      unfold exchangeLedger
      rw [ledgerAnswer_eq h hopen, hdelta]
    refine iff_of_false ?_ fun hreaches => hreaches.2.2.2 hdelta
    rintro ⟨offer, hmem, -⟩
    rw [hnone] at hmem
    cases hmem
  | some delta =>
    have hoffers : ∀ entry, entry ∈ (exchangeLedger c env x y).offers.map Prod.fst ↔ _ :=
      mem_offers_iff h hopen hdelta
    constructor
    · rintro ⟨offer, hmem, hlsn, -, hc, hj⟩
      obtain ⟨hoffer, q, hq, hentry⟩ := (hoffers offer.1).mp (mem_map_of_mem hmem)
      -- a ledger has one record for an LSN
      obtain rfl : q = r := by
        refine h.ledger.eq_of_lsn_eq (answered_subset (mem_of_mem_take hq)) hr ?_
        rw [← hlsn, ← hentry, (arrived_fields y _ q).1]
      unfold isOffer at hoffer
      rw [hc, hj] at hoffer
      simp only [Bool.and_eq_true, decide_eq_true_eq] at hoffer
      exact ⟨hq, hoffer.1.2, hoffer.2, by rw [hdelta]; exact Option.some_ne_none _⟩
    · rintro ⟨hmem, hbytes, hname, -⟩
      have hoffer : isOffer (arrived y { nodeId := x.self } r) = true := by
        unfold isOffer
        rw [htype, hjson, hcollection, decide_eq_true hacl, decide_eq_true hbytes,
          decide_eq_true hname]
        rfl
      obtain ⟨offer, hin, hfst⟩ := mem_map.mp ((hoffers _).mpr ⟨hoffer, r, hmem, rfl⟩)
      refine ⟨offer, hin, ?_⟩
      rw [hfst]
      exact ⟨hid, horigin, hcollection, hjson⟩

end Exchange

/-! ## A round each way -/

/-- Every list in the ledger of `y` that `x` would accept as signed by its owner was offered to
`x`. -/
def AllOffered (env : LedgerEnv) (x : NetworkManager) (records : List WalRecord)
    (intake : Intake) : Prop :=
  ∀ r ∈ records, OwnerAttested env x r → Offered intake r

/-- Every such list reaches `x`. -/
def AllReach (env : LedgerEnv) (x y : NetworkManager) (records : List WalRecord) : Prop :=
  ∀ r ∈ records, OwnerAttested env x r → Reaches x y records r

lemma allOffered_iff {x y : NetworkManager} (env : RoundEnv) (h : Sound c dek y.log records)
    (hopen : y.engine.storage.wal.isOpen = true) :
    AllOffered env.ledger x records (x.runRoundWith c env y).2 ↔ AllReach env.ledger x y records :=
  forall₃_congr fun _ hr hattested => offered_iff h hopen hr hattested.1

/-- **A round each way offers every access list exactly if every list reaches the other node.**
This is for any two nodes: `a` runs a round with `b`, and then, in the states this leaves, `b` runs
one with `a`.  The ledgers are those the nodes have when they are asked. -/
theorem acl_gossip_complete_iff (c : Crypto) (env₁ env₂ : RoundEnv) (a b : NetworkManager)
    (dekA dekB : Bytes) (recordsA recordsB : List WalRecord)
    (hb : Sound c dekB b.log recordsB) (hbOpen : b.engine.storage.wal.isOpen = true)
    (ha : Sound c dekA (a.afterRound c env₁ b).1.log recordsA)
    (haOpen : (a.afterRound c env₁ b).1.engine.storage.wal.isOpen = true) :
    AllOffered env₁.ledger a recordsB (a.runRoundWith c env₁ b).2 ∧
        AllOffered env₂.ledger (a.afterRound c env₁ b).2 recordsA
          ((a.afterRound c env₁ b).2.runRoundWith c env₂ (a.afterRound c env₁ b).1).2 ↔
      AllReach env₁.ledger a b recordsB ∧
        AllReach env₂.ledger (a.afterRound c env₁ b).2 (a.afterRound c env₁ b).1 recordsA :=
  and_congr (allOffered_iff env₁ hb hbOpen) (allOffered_iff env₂ ha haOpen)

/-! ## Samples -/

/-- A private list of the node `n`, as it is parsed. -/
def sampleAclJson : JsonValue :=
  .object [(text "owner_node", .scalar (.str [110])), (text "private", .scalar (.bool true))]

/-- A node that signs with the text itself. -/
def sampleSigner : NodeEngine := { sampleNode with sign := id }

/-- What happens around its `SetCollectionAcl`. -/
def sampleSetAcl : NodeEngine.SetAclEnv where
  nowMs := 10
  parse _ := .ok sampleAclJson
  wall := 5000

/-- The node after it has made a collection private. -/
def sampleAclOwner : NetworkManager where
  engine := (sampleSigner.setCollectionAcl sampleCrypto sampleSetAcl (text "c")
    { ownerNode := [110], isPrivate := true }).2

/-- The envelope of its list. -/
def sampleEnvelope : JsonValue :=
  sampleSigner.aclEnvelope (text "c")
    (canonicalAclJson (fun _ => []) { ownerNode := [110], isPrivate := true } 10) 10 sampleAclJson

/-- The append of the list. -/
def sampleAclAppend : LedgerCall where
  origin := [110]
  signer := some fun _ => []
  call :=
    { type := .kAcl, collection := text "c", key := [], documentBytes := sampleEnvelope.dump fun _ => []
      options := { hlc := (sampleNode.now 5000).2 } }

/-- The record of the list. -/
def sampleAclRecord : WalRecord := sampleAclAppend.record sampleCrypto (sampleNode.storage.wal, {})

lemma sampleAclOwner_sound : Sound sampleCrypto [] sampleAclOwner.log [sampleAclRecord] := by
  have hnew : Sound sampleCrypto [] (sampleNode.storage.wal, {}) [] :=
    ⟨rfl, ledger_nil _ _, fun _ => ⟨rfl, rfl⟩⟩
  exact hnew.appended (i := sampleAclAppend) ⟨by decide +kernel, rfl⟩ (by decide +kernel)

/-- A parser that knows the text of the envelope. -/
def sampleParse (bytes : Bytes) : Except Bytes JsonValue :=
  if bytes = sampleEnvelope.dump fun _ => [] then .ok sampleEnvelope else .error []

lemma sampleParse_of_eq {bytes : Bytes} (h : bytes = sampleEnvelope.dump fun _ => []) :
    sampleParse bytes = .ok sampleEnvelope :=
  if_pos h

/-- What happens around the exchanges. -/
def sampleLedgerEnv : LedgerEnv where
  keys := sampleKeys
  parse := sampleParse
  acl _ := { wall := 5000 }

/-- The rounds of the samples: no document is merged in them. -/
def sampleRoundEnv : RoundEnv where
  ledger := sampleLedgerEnv
  documents := (sampleRound []).env

/-- What the envelope holds. -/
def sampleAttestation : AclEnvelope where
  acl := { ownerNode := [110], isPrivate := true }
  updatedMs := 10
  sig := aclAttestMessage (text "c")
    (canonicalAclJson (fun _ => []) { ownerNode := [110], isPrivate := true } 10)

lemma sampleAclRecord_attested (h : net.engine.nodeId ≠ [110]) :
    OwnerAttested sampleLedgerEnv net sampleAclRecord := by
  have hbytes : sampleAclRecord.documentBytes = sampleEnvelope.dump fun _ => [] := by
    decide +kernel
  have hread : AclEnvelope.read (.ok sampleEnvelope) = .ok sampleAttestation := by decide +kernel
  have hkey : net.engine.signerKey sampleKeys [110] = .ok [110] := by
    unfold NodeEngine.signerKey
    rw [if_neg h.symm]
    rfl
  have hcheck : net.engine.checkAttestation sampleKeys 5000 [110] (text "c") sampleAttestation =
      .ok () := by
    unfold NodeEngine.checkAttestation
    rw [if_neg (by decide +kernel), if_neg (by decide +kernel), hkey]
    decide +kernel
  have horigin : sampleAclRecord.originNodeId = [110] := by decide +kernel
  have hcollection : sampleAclRecord.collection = text "c" := by decide +kernel
  refine ⟨by decide +kernel, 5000, sampleAttestation, ?_, ?_⟩
  · have hparse : sampleLedgerEnv.parse = sampleParse := rfl
    rw [hparse, sampleParse_of_eq hbytes, hread]
  · rw [horigin, hcollection]
    exact hcheck

/-- Another node, after two writes of its own. -/
def sampleTallNode : NetworkManager where
  engine :=
    let e := { sampleNode with nodeId := text "m" }
    let write (e : NodeEngine) (key : String) : NodeEngine :=
      (e.putDocument sampleCrypto { wall := 5000 } (text "d") (text key)
        (.object [(text "a", .scalar (.bool true))]) ⟨text "m", true⟩).2
    write (write e "k") "l"

/-- The node with the longer ledger asks, and does not get the list in the shorter one. -/
theorem list_of_shorter_ledger_not_offered :
    sampleAclOwner.engine.storage.wal.readAll sampleCrypto sampleAclOwner.engine.storage.disk =
        .ok [sampleAclRecord] ∧
      OwnerAttested sampleLedgerEnv sampleTallNode sampleAclRecord ∧
      ¬ Offered (sampleTallNode.runRoundWith sampleCrypto sampleRoundEnv sampleAclOwner).2
        sampleAclRecord := by
  refine ⟨sampleAclOwner_sound.ledger.readAll_eq rfl, 
    sampleAclRecord_attested _ (by decide +kernel), ?_⟩
  have hiff : Offered (sampleTallNode.runRoundWith sampleCrypto sampleRoundEnv sampleAclOwner).2
      sampleAclRecord ↔ _ :=
    offered_iff sampleAclOwner_sound rfl (mem_singleton_self _) rfl
  have hgt : ¬ sampleTallNode.tip.entryId < sampleAclOwner.tip.entryId := by decide +kernel
  have hne : sampleTallNode.tip.entryId ≠ sampleAclOwner.tip.entryId := by decide +kernel
  rw [hiff, Reaches, answered, if_neg hgt, if_neg fun he => hne he.1]
  rintro ⟨hmem, -⟩
  cases hmem

/-- A new node, whose ledger is empty. -/
def sampleNewNode : NetworkManager where
  engine := { sampleNode with nodeId := text "m" }

/-- The list is in the longer ledger and the other node asks for it. -/
theorem acl_gossip_complete_sample :
    OwnerAttested sampleLedgerEnv (sampleAclOwner.afterRound sampleCrypto sampleRoundEnv
        sampleNewNode).2 sampleAclRecord ∧
      AllOffered sampleLedgerEnv sampleAclOwner []
        (sampleAclOwner.runRoundWith sampleCrypto sampleRoundEnv sampleNewNode).2 ∧
      AllOffered sampleLedgerEnv (sampleAclOwner.afterRound sampleCrypto sampleRoundEnv
        sampleNewNode).2 [sampleAclRecord]
        ((sampleAclOwner.afterRound sampleCrypto sampleRoundEnv sampleNewNode).2.runRoundWith
          sampleCrypto sampleRoundEnv
          (sampleAclOwner.afterRound sampleCrypto sampleRoundEnv sampleNewNode).1).2 := by
  have hnew : Sound sampleCrypto [] sampleNewNode.log [] :=
    ⟨rfl, ledger_nil _ _, fun _ => ⟨rfl, rfl⟩⟩
  have hlog : (sampleAclOwner.afterRound sampleCrypto sampleRoundEnv sampleNewNode).1.log =
    sampleAclOwner.log := rfl
  have hsound : Sound sampleCrypto []
      (sampleAclOwner.afterRound sampleCrypto sampleRoundEnv sampleNewNode).1.log
      [sampleAclRecord] := hlog ▸ sampleAclOwner_sound
  refine ⟨sampleAclRecord_attested _ (by decide +kernel),
    (acl_gossip_complete_iff sampleCrypto sampleRoundEnv sampleRoundEnv sampleAclOwner sampleNewNode
      [] [] _ _ hnew rfl hsound rfl).mpr ⟨nofun, ?_⟩⟩
  intro r hr _
  obtain rfl := mem_singleton.mp hr
  have hbehind : answered (sampleAclOwner.afterRound sampleCrypto sampleRoundEnv sampleNewNode).2
      (sampleAclOwner.afterRound sampleCrypto sampleRoundEnv sampleNewNode).1 [sampleAclRecord] =
        [sampleAclRecord] := by
    decide +kernel
  rw [Reaches, hbehind]
  exact ⟨mem_singleton_self _, by decide +kernel, by decide +kernel, by decide +kernel⟩

end DeSentry
