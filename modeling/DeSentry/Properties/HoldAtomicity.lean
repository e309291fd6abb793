import DeSentry.Construction.Engine.HoldCalls
import DeSentry.Properties.CheckpointClaims

/-!
# Holds that end half-way

`HoldForOfflineOwner` checks the budget for the whole document before it stores anything, so that a
holder without room refuses the document and not a part of it.  The loop behind the check appends an
intent to the ledger and then the bytes to the transit store, chunk by chunk, and returns at the
first error without taking back what it has done.

`hold_all_or_nothing_iff` says what is left behind: a hold that returns an error leaves nothing
exactly if its first intent has not been written completely.  So the check covers the budget, and the
first append; every later failure leaves an intent in the ledger.
-/

namespace DeSentry

open ByteCodec FrameLog WriteAheadLog List

variable {c : Crypto} {dek : Bytes} {records : List WalRecord}

/-! ## What is read back after one append -/

/-- The whole frame of the call's record is in the file, whatever the call answers. -/
def Completes (c : Crypto) (s : LogState) (i : LedgerCall) : Prop :=
  (appendStep c s i).1.2.file = s.2.file ++ walFormat.frame (i.payload c s)

/-- Reading a ledger with a torn tail. -/
lemma Ledger.readAll_torn {wal : WriteAheadLog} {disk : WalDisk} {bytes residue : Bytes}
    (h : Ledger c wal.subkey bytes records) (hopen : wal.isOpen = true)
    (htail : TornTail wal.subkey bytes residue) (hfile : disk.file = bytes ++ residue) :
    wal.readAll c disk = .ok records := by
  have hread := h.readAllLocked htail.readsAsEnd
  have hcontents : wal.contents disk = bytes ++ residue := by
    rw [contents, if_pos hopen, hfile]
  rw [← hcontents] at hread
  exact bind_eq_ok.mpr ⟨_, hread, rfl⟩

section Append

variable {s : LogState} {i : LedgerCall}

/-- **One append**: its record is read back if its frame is complete, and only then. -/
lemma Ready.readAll_appendStep (hs : Ready c dek s.1 s.2.file s.2.hwm records)
    (hi : HarmlessStep c false s i) :
    (Completes c s i → (appendStep c s i).1.1.readAll c (appendStep c s i).1.2 =
        .ok (records ++ [i.record c s])) ∧
      (¬ Completes c s i → (appendStep c s i).2 = none ∧
        (appendStep c s i).1.1.readAll c (appendStep c s i).1.2 = .ok records) := by
  have hlog := hs.setOrigin i.origin i.signer
  have hread : (i.log s).readAll c s.2 = .ok records :=
    hlog.ledger.readAll_eq hlog.isOpen
  obtain ⟨answer, wal', disk', hanswer, hstep⟩ := exists_appendStep_eq c s i
  cases answer with
  | ok lsn =>
    have hsome : (appendStep c s i).2.isSome = true := by
      rw [hstep]
      rfl
    have hstored : Stored c s i := ⟨hsome, hi.whole hsome⟩
    have hcomplete : Completes c s i := hstored.file
    have hnext := hlog.acked (appendStep_acked hsome).1 hstored.2 (hi.loggable hstored.writes)
    exact ⟨fun _ => hnext.ledger.readAll_eq hnext.isOpen, fun hnot => absurd hcomplete hnot⟩
  | error st =>
    obtain ⟨rfl, hdisk⟩ := append_failed hanswer
    rw [Completes, hstep]
    rcases hdisk with rfl | ⟨payload, hseal, hmax, rfl⟩
    · refine ⟨fun hcomplete => ?_, fun _ => ⟨rfl, hread⟩⟩
      have hlen : s.2.file.length = _ := congrArg List.length hcomplete
      rw [length_append, Format.length_frame] at hlen
      omega
    have hpayload : i.payload c s = payload := by
      exact congrArg (fun p : Except Status Bytes => p.toOption.getD []) hseal
    have hloggable : i.env.part (walFormat.frame payload) ≠ [] →
        (i.record c s).Loggable s.1.subkey := by
      refine fun hne => hi.loggable ?_
      rw [Writes, hstep]
      simpa using hne
    rw [hpayload, append_right_inj]
    refine ⟨fun hpart => ?_, fun hpart => ⟨rfl, ?_⟩⟩
    · have hne : walFormat.frame payload ≠ [] := by
        rw [← length_pos_iff, Format.length_frame]
        omega
      have hledger := hlog.ledger_concat hseal hmax (hloggable (by rwa [hpart]))
      refine Ledger.readAll_eq hlog.isOpen ?_
      rw [hpart]
      exact hledger
    · by_cases hnil : i.env.part (walFormat.frame payload) = []
      · rw [hnil, append_nil]
        exact hread
      · exact hlog.ledger.readAll_torn hlog.isOpen
          (tornTail_of_part hseal (hloggable hnil) hpart _) rfl

end Append

/-! ## Holds -/

namespace NodeEngine

variable {e : NodeEngine} {env : UInt32 → ChunkEnv} {call : HoldCall} {i : UInt32}

/-- The intents that are read from the ledger of a node. -/
def intents (c : Crypto) (e : NodeEngine) : List WalRecord :=
  ((e.storage.wal.readAll c e.storage.disk).toOption.getD []).filter fun r =>
    decide (r.type = .kTransitIntent)

/-- Every intent and every envelope was there before. -/
def NothingLeft (c : Crypto) (e e' : NodeEngine) : Prop :=
  (∀ r ∈ e'.intents c, r ∈ e.intents c) ∧ ∀ row ∈ e'.transit.entries, row ∈ e.transit.entries

/-- A chunk of a hold. -/
def hold (c : Crypto) (env : UInt32 → ChunkEnv) (call : HoldCall) (e : NodeEngine) (i : UInt32) :
    Except Status Unit × NodeEngine :=
  e.holdChunk c (env i) call.owner call.collection call.key call.doc call.messageId call.chunkTotal i

/-- The intent of a chunk of a hold. -/
def intent (c : Crypto) (env : UInt32 → ChunkEnv) (call : HoldCall) (e : NodeEngine)
    (i : UInt32) : LedgerCall :=
  e.intentCall c (env i) call.owner call.collection call.key call.doc call.messageId call.chunkTotal i

/-- The loop of a hold. -/
def holdAll (c : Crypto) (env : UInt32 → ChunkEnv) (call : HoldCall) (e : NodeEngine)
    (indexes : List UInt32) : Except Status Unit × NodeEngine :=
  holdChunks c env call.owner call.collection call.key call.doc call.messageId call.chunkTotal e
    indexes

lemma holdAll_cons (rest : List UInt32) : holdAll c env call e (i :: rest) =
    match hold c env call e i with
    | (.error st, e) => (.error st, e)
    | (.ok (), e) => holdAll c env call e rest := by
  rw [hold]
  rfl

lemma ledger_hold : (hold c env call e i).2.ledger =
    (appendStep c e.ledger (intent c env call e i)).1 := ledger_holdChunk ..

lemma intent_of_hold {e' : NodeEngine} (h : hold c env call e i = (.ok (), e')) :
    (appendStep c e.ledger (intent c env call e i)).2.isSome = true := intent_of_holdChunk h

/-- Every intent of the loop is one that the reader accepts, and in the file if it is acknowledged. -/
def HoldHarmless (c : Crypto) (env : UInt32 → ChunkEnv) (call : HoldCall) :
    NodeEngine → List UInt32 → Prop
  | _, [] => True
  | e, i :: rest => HarmlessStep c false e.ledger (intent c env call e i) ∧
      HoldHarmless c env call (hold c env call e i).2 rest

/-- The first intent of a hold is written completely. -/
def Begins (c : Crypto) (env : UInt32 → ChunkEnv) (call : HoldCall) (e : NodeEngine) : Prop :=
  ∃ i ∈ call.rest.head?, Completes c e.ledger (intent c env call e i)

/-- The hold of some chunks of a document, if it passes its check. -/
def admitted (e : NodeEngine) (nowMs : Int64) (owner collection key doc : Bytes)
    (onlyChunks : Option (List UInt32)) (messageId : Bytes) : Option HoldCall :=
  (e.admitHold nowMs owner doc onlyChunks).toOption.map fun chunks =>
    ⟨owner, collection, key, doc, messageId, chunks.1, chunks.2⟩

/-- The loop keeps what is in the ledger. -/
lemma logInv_holdAll {indexes : List UInt32} (h : LogInv c dek false e.ledger records)
    (hi : HoldHarmless c env call e indexes) : ∃ dirty rs,
      LogInv c dek dirty (holdAll c env call e indexes).2.ledger rs ∧ records <+: rs := by
  induction indexes generalizing e records with
  | nil => exact ⟨false, records, h, prefix_rfl⟩
  | cons i rest ih =>
    have hstep := h.step hi.1
    have hrest := hi.2
    rw [← ledger_hold] at hstep
    rw [holdAll_cons]
    rcases hheld : hold c env call e i with ⟨st | u, e'⟩
    · rw [hheld] at hstep
      exact ⟨_, _, hstep, prefix_append _ _⟩
    · have hsome := intent_of_hold hheld
      rw [Option.isNone_eq_false_iff.mpr hsome, hheld] at hstep
      rw [hheld] at hrest
      obtain ⟨dirty, rs, hinv, hpre⟩ := ih hstep hrest
      exact ⟨dirty, rs, hinv, (prefix_append _ _).trans hpre⟩

/-- Without an intent, the chunk is refused and nothing is stored. -/
lemma hold_of_refused (h : (appendStep c e.ledger (intent c env call e i)).2 = none) :
    ∃ st e', hold c env call e i = (.error st, e') ∧ e'.transit = e.transit := by
  unfold hold holdChunk
  dsimp only
  split
  · exact ⟨_, _, rfl, rfl⟩
  · rename_i lsn hlsn
    rw [appendStep, Option.map_eq_none_iff] at h
    have hok := congrArg Except.toOption hlsn
    cases hok.symm.trans h

lemma mem_intents {rs : List WalRecord} {r : WalRecord}
    (hread : e.ledger.1.readAll c e.ledger.2 = .ok rs) :
    r ∈ e.intents c ↔ r ∈ rs ∧ r.type = .kTransitIntent := by
  have hread : e.storage.wal.readAll c e.storage.disk = .ok rs := hread
  rw [intents, hread, mem_filter, decide_eq_true_iff]
  rfl

section Left

variable (hs : Ready c dek e.storage.wal e.storage.disk.file e.storage.disk.hwm records)

include hs

/-- The intent of a chunk stays in the ledger to the end of the hold. -/
lemma intent_left {rest : List UInt32} (hi : HoldHarmless c env call e (i :: rest))
    (hcomplete : Completes c e.ledger (intent c env call e i)) :
    (intent c env call e i).record c e.ledger ∈
      (holdAll c env call e (i :: rest)).2.intents c := by
  have htype := (record_fields (c := c) (intent c env call e i) e.ledger).1
  have hread := (Ready.readAll_appendStep hs hi.1).1 hcomplete
  have hstep := (Ready.logInv hs).step hi.1
  have hrest := hi.2
  rw [← ledger_hold] at hread hstep
  rw [holdAll_cons]
  rcases hheld : hold c env call e i with ⟨st | u, e'⟩
  · rw [hheld] at hread
    exact (mem_intents hread).mpr ⟨by simp, htype⟩
  · have hsome := intent_of_hold hheld
    rw [(appendStep_acked hsome).2, hheld] at hstep
    rw [hheld] at hrest
    obtain ⟨dirty, rs, hinv, hpre⟩ := logInv_holdAll hstep hrest
    obtain ⟨rs', hread', hpre'⟩ := hinv.usable.readAll
    exact (mem_intents hread').mpr ⟨hpre'.subset (hpre.subset (by simp)), htype⟩

/-- What a hold leaves behind once it is admitted. -/
lemma nothingLeft_holdAll_iff (hi : HoldHarmless c env call e call.rest) {st : Status}
    (herror : (holdAll c env call e call.rest).1 = .error st) :
    NothingLeft c e (holdAll c env call e call.rest).2 ↔ ¬ Begins c env call e := by
  have hread : e.ledger.1.readAll c e.ledger.2 = .ok records := hs.ledger.readAll_eq hs.isOpen
  rw [Begins]
  cases hrest : call.rest with
  | nil =>
    rw [hrest] at herror
    cases herror
  | cons i rest =>
    rw [hrest] at hi
    simp only [head?_cons, Option.mem_def, Option.some_inj, exists_eq_left']
    constructor
    · -- The record of a whole frame is read back, and its LSN is new.
      intro hleft hcomplete
      have hmem := (mem_intents hread).mp (hleft.1 _ (intent_left hs hi hcomplete))
      have hlt := (hs.ledger.lsn_bounds _ hmem.1).2
      rw [← hs.nextLsn] at hlt
      exact Int64.lt_irrefl hlt
    · -- Without a whole frame the first intent fails, and the hold ends there.
      intro hnot
      obtain ⟨hnone, hread'⟩ := (Ready.readAll_appendStep hs hi.1).2 hnot
      obtain ⟨st', e', hheld, htransit⟩ := hold_of_refused hnone
      rw [← ledger_hold, hheld] at hread'
      rw [holdAll_cons, hheld]
      refine ⟨fun r hr => (mem_intents hread).mpr ((mem_intents hread').mp hr), ?_⟩
      rw [htransit]
      exact fun row hrow => hrow

end Left

/-- **A hold that returns an error leaves nothing behind** exactly if it has not written its first
intent completely: no intent in the ledger and no envelope in the store that was not there. -/
theorem hold_all_or_nothing_iff (c : Crypto) (e : NodeEngine) (env : UInt32 → ChunkEnv)
    (nowMs : Int64) (owner collection key doc : Bytes) (onlyChunks : Option (List UInt32))
    (messageId dek : Bytes) (records : List WalRecord)
    (hs : Ready c dek e.storage.wal e.storage.disk.file e.storage.disk.hwm records)
    (hi : ∀ call ∈ e.admitted nowMs owner collection key doc onlyChunks messageId,
      HoldHarmless c env call e call.rest) :
    let held := e.holdForOfflineOwner c env nowMs owner collection key doc onlyChunks messageId
    ((∃ st, held.1 = .error st) → NothingLeft c e held.2) ↔
      ((∃ st, held.1 = .error st) →
        ∀ call ∈ e.admitted nowMs owner collection key doc onlyChunks messageId,
          ¬ Begins c env call e) := by
  intro held
  refine imp_congr_right fun ⟨st, herror⟩ => ?_
  have hheld : held = _ := e.holdForOfflineOwner_eq c env nowMs owner collection key doc onlyChunks
    messageId
  unfold admitted at hi ⊢
  cases hadmitted : e.admitHold nowMs owner doc onlyChunks with
  | error st' =>
    rw [hadmitted] at hheld
    rw [hheld]
    exact iff_of_true ⟨fun r hr => hr, fun row hrow => hrow⟩ nofun
  | ok chunks =>
    rw [hadmitted] at hheld hi
    rw [hheld] at herror ⊢
    refine (nothingLeft_holdAll_iff hs (hi _ rfl) herror).trans ?_
    simp [Except.toOption]

/-- A hold of one chunk. -/
def sampleChunk (env : ChunkEnv) : Except Status Unit × NodeEngine :=
  sampleNode.holdForOfflineOwner sampleCrypto (fun _ => env) 0 [98] (text "c") (text "k") [1] none []

/-- The hold, behind its check. -/
def sampleHoldCall : HoldCall := ⟨[98], text "c", text "k", [1], [], 1, [0]⟩

/-- The transit store cannot write the bytes. -/
def sampleUnstored : ChunkEnv :=
  { wall := 5000, appended := .error ⟨.ioError, text "transit log append failed"⟩ }

/-- The ledger cannot write the intent, and a part of it stays in the file. -/
def sampleTorn : ChunkEnv := { wall := 5000, append := { reached := some 9, writeGood := false } }

lemma sampleNode_ready : Ready sampleCrypto [] sampleNode.storage.wal sampleNode.storage.disk.file
    sampleNode.storage.disk.hwm [] := ⟨⟨rfl, rfl, ledger_nil _ _, rfl, rfl⟩, rfl⟩

/-- The hold returns the error of the transit store, and its intent stays in the ledger. -/
theorem refused_hold_leaves_intent :
    (sampleChunk sampleUnstored).1 = .error ⟨.ioError, text "transit log append failed"⟩ ∧
      ¬ NothingLeft sampleCrypto sampleNode (sampleChunk sampleUnstored).2 := by
  have hi : HoldHarmless sampleCrypto (fun _ => sampleUnstored) sampleHoldCall sampleNode [0] :=
    ⟨⟨fun _ => by decide +kernel, fun _ => rfl, nofun⟩, trivial⟩
  have hheld : sampleChunk sampleUnstored = holdAll sampleCrypto (fun _ => sampleUnstored)
      sampleHoldCall sampleNode sampleHoldCall.rest :=
    sampleNode.holdForOfflineOwner_eq sampleCrypto (fun _ => sampleUnstored) 0 [98] (text "c")
      (text "k") [1] none []
  have herror : (sampleChunk sampleUnstored).1 =
    .error ⟨.ioError, text "transit log append failed"⟩ := by decide +kernel
  refine ⟨herror, ?_⟩
  rw [hheld] at herror ⊢
  rw [nothingLeft_holdAll_iff sampleNode_ready hi herror, not_not]
  exact ⟨0, rfl, Stored.file ⟨by decide +kernel, rfl⟩⟩

/-- The hold returns the error of the ledger, and leaves nothing behind. -/
theorem hold_all_or_nothing_sample : (∃ st, (sampleChunk sampleTorn).1 = .error st) ∧
    NothingLeft sampleCrypto sampleNode (sampleChunk sampleTorn).2 := by
  have hadmitted : sampleNode.admitted 0 [98] (text "c") (text "k") [1] none [] = some sampleHoldCall :=
    rfl
  have herror : ∃ st, (sampleChunk sampleTorn).1 = .error st := ⟨_, rfl⟩
  refine ⟨herror, (hold_all_or_nothing_iff sampleCrypto sampleNode (fun _ => sampleTorn) 0 [98]
    (text "c") (text "k") [1] none [] [] [] sampleNode_ready ?_).mpr ?_ herror⟩
  · rw [hadmitted]
    rintro call ⟨⟩
    exact ⟨⟨fun _ => by decide +kernel, nofun, nofun⟩, trivial⟩
  · rw [hadmitted]
    rintro - call ⟨⟩
    unfold Begins Completes
    decide +kernel

end NodeEngine

end DeSentry
