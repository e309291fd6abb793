import DeSentry.Framework.Runs
import DeSentry.Properties.WalLedger

/-!
# What survives a crash in the middle of an append

A node appends, crashes while a further frame is being written, opens the ledger again, appends
some more and opens it once more.  `ReadAllLocked` takes an unfinished frame at the end of the
file for the end of the file, so the first reopening finds every acknowledged record.  `Open`
does not remove the unfinished frame, though, and the next `Append` writes behind it.  From then
on the reader meets the torn bytes in the middle of the file: the length they announce swallows
the frames behind them, and either the file ends inside that length, and the records
acknowledged since the crash are silently gone, or the checksum is wrong, and `Open` refuses the
file.

`acknowledged_records_survive_iff` says when all acknowledged records are read back: when no
bytes were torn or nothing was appended behind them, and every record was one the reader
accepts.
-/

namespace DeSentry

open ByteCodec FrameLog WriteAheadLog Runs List

/-! ## Runs of appends -/

/-- An `Append` with the origin in force and what the operating system does during it. -/
structure LedgerCall where
  origin : Bytes := []
  signer : Option (Bytes → Bytes) := none
  call : AppendCall
  env : AppendEnv := {}

/-- The object and its files. -/
abbrev LogState := WriteAheadLog × WalDisk

/-- The log with the call's origin installed. -/
def LedgerCall.log (i : LedgerCall) (s : LogState) : WriteAheadLog := s.1.setOrigin i.origin i.signer

/-- The record the call writes. -/
def LedgerCall.record (c : Crypto) (s : LogState) (i : LedgerCall) : WalRecord :=
  (i.log s).newRecord c i.call

/-- One call; it returns its record if it is acknowledged. -/
def appendStep (c : Crypto) (s : LogState) (i : LedgerCall) : LogState × Option WalRecord :=
  let answer := (i.log s).append c i.env s.2 i.call
  (answer.2, answer.1.toOption.map fun _ => i.record c s)

/-- The acknowledged records of a run. -/
def acknowledged (c : Crypto) (s : LogState) (is : List LedgerCall) : List WalRecord :=
  (outputs (appendStep c) s is).reduceOption

/-- The payload a call puts into its frame. -/
def LedgerCall.payload (c : Crypto) (s : LogState) (i : LedgerCall) : Bytes :=
  (sealPayload c i.env.nonce s.1.subkey (encodeBody (i.record c s))).toOption.getD []

/-- The payloads of a run. -/
def payloads (c : Crypto) : LogState → List LedgerCall → List Bytes
  | _, [] => []
  | s, i :: is => i.payload c s :: payloads c (appendStep c s i).1 is

/-- The call is acknowledged and its whole frame is in the file. -/
def Stored (c : Crypto) (s : LogState) (i : LedgerCall) : Prop :=
  (appendStep c s i).2.isSome = true ∧ i.env.reached = none

/-- Every call of the run is. -/
abbrev AllStored (c : Crypto) : LogState → List LedgerCall → Prop :=
  Runs.Guarded (appendStep c) (Stored c)

variable {c : Crypto} {s : LogState} {i : LedgerCall} {is : List LedgerCall}

/-- The answer of a call, and the state it leaves. -/
lemma exists_appendStep_eq (c : Crypto) (s : LogState) (i : LedgerCall) :
    ∃ answer wal' disk', (i.log s).append c i.env s.2 i.call = (answer, wal', disk') ∧
      appendStep c s i = ((wal', disk'), answer.toOption.map fun _ => i.record c s) :=
  ⟨_, _, _, rfl, rfl⟩

lemma appendStep_acked (h : (appendStep c s i).2.isSome = true) :
    Acked c i.env (i.log s) s.2 i.call (appendStep c s i).1.1 (appendStep c s i).1.2
      (i.payload c s) ∧ (appendStep c s i).2 = some (i.record c s) := by
  obtain ⟨answer, wal', disk', hanswer, hstep⟩ := exists_appendStep_eq c s i
  rw [hstep] at h ⊢
  cases answer with
  | error st => cases h
  | ok lsn =>
    obtain ⟨payload, hacked⟩ := append_acked hanswer
    have hpayload : i.payload c s = payload := by
      have hseal : sealPayload c i.env.nonce s.1.subkey (encodeBody (i.record c s)) = .ok payload :=
        hacked.sealed
      rw [LedgerCall.payload, hseal]
      rfl
    rw [hpayload]
    exact ⟨hacked, rfl⟩

lemma Stored.file (h : Stored c s i) :
    (appendStep c s i).1.2.file = s.2.file ++ walFormat.frame (i.payload c s) := by
  rw [(appendStep_acked h.1).1.file, AppendEnv.part, h.2]

lemma acknowledged_cons (h : (appendStep c s i).2.isSome = true) :
    acknowledged c s (i :: is) = i.record c s :: acknowledged c (appendStep c s i).1 is := by
  rw [acknowledged, outputs, (appendStep_acked h).2]
  rfl

lemma length_acknowledged (h : AllStored c s is) : (acknowledged c s is).length = is.length := by
  induction is generalizing s with
  | nil => rfl
  | cons i is ih => rw [acknowledged_cons h.1.1, length_cons, length_cons, ih h.2]

/-- The file after a run. -/
lemma file_final (h : AllStored c s is) :
    (final (appendStep c) s is).2.file = s.2.file ++ walFormat.frames (payloads c s is) := by
  induction is generalizing s with
  | nil => simp [final, payloads, Format.frames]
  | cons i is ih =>
    rw [final, ih h.2, h.1.file, payloads]
    simp [Format.frames]

/-- The key does not change during a run. -/
lemma subkey_final (h : AllStored c s is) :
    (final (appendStep c) s is).1.subkey = s.1.subkey := by
  have hstep : ∀ s' i, Stored c s' i → s'.1.subkey = s.1.subkey →
      (appendStep c s' i).1.1.subkey = s.1.subkey :=
    fun s' i hi hs' => (appendStep_acked hi.1).1.subkey.trans hs'
  exact final_invariant hstep rfl h

/-! ## The records of a run, as written -/

/-- A record `Append` built, and the payload that was written for it. -/
def Written (c : Crypto) (subkey : Bytes) (r : WalRecord) (p : Bytes) : Prop :=
  (∃ nonce, sealPayload c nonce subkey (encodeBody r) = .ok p) ∧
    ∃ wal call, r = newRecord c wal call ∧ wal.tipHash.length = kWalHashLen

lemma written_run (h : AllStored c s is) (htip : s.1.tipHash.length = kWalHashLen) :
    List.Forall₂ (Written c s.1.subkey) (acknowledged c s is) (payloads c s is) := by
  induction is generalizing s with
  | nil => exact .nil
  | cons i is ih =>
    have hdone := (appendStep_acked h.1.1).1
    have hnext : (appendStep c s i).1.1.tipHash.length = kWalHashLen := by
      rw [hdone.tipHash]
      exact c.length_sha256 _
    have hkey : (appendStep c s i).1.1.subkey = s.1.subkey := hdone.subkey
    rw [acknowledged_cons h.1.1]
    refine .cons ⟨⟨i.env.nonce, hdone.sealed⟩, i.log s, i.call, rfl, htip⟩ ?_
    rw [← hkey]
    exact ih h.2 hnext

variable {subkey p : Bytes} {r : WalRecord} {t t' : ReadState}

/-- The reader does not take a written record for one of the old format. -/
lemma Written.not_v1 (h : Written c subkey r p) (hmig : t.migratedFromV1 = false)
    (hj : readRecord c subkey t p = .accept t') : t'.migratedFromV1 = false := by
  obtain ⟨⟨nonce, hseal⟩, -⟩ := h
  rw [readRecord_sealPayload hseal] at hj
  cases hd : decodeBody (encodeBody r) with
  | error st =>
    rw [hd] at hj
    cases hj
  | ok r' =>
    rw [hd] at hj
    rw [(acceptRecord_accept hj).2, hmig]
    rfl

/-- What the reader accepts was loggable. -/
lemma Written.loggable (h : Written c subkey r p) (hfit : walFormat.Fits p)
    (hj : readRecord c subkey t p = .accept t') :
    r.Loggable subkey := by
  obtain ⟨⟨nonce, hseal⟩, wal, call, rfl, htip⟩ := h
  have hlen := (fits_sealPayload_iff hseal).mp hfit
  have hwf : (newRecord c wal call).WellFormed := by
    refine wellFormed_newRecord c htip ?_
    rw [kMaxRecordBytes] at hlen
    omega
  refine ⟨?_, hlen⟩
  by_contra hchunks
  rw [readRecord_of_not_chunksOk hseal hwf hchunks] at hj
  cases hj

variable {rs : List WalRecord} {ps : List Bytes}

lemma exists_written (h : List.Forall₂ (Written c subkey) rs ps) :
    ∀ p ∈ ps, ∃ r, Written c subkey r p := by
  induction h with
  | nil => simp
  | cons hr _ ih => exact forall_mem_cons.mpr ⟨⟨_, hr⟩, ih⟩

/-- Records whose frames the reader has all accepted were loggable. -/
lemma loggable_of_run (h : List.Forall₂ (Written c subkey) rs ps)
    (hfit : ∀ p ∈ ps, walFormat.Fits p) (hrun : Format.run (readRecord c subkey) t ps = some t') :
    ∀ r ∈ rs, r.Loggable subkey := by
  induction h generalizing t with
  | nil => simp
  | cons hr _ ih =>
    rw [forall_mem_cons] at hfit
    obtain ⟨t₁, hj, hrun⟩ := Format.run_cons.mp hrun
    exact forall_mem_cons.mpr ⟨hr.loggable hfit.1 hj, ih hfit.2 hrun⟩

variable {dek : Bytes} {records : List WalRecord}

/-- **A run of acknowledged appends of loggable records** keeps the log in good order. -/
lemma Ready.run (hs : Ready c dek s.1 s.2.file s.2.hwm records) (h : AllStored c s is)
    (hlog : ∀ r ∈ acknowledged c s is, r.Loggable s.1.subkey) :
    let s' := final (appendStep c) s is
    Ready c dek s'.1 s'.2.file s'.2.hwm (records ++ acknowledged c s is) := by
  induction is generalizing s records with
  | nil =>
    have hnil : acknowledged c s [] = [] := rfl
    rwa [hnil, append_nil]
  | cons i is ih =>
    rw [acknowledged_cons h.1.1, forall_mem_cons] at hlog
    have hkey : (appendStep c s i).1.1.subkey = s.1.subkey := (appendStep_acked h.1.1).1.subkey
    have hstep : Ready c dek (appendStep c s i).1.1 (appendStep c s i).1.2.file
        (appendStep c s i).1.2.hwm (records ++ [i.record c s]) :=
      (hs.setOrigin i.origin i.signer).acked (appendStep_acked h.1.1).1 h.1.2 hlog.1
    have hrun := ih hstep h.2 (by rw [hkey]; exact hlog.2)
    rw [acknowledged_cons h.1.1]
    rwa [append_assoc, singleton_append] at hrun

/-! ## Reading what was written -/

lemma length_records_readRecord (h : readRecord c subkey t p = .accept t') :
    t'.records.length = t.records.length + 1 := by
  obtain ⟨r, v1, -, -, haccept, -⟩ := readRecord_accept h
  rw [(acceptRecord_accept haccept).1, length_append, length_singleton]

/-- Every record the reader returns can be carried by the format. -/
lemma wellFormed_of_replay (subkey file : Bytes) :
    ∀ r ∈ (walFormat.replay (readRecord c subkey) {} file).1.records, r.WellFormed := by
  have hstep : ∀ (t : ReadState) p t', (∀ r ∈ t.records, r.WellFormed) →
      readRecord c subkey t p = .accept t' → ∀ r ∈ t'.records, r.WellFormed := by
    intro t p t' ht hj
    obtain ⟨r, v1, hr, -, haccept, -⟩ := readRecord_accept hj
    rw [(acceptRecord_accept haccept).1]
    intro r' hr'
    rcases mem_append.mp hr' with hr' | hr'
    · exact ht r' hr'
    · obtain rfl := mem_singleton.mp hr'
      exact hr
  exact Format.replay_invariant hstep (fun r hr => absurd hr not_mem_nil) file

lemma length_lastHash_of_wellFormed (h : ∀ r ∈ records, r.WellFormed) :
    (lastHash records).length = kWalHashLen := by
  cases records using List.reverseRecOn with
  | nil => rfl
  | append_singleton rs r =>
    rw [lastHash_concat]
    exact (h r (by simp)).length_entryHash

section Opened

variable {subkey dek walFile tail : Bytes} {ps : List Bytes} {env : OpenEnv} {disk disk' : WalDisk}
  {wal : WriteAheadLog}

/-- A successful `Open` of a file of written frames, with no further payload behind them: it
changes nothing and holds the records the walk returned. -/
lemma openLog_written (hkey : subkeyFor c dek = .ok subkey)
    (hps : ∀ p ∈ ps, ∃ r, Written c subkey r p) (hexp : walFormat.Exposed ps tail)
    (htail : ∀ q rest, walFormat.readFrame tail ≠ .payload q rest)
    (hfile : disk.file = walFormat.frames ps ++ tail)
    (hopen : openLog c env walFile dek disk = (.ok wal, disk')) :
    disk' = disk ∧ ∃ t, walFormat.replay (readRecord c subkey) {} disk.file = (t, .clean) ∧
      wal = ofRecords walFile subkey t.records := by
  obtain ⟨subkey', read, hkey', hread, hclean, -, hdone⟩ := openLog_ok hopen
  obtain rfl : subkey = subkey' := Except.ok.inj (hkey.symm.trans hkey')
  have hmig : (walFormat.replay (readRecord c subkey) {} disk.file).1.migratedFromV1 = false := by
    have hstep : ∀ p ∈ ps, ∀ t t' : ReadState, t.migratedFromV1 = false →
        readRecord c subkey t p = .accept t' → t'.migratedFromV1 = false := by
      intro p hp t t' ht hj
      obtain ⟨r, hr⟩ := hps p hp
      exact hr.not_v1 ht hj
    rw [hfile]
    exact Format.replay_frames_invariant hstep hexp htail rfl
  rw [readAllLocked] at hread
  rcases hreplay : walFormat.replay (readRecord c subkey) {} disk.file with ⟨t, stop⟩
  rw [hreplay] at hread hmig
  cases stop with
  | clean =>
    obtain rfl := Except.ok.inj hread
    obtain ⟨hwal, hdisk⟩ := hdone hmig
    exact ⟨hdisk, t, rfl, hwal⟩
  | corrupt =>
    obtain rfl := Except.ok.inj hread
    cases hclean
  | thrown => cases hread

end Opened

/-- `Open` of a new ledger. -/
lemma openLog_new {env : OpenEnv} {walFile : Bytes} {wal : WriteAheadLog} {disk : WalDisk}
    (h : openLog c env walFile dek {} = (.ok wal, disk)) :
    ∃ subkey, subkeyFor c dek = .ok subkey ∧ wal = ofRecords walFile subkey [] ∧ disk = {} := by
  obtain ⟨subkey, read, hkey, hread, -, -, hdone⟩ := openLog_ok h
  obtain rfl : (⟨[], false, false⟩ : ReadResult) = read := Except.ok.inj hread
  obtain ⟨hwal, hdisk⟩ := hdone rfl
  exact ⟨subkey, hkey, hwal, hdisk⟩

/-! ## The crash -/

/-- The files a crash leaves: a part of one more frame is at the end of the ledger. -/
def crash (s : LogState) (torn : Bytes) : WalDisk := { s.2 with file := s.2.file ++ torn }

/-- The checksum exposes the misframed bytes of a file: the reader finds no payload where it
stands at torn bytes, or at a frame too long for its length field to be believed. -/
structure MisframingDetected (first : List Bytes) (torn : Bytes) (second : List Bytes) : Prop where
  first : walFormat.Exposed first (torn ++ walFormat.frames second)
  torn : torn ≠ [] → ∀ p rest,
    walFormat.readFrame (torn ++ walFormat.frames second) ≠ .payload p rest
  second : walFormat.Exposed second []

/-- The part of a crashed file a reader can get through, and what stops it. -/
lemma MisframingDetected.split {first second : List Bytes} {torn : Bytes}
    (h : MisframingDetected first torn second) : ∃ ps tail,
    walFormat.frames first ++ torn ++ walFormat.frames second = walFormat.frames ps ++ tail ∧
      walFormat.Exposed ps tail ∧ (∀ q rest, walFormat.readFrame tail ≠ .payload q rest) ∧
      (torn = [] ∧ ps = first ++ second ∧ tail = [] ∨
        torn ≠ [] ∧ ps = first ∧ tail = torn ++ walFormat.frames second) := by
  by_cases htorn : torn = []
  · subst htorn
    refine ⟨first ++ second, [], ?_, ?_, ?_, Or.inl ⟨rfl, rfl, rfl⟩⟩
    · simp [Format.frames_append]
    · have hfirst := h.first
      rw [Format.exposed_append, append_nil]
      exact ⟨hfirst, h.second⟩
    · intro q rest hq
      cases hq
  · refine ⟨first, torn ++ walFormat.frames second, ?_, h.first, h.torn htorn,
      Or.inr ⟨htorn, rfl, rfl⟩⟩
    rw [append_assoc]

/-- All acknowledged records of both sessions are read back in the order of their LSNs: the
ledger opens after the crash and again after the second session. -/
def RecordsSurvive (c : Crypto) (env₁ env₂ : OpenEnv) (walFile dek : Bytes) (s₀ : LogState)
    (first : List LedgerCall) (torn : Bytes) (second : List LedgerCall) : Prop :=
  ∃ wal₁ disk₁ wal₂ disk₂ records,
    openLog c env₁ walFile dek (crash (final (appendStep c) s₀ first) torn) =
        (.ok wal₁, disk₁) ∧
      openLog c env₂ walFile dek (final (appendStep c) (wal₁, disk₁) second).2 =
        (.ok wal₂, disk₂) ∧
      wal₂.readAll c disk₂ = .ok records ∧
      records = acknowledged c s₀ first ++ acknowledged c (wal₁, disk₁) second ∧
      records.Pairwise (·.lsn < ·.lsn)

section Crash

variable {env₀ env₁ env₂ : OpenEnv} {walFile dek torn : Bytes} {wal₀ : WriteAheadLog}
  {disk₀ : WalDisk} {first second : List LedgerCall}

variable {subkey : Bytes}

/-- The torn bytes of an interrupted append cannot be mistaken for the other mode. -/
lemma tornTail_of_interrupted {nonce : Except Bytes Nonce} {p : Bytes} {r : WalRecord}
    (hseal : sealPayload c nonce subkey (encodeBody r) = .ok p) (htorn : torn <+: walFormat.frame p)
    (hend : ReadsAsEnd torn) (bytes : Bytes) : TornTail subkey bytes torn := by
  refine ⟨hend, fun _ => Or.inr ⟨p, ?_, looksSealedRecord_sealPayload hseal, htorn⟩⟩
  have hfour := four_le_length_encodeBody r
  rw [length_sealPayload hseal]
  omega

variable {records : List WalRecord}

/-- Opening a ledger and reading it back. -/
lemma open_and_read (env : OpenEnv) (disk₀ : WalDisk) {bytes residue : Bytes}
    (h : Ledger c subkey bytes records) (hkey : subkeyFor c dek = .ok subkey)
    (htail : TornTail subkey bytes residue) (hfile : disk₀.file = bytes ++ residue)
    (hmark : checkHwm records disk₀.hwm = .ok ()) (hworks : env.created = true ∧ env.opened = true)
    :
    ∃ wal disk, openLog c env walFile dek disk₀ = (.ok wal, disk) ∧
      wal.readAll c disk = .ok records := by
  obtain ⟨file, hwm⟩ := disk₀
  obtain rfl : file = bytes ++ residue := hfile
  refine ⟨_, _, h.openLog hkey htail hmark hworks.1 hworks.2, ?_⟩
  exact bind_eq_ok.mpr ⟨_, h.readAllLocked htail.readsAsEnd, rfl⟩

/-- A session of acknowledged appends of loggable records is read back after the next opening. -/
lemma session_read_back {env : OpenEnv} (hs : Ready c dek s.1 s.2.file s.2.hwm records)
    (h : AllStored c s is) (hlog : ∀ r ∈ acknowledged c s is, r.Loggable s.1.subkey)
    (hworks : env.created = true ∧ env.opened = true) :
    ∃ wal disk, openLog c env walFile dek (final (appendStep c) s is).2 = (.ok wal, disk) ∧
      wal.readAll c disk = .ok (records ++ acknowledged c s is) ∧
      (records ++ acknowledged c s is).Pairwise (·.lsn < ·.lsn) := by
  have hready := hs.run h hlog
  obtain ⟨wal, disk, hopen, hread⟩ :=
    open_and_read env (final (appendStep c) s is).2 hready.ledger hready.subkey
      (tornTail_nil _ _) (append_nil _).symm hready.mark hworks
  exact ⟨wal, disk, hopen, hread, hready.ledger.ordered⟩

/-- Nothing is lost when every record is loggable and no append follows torn bytes. -/
lemma survive_of_loggable (s₀ : LogState) (hs₀ : Ready c dek s₀.1 s₀.2.file s₀.2.hwm [])
    (hfirst : AllStored c s₀ first) (hlog₁ : ∀ r ∈ acknowledged c s₀ first, r.Loggable s₀.1.subkey)
    (htail : ∀ bytes, TornTail s₀.1.subkey bytes torn) (hclear : torn = [] ∨ second = [])
    (hsecond : ∀ wal₁ disk₁,
      openLog c env₁ walFile dek (crash (final (appendStep c) s₀ first) torn) =
        (.ok wal₁, disk₁) → AllStored c (wal₁, disk₁) second ∧
          ∀ r ∈ acknowledged c (wal₁, disk₁) second, r.Loggable wal₁.subkey)
    (hworks₁ : env₁.created = true ∧ env₁.opened = true)
    (hworks₂ : env₂.created = true ∧ env₂.opened = true) :
    RecordsSurvive c env₁ env₂ walFile dek s₀ first torn second := by
  have hready := hs₀.run hfirst hlog₁
  have hledger := hready.ledger
  rw [subkey_final hfirst] at hledger
  have hopen₁ : openLog c env₁ walFile dek (crash (final (appendStep c) s₀ first) torn) =
      (.ok (ofRecords walFile s₀.1.subkey (acknowledged c s₀ first)), _) :=
    hledger.openLog hs₀.subkey (htail _) hready.mark hworks₁.1 hworks₁.2
  obtain ⟨hall, hlog₂⟩ := hsecond _ _ hopen₁
  rcases hclear with rfl | rfl
  · -- Nothing torn: the second session continues a log in good order.
    rw [append_nil] at hopen₁ hall hlog₂
    obtain ⟨wal₂, disk₂, hopen₂, hread, hord⟩ :=
      session_read_back (hledger.ready hs₀.subkey hready.mark) hall hlog₂ hworks₂
    exact ⟨_, _, wal₂, disk₂, _, hopen₁, hopen₂, hread, rfl, hord⟩
  · -- Nothing appended: the second opening reads the same file.
    obtain ⟨wal₂, disk₂, hopen₂, hread⟩ :=
      open_and_read env₂ (crash (final (appendStep c) s₀ first) torn) hledger hs₀.subkey
        (htail _) rfl hready.mark hworks₂
    exact ⟨_, _, wal₂, disk₂, _, hopen₁, hopen₂, hread, (append_nil _).symm, hledger.ordered⟩

variable {t : ReadState}

/-- Where the reader ends cleanly without finding a payload, it has met the end. -/
lemma readsAsEnd_of_clean {t' : ReadState}
    (hstop : ∀ q rest, walFormat.readFrame torn ≠ .payload q rest)
    (hclean : walFormat.replay (readRecord c subkey) t torn = (t', .clean)) : ReadsAsEnd torn := by
  rw [Format.replay_eq] at hclean
  cases hr : walFormat.readFrame torn with
  | endOfFile => exact Or.inl hr
  | torn => exact Or.inr hr
  | payload q rest => exact absurd hr (hstop q rest)
  | badLength =>
    rw [hr] at hclean
    cases hclean
  | badChecksum =>
    rw [hr] at hclean
    cases hclean

/-- A reader that ends cleanly and has as many records as were written has met nothing it does
not accept: it stops at the first such place. -/
lemma loggable_of_count {rs₁ rs₂ : List WalRecord} {ps₁ ps₂ : List Bytes}
    (hw₁ : List.Forall₂ (Written c subkey) rs₁ ps₁) (hw₂ : List.Forall₂ (Written c subkey) rs₂ ps₂)
    (hcrc : MisframingDetected ps₁ torn ps₂)
    (hreplay : walFormat.replay (readRecord c subkey) {} (walFormat.frames ps₁ ++ torn ++
      walFormat.frames ps₂) = (t, .clean)) (hcount : t.records.length = rs₁.length + rs₂.length) :
    (∀ r ∈ rs₁, r.Loggable subkey) ∧ ReadsAsEnd torn ∧ (torn = [] ∨ rs₂ = []) ∧
      ∀ r ∈ rs₂, r.Loggable subkey := by
  have hstep : ∀ (t : ReadState) p t', readRecord c subkey t p = .accept t' →
      t'.records.length = t.records.length + 1 := fun t p t' => length_records_readRecord
  have hlen₁ := hw₁.length_eq
  have hlen₂ := hw₂.length_eq
  obtain ⟨ps, tail, hsplit, hexp, hstop, hcases⟩ := hcrc.split
  rw [hsplit] at hreplay
  have hread : ps.length ≤ t.records.length := by
    rcases hcases with ⟨-, rfl, -⟩ | ⟨-, rfl, -⟩
    · rw [length_append]
      omega
    · omega
  obtain ⟨hfit, t', hrun⟩ := Format.frames_accepted hstep hexp (by
    rw [hreplay]
    exact (Nat.zero_add _).trans_le hread)
  rcases hcases with ⟨rfl, rfl, rfl⟩ | ⟨htorn, rfl, rfl⟩
  · have hall := loggable_of_run (rel_append hw₁ hw₂) hfit hrun
    rw [forall_mem_append] at hall
    exact ⟨hall.1, Or.inl rfl, Or.inl rfl, hall.2⟩
  · rw [Format.replay_frames hfit hrun] at hreplay
    have ht : t' = t := by
      have hfst : (walFormat.replay (readRecord c subkey) t' (torn ++ walFormat.frames ps₂)).1 = t' :=
        Format.replay_fst_of_not_payload hstop
      rw [hreplay] at hfst
      exact hfst.symm
    have hone : t'.records.length = 0 + ps.length := Format.count_run hstep hrun
    have hnil : rs₂ = [] := length_eq_zero_iff.mp (by rw [ht] at hone; omega)
    obtain rfl : ps₂ = [] := length_eq_zero_iff.mp (by rw [← hlen₂, hnil]; rfl)
    rw [show walFormat.frames [] = [] from rfl, append_nil] at hstop hreplay
    refine ⟨loggable_of_run hw₁ hfit hrun, readsAsEnd_of_clean hstop hreplay, Or.inr hnil, ?_⟩
    rw [hnil]
    simp

lemma readAll_ofRecords {disk : WalDisk}
    (h : walFormat.replay (readRecord c subkey) {} disk.file = (t, .clean)) (rs : List WalRecord) :
    (ofRecords walFile subkey rs).readAll c disk = .ok t.records := by
  refine bind_eq_ok.mpr ⟨⟨t.records, false, t.migratedFromV1⟩, ?_, rfl⟩
  change readAllLocked c subkey disk.file = _
  rw [readAllLocked, h]

/-- Something is lost in every other case. -/
lemma loggable_of_survive {s₀ : LogState} (hkey : subkeyFor c dek = .ok s₀.1.subkey)
    (hfile₀ : s₀.2.file = []) (htip₀ : s₀.1.tipHash.length = kWalHashLen)
    (hfirst : AllStored c s₀ first) (hcrc₁ : MisframingDetected (payloads c s₀ first) torn [])
    (hsecond : ∀ wal₁ disk₁,
      openLog c env₁ walFile dek (crash (final (appendStep c) s₀ first) torn) =
        (.ok wal₁, disk₁) → AllStored c (wal₁, disk₁) second ∧
          MisframingDetected (payloads c s₀ first) torn (payloads c (wal₁, disk₁) second))
    (h : RecordsSurvive c env₁ env₂ walFile dek s₀ first torn second) :
    (∀ r ∈ acknowledged c s₀ first, r.Loggable s₀.1.subkey) ∧ ReadsAsEnd torn ∧
      (torn = [] ∨ second = []) ∧
      ∀ wal₁ disk₁, openLog c env₁ walFile dek (crash (final (appendStep c) s₀ first) torn) =
        (.ok wal₁, disk₁) → ∀ r ∈ acknowledged c (wal₁, disk₁) second, r.Loggable wal₁.subkey := by
  obtain ⟨wal₁, disk₁, wal₂, disk₂, records, hopen₁, hopen₂, hread, hrecords, -⟩ := h
  obtain ⟨hall, hcrc₂⟩ := hsecond _ _ hopen₁
  have hw₁ := written_run hfirst htip₀
  -- The first opening changes nothing, whatever it has read.
  have hcrash : (crash (final (appendStep c) s₀ first) torn).file =
      walFormat.frames (payloads c s₀ first) ++ torn := by
    rw [crash, file_final hfirst, hfile₀, nil_append]
  obtain ⟨qs, rest, hsplit₁, hexp₁, hstop₁, hcases₁⟩ := hcrc₁.split
  have hqs : ∀ p ∈ qs, ∃ r, Written c s₀.1.subkey r p := by
    rcases hcases₁ with ⟨-, rfl, -⟩ | ⟨-, rfl, -⟩
    · rw [append_nil]
      exact exists_written hw₁
    · exact exists_written hw₁
  rw [show walFormat.frames [] = [] from rfl, append_nil] at hsplit₁
  obtain ⟨rfl, t₁, ht₁, rfl⟩ :=
    openLog_written hkey hqs hexp₁ hstop₁ (hcrash.trans hsplit₁) hopen₁
  have htip₁ : (lastHash t₁.records).length = kWalHashLen := by
    have hwf := wellFormed_of_replay (c := c) s₀.1.subkey
      (crash (final (appendStep c) s₀ first) torn).file
    rw [ht₁] at hwf
    exact length_lastHash_of_wellFormed hwf
  have hw₂ := written_run hall htip₁
  -- The second opening finds the frames of both sessions around the torn bytes.
  have hfile₂ := file_final hall
  rw [hcrash] at hfile₂
  obtain ⟨ps, tail, hsplit₂, hexp₂, hstop₂, hcases₂⟩ := hcrc₂.split
  have hps : ∀ p ∈ ps, ∃ r, Written c s₀.1.subkey r p := by
    rcases hcases₂ with ⟨-, rfl, -⟩ | ⟨-, rfl, -⟩
    · exact forall_mem_append.mpr ⟨exists_written hw₁, exists_written hw₂⟩
    · exact exists_written hw₁
  obtain ⟨rfl, t₂, ht₂, rfl⟩ :=
    openLog_written hkey hps hexp₂ hstop₂ (hfile₂.trans hsplit₂) hopen₂
  have hback : t₂.records = records :=
    Except.ok.inj ((readAll_ofRecords ht₂ t₂.records).symm.trans hread)
  rw [hfile₂] at ht₂
  obtain ⟨hlog₁, hend, hclear, hlog₂⟩ := loggable_of_count hw₁ hw₂ hcrc₂ ht₂ (by
    rw [hback, hrecords, length_append])
  refine ⟨hlog₁, hend, hclear.imp_right fun hnil => ?_, fun wal₁ disk₁ hopen => ?_⟩
  · have hlen := length_acknowledged hall
    rw [hnil] at hlen
    exact length_eq_zero_iff.mp hlen.symm
  · rw [hopen₁] at hopen
    obtain ⟨hwal, hdisk⟩ := Prod.mk.inj hopen
    obtain rfl := Except.ok.inj hwal
    subst hdisk
    exact hlog₂

/-- **Durability across a crash and reuse.**  A new ledger takes a session of acknowledged
appends; a crash leaves a prefix of one more frame in the file; the ledger is opened, takes a
second session, and is opened again.  Given that the checksum detects misframed bytes, all
acknowledged records are read back in LSN order exactly when every record was loggable, the torn
bytes read as the end of the file, and no append went behind torn bytes. -/
theorem acknowledged_records_survive_iff (c : Crypto) (env₀ env₁ env₂ : OpenEnv)
    (walFile dek torn p : Bytes) (wal₀ : WriteAheadLog) (disk₀ : WalDisk)
    (first second : List LedgerCall) (interrupted : LedgerCall)
    (hnew : openLog c env₀ walFile dek {} = (.ok wal₀, disk₀))
    (hfirst : AllStored c (wal₀, disk₀) first)
    (hframe : sealPayload c interrupted.env.nonce wal₀.subkey (encodeBody
      (interrupted.record c (final (appendStep c) (wal₀, disk₀) first))) = .ok p)
    (htorn : torn <+: walFormat.frame p)
    (hworks₁ : env₁.created = true ∧ env₁.opened = true)
    (hworks₂ : env₂.created = true ∧ env₂.opened = true)
    (hcrc₁ : MisframingDetected (payloads c (wal₀, disk₀) first) torn [])
    (hsecond : ∀ wal₁ disk₁,
      openLog c env₁ walFile dek (crash (final (appendStep c) (wal₀, disk₀) first) torn) =
        (.ok wal₁, disk₁) → AllStored c (wal₁, disk₁) second ∧
          MisframingDetected (payloads c (wal₀, disk₀) first) torn
            (payloads c (wal₁, disk₁) second)) :
    RecordsSurvive c env₁ env₂ walFile dek (wal₀, disk₀) first torn second ↔
      (∀ r ∈ acknowledged c (wal₀, disk₀) first, r.Loggable wal₀.subkey) ∧ ReadsAsEnd torn ∧
        (torn = [] ∨ second = []) ∧
        ∀ wal₁ disk₁,
          openLog c env₁ walFile dek (crash (final (appendStep c) (wal₀, disk₀) first) torn) =
            (.ok wal₁, disk₁) →
          ∀ r ∈ acknowledged c (wal₁, disk₁) second, r.Loggable wal₁.subkey := by
  obtain ⟨subkey, hkey, rfl, rfl⟩ := openLog_new hnew
  constructor
  · exact loggable_of_survive hkey rfl rfl hfirst hcrc₁ hsecond
  · rintro ⟨hlog₁, hend, hclear, hlog₂⟩
    have hready : Ready c dek (ofRecords walFile subkey []) [] none [] :=
      (ledger_nil c subkey).ready hkey rfl
    exact survive_of_loggable (ofRecords walFile subkey [], {}) hready hfirst hlog₁
      (tornTail_of_interrupted hframe htorn hend) hclear
      (fun wal₁ disk₁ hopen => ⟨(hsecond wal₁ disk₁ hopen).1, hlog₂ wal₁ disk₁ hopen⟩)
      hworks₁ hworks₂

end Crash

/-! ## A lost record -/

/-- A put of one byte under a key of one byte, in the collection `a`, with everything stored. -/
def samplePut (key : UInt8) : LedgerCall where
  call := { type := .kPut, collection := [97], key := [key], documentBytes := [1] }

/-- A new plaintext ledger. -/
def sampleLog : LogState := (ofRecords [] [] [], {})

lemma sampleLog_ready : Ready sampleCrypto [] sampleLog.1 [] none [] :=
  (ledger_nil sampleCrypto []).ready rfl rfl

/-- The first byte of the frame of a second put. -/
def sampleTorn : Bytes :=
  (walFormat.frame ((samplePut 108).payload sampleCrypto
    (final (appendStep sampleCrypto) sampleLog [samplePut 107]))).take 1

/-- The ledger after one put, a crash that left that byte, and a reopening. -/
def sampleReopened : LogState :=
  (ofRecords [] [] (acknowledged sampleCrypto sampleLog [samplePut 107]),
    crash (final (appendStep sampleCrypto) sampleLog [samplePut 107]) sampleTorn)

lemma sample_stored : AllStored sampleCrypto sampleLog [samplePut 107] := ⟨⟨rfl, rfl⟩, trivial⟩

lemma sample_stored_again : AllStored sampleCrypto sampleReopened [samplePut 108] :=
  ⟨⟨rfl, rfl⟩, trivial⟩

lemma sample_loggable :
    ∀ r ∈ acknowledged sampleCrypto sampleLog [samplePut 107], r.Loggable [] := by
  decide +kernel

lemma sample_ledger : Ledger sampleCrypto []
    (final (appendStep sampleCrypto) sampleLog [samplePut 107]).2.file
    (acknowledged sampleCrypto sampleLog [samplePut 107]) := by
  have hready := Ready.run sampleLog_ready sample_stored sample_loggable
  exact hready.ledger

lemma sample_open : openLog sampleCrypto {} [] []
    (crash (final (appendStep sampleCrypto) sampleLog [samplePut 107]) sampleTorn) =
      (.ok sampleReopened.1, sampleReopened.2) := by
  refine sample_ledger.openLog rfl ⟨?_, fun _ => Or.inl ?_⟩ ?_ rfl rfl
  · exact Or.inl (by decide +kernel)
  · decide +kernel
  · exact (Ready.run (s := sampleLog) sampleLog_ready sample_stored sample_loggable).mark

/-- The torn byte and the length of the next frame together announce a body longer than what
is left of the file. -/
lemma sample_reads_as_torn : walFormat.readFrame (sampleTorn ++ walFormat.frames
    (payloads sampleCrypto sampleReopened [samplePut 108])) = .torn := by
  decide +kernel

/-- The second put is acknowledged, the ledger opens, and the put is gone. -/
theorem torn_byte_hides_acknowledged_record :
    AllStored sampleCrypto sampleLog [samplePut 107] ∧
      openLog sampleCrypto {} [] []
        (crash (final (appendStep sampleCrypto) sampleLog [samplePut 107]) sampleTorn) =
          (.ok sampleReopened.1, sampleReopened.2) ∧
      AllStored sampleCrypto sampleReopened [samplePut 108] ∧
      ∃ wal disk,
        openLog sampleCrypto {} [] []
          (final (appendStep sampleCrypto) sampleReopened [samplePut 108]).2 =
            (.ok wal, disk) ∧
        wal.readAll sampleCrypto disk =
          .ok (acknowledged sampleCrypto sampleLog [samplePut 107]) ∧
        acknowledged sampleCrypto sampleReopened [samplePut 108] ≠ [] := by
  refine ⟨sample_stored, sample_open, sample_stored_again, ?_⟩
  have hfile : (final (appendStep sampleCrypto) sampleReopened [samplePut 108]).2.file =
      (final (appendStep sampleCrypto) sampleLog [samplePut 107]).2.file ++ (sampleTorn ++
        walFormat.frames (payloads sampleCrypto sampleReopened [samplePut 108])) := by
    rw [file_final sample_stored_again, ← append_assoc]
    rfl
  have hmark : (final (appendStep sampleCrypto) sampleReopened [samplePut 108]).2.hwm =
      none := by
    decide +kernel
  have htail : TornTail [] (final (appendStep sampleCrypto) sampleLog [samplePut 107]).2.file
      (sampleTorn ++ walFormat.frames (payloads sampleCrypto sampleReopened [samplePut 108])) :=
    ⟨Or.inr sample_reads_as_torn, fun hnil => absurd (congrArg List.length hnil) (by decide +kernel)⟩
  obtain ⟨wal, disk, hopen, hread⟩ := open_and_read {} _ sample_ledger
    (show subkeyFor sampleCrypto [] = .ok [] from rfl) htail hfile (by rw [hmark]; rfl) ⟨rfl, rfl⟩
  exact ⟨wal, disk, hopen, hread, by decide +kernel⟩

/-- The equivalence at this input: a byte is torn and a put follows it. -/
theorem acknowledged_records_survive_iff_sample :
    ¬ RecordsSurvive sampleCrypto {} {} [] [] sampleLog [samplePut 107] sampleTorn
      [samplePut 108] := by
  have hfits : ∀ p ∈ payloads sampleCrypto sampleLog [samplePut 107], walFormat.Fits p := by
    decide +kernel
  have hfits' : ∀ p ∈ payloads sampleCrypto sampleReopened [samplePut 108],
      walFormat.Fits p := by
    decide +kernel
  have hiff := acknowledged_records_survive_iff sampleCrypto {} {} {} [] [] sampleTorn _
    sampleLog.1 sampleLog.2 [samplePut 107] [samplePut 108] (samplePut 108)
    ((ledger_nil sampleCrypto []).openLog rfl (tornTail_nil [] []) rfl rfl rfl) sample_stored rfl
    ( take_prefix 1 _) ⟨rfl, rfl⟩ ⟨rfl, rfl⟩
    ⟨Format.exposed_of_fits hfits _, fun _ p rest hp => ?_, trivial⟩
    (fun wal₁ disk₁ hopen => ?_)
  · rintro hsurvive
    rcases (hiff.mp hsurvive).2.2.1 with htorn | hnone
    · exact absurd htorn (by decide +kernel)
    · cases hnone
  · have hend : walFormat.readFrame (sampleTorn ++ walFormat.frames []) = .endOfFile := by
      decide +kernel
    rw [hend] at hp
    cases hp
  · rw [show (sampleLog.1, sampleLog.2) = sampleLog from rfl, sample_open] at hopen
    obtain ⟨hwal, rfl⟩ := Prod.mk.inj hopen
    obtain rfl := Except.ok.inj hwal
    refine ⟨sample_stored_again, Format.exposed_of_fits hfits _, fun _ p rest hp => ?_,
      Format.exposed_of_fits hfits' _⟩
    have hread := sample_reads_as_torn
    rw [show (sampleReopened.1, sampleReopened.2) = sampleReopened from rfl, hread] at hp
    cases hp

end DeSentry
