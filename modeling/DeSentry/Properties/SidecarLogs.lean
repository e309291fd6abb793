import DeSentry.Construction.Ledger.SidecarLog

/-!
# What is in a log beside the ledger

A log is *kept* if it consists of the frames of some records, each short enough to be read back,
followed by a part of one more frame at most (`Logged`).  Such a log opens, whatever the tail, and
an append keeps it if there is no tail (`Logged.append`, `Logged.tear`).  The two stores build their
invariants on it.
-/

namespace DeSentry

open ByteCodec RecordLog AtRest List

namespace SidecarLog

variable {c : Crypto} {cfg : Config} {body payload : Bytes}

/-! ## Payloads -/

/-- The subkey of a log. -/
def subkey (c : Crypto) (cfg : Config) : Bytes :=
  if cfg.dek = [] then [] else c.hkdfSha256 cfg.dek cfg.tag (text "desentry-at-rest-v1") kDekLen

/-- What sealing adds to a body. -/
def overhead (cfg : Config) : ℕ := if cfg.dek = [] then 0 else 32

/-- A key that `Open` does not refuse. -/
def Config.Valid (cfg : Config) : Prop := cfg.dek = [] ∨ cfg.dek.length = kDekLen

lemma subkey_eq_nil_iff : subkey c cfg = [] ↔ cfg.dek = [] := by
  unfold subkey
  split_ifs with h
  · exact iff_of_true rfl h
  · refine iff_of_false (fun hnil => ?_) h
    have hlen := c.length_hkdfSha256 cfg.dek cfg.tag (text "desentry-at-rest-v1") kDekLen
    rw [hnil] at hlen
    cases hlen

/-- The payload of a body. -/
def IsPayload (c : Crypto) (cfg : Config) (body payload : Bytes) : Prop :=
  ∃ nonce, sealBody c cfg nonce (subkey c cfg) body = .ok payload

lemma IsPayload.length (h : IsPayload c cfg body payload) :
    payload.length = body.length + overhead cfg := by
  obtain ⟨nonce, h⟩ := h
  unfold sealBody at h
  rw [overhead]
  split_ifs at h with hnil
  · rw [if_pos (subkey_eq_nil_iff.mp hnil), ← Except.ok.inj h, Nat.add_zero]
  · rw [if_neg (mt subkey_eq_nil_iff.mpr hnil)]
    exact length_sealRecord h

/-- The payload tells whether it is sealed. -/
lemma IsPayload.looksSealed (h : IsPayload c cfg body payload)
    (hbody : looksSealedRecord body = false) :
    looksSealedRecord payload = decide (cfg.dek ≠ []) := by
  obtain ⟨nonce, h⟩ := h
  unfold sealBody at h
  split_ifs at h with hnil
  · rw [← Except.ok.inj h, hbody, decide_eq_false (not_not.mpr (subkey_eq_nil_iff.mp hnil))]
  · rw [looksSealedRecord_seal h, decide_eq_true (mt subkey_eq_nil_iff.mpr hnil)]

/-- The body comes back. -/
lemma IsPayload.openBody (h : IsPayload c cfg body payload)
    (hbody : looksSealedRecord body = false) :
    openBody c cfg (subkey c cfg) payload = .ok body := by
  have hsealed := h.looksSealed hbody
  obtain ⟨nonce, h⟩ := h
  unfold sealBody at h
  unfold SidecarLog.openBody
  split_ifs at h with hnil
  · rw [if_neg (not_not.mpr hnil), ← Except.ok.inj h, hbody]
    rfl
  · rw [if_pos hnil, hsealed, decide_eq_true (mt subkey_eq_nil_iff.mpr hnil)]
    exact openRecord_seal h

lemma openSubkey_eq (hcfg : cfg.Valid) {env : OpenEnv} (hmade : env.made = true)
    {log : Option Bytes} (hmode : detectLogMode cfg (decide (cfg.dek ≠ [])) log = .ok ()) :
    openSubkey c cfg env log = .ok (subkey c cfg) := by
  have hdek : ¬ (cfg.dek ≠ [] ∧ cfg.dek.length ≠ kDekLen) := fun h =>
    hcfg.elim h.1 h.2
  rw [openSubkey, if_neg hdek, hmade, hmode, subkey]
  by_cases hnil : cfg.dek = []
  · simp [hnil]
  · have hlen : ¬ cfg.dek.length ≠ kDekLen := not_not.mpr (hcfg.resolve_left hnil)
    simp [hnil, fileSubkey, hlen]

lemma openSubkey_eq_ok {env : OpenEnv} {log : Option Bytes} {key : Bytes}
    (h : openSubkey c cfg env log = .ok key) : env.made = true := by
  cases hmade : env.made with
  | true => rfl
  | false =>
    rw [openSubkey, hmade, Bool.not_false, if_pos rfl] at h
    split_ifs at h

/-! ## Kept logs -/

/-- A payload that is read back. -/
structure Readable (c : Crypto) (cfg : Config) (body payload : Bytes) : Prop where
  isPayload : IsPayload c cfg body payload
  plain : looksSealedRecord body = false
  four_le : 4 ≤ body.length
  fits : format.Fits payload

/-- A body that starts with another magic number does not look sealed. -/
lemma plain_of_magic {magic : Bytes} (hlen : magic.length = 4)
    (hmagic : (magic == kSealedRecordMagic) = false) (hbody : ∃ rest, body = magic ++ rest) :
    looksSealedRecord body = false ∧ 4 ≤ body.length := by
  obtain ⟨rest, rfl⟩ := hbody
  rw [looksSealedRecord, take_left' hlen, length_append, hlen]
  exact ⟨hmagic, Nat.le_add_right 4 _⟩

lemma readable_of_short (h : IsPayload c cfg body payload)
    (hplain : looksSealedRecord body = false ∧ 4 ≤ body.length)
    (hshort : body.length + overhead cfg ≤ kRecordCap) : Readable c cfg body payload := by
  refine ⟨h, hplain.1, hplain.2, ?_, ?_⟩
  · rw [h.length]
    omega
  · rw [h.length]
    exact hshort

/-- The end of a log: nothing, or a part of a frame. -/
def Torn (c : Crypto) (cfg : Config) (tail : Bytes) : Prop :=
  tail = [] ∨ ∃ body payload, Readable c cfg body payload ∧ tail <+: format.frame payload ∧
    tail ≠ format.frame payload

/-- The log consists of records and a tail. -/
def Logged (c : Crypto) (cfg : Config) (bodies : List Bytes) (tail contents : Bytes) : Prop :=
  Torn c cfg tail ∧ ∃ payloads, List.Forall₂ (Readable c cfg) bodies payloads ∧
    contents = format.frames payloads ++ tail

variable {bodies : List Bytes} {tail contents : Bytes}

lemma logged_nil : Logged c cfg [] [] [] := ⟨Or.inl rfl, [], .nil, rfl⟩

lemma Torn.readFrame (h : Torn c cfg tail) :
    format.readFrame tail = .endOfFile ∨ format.readFrame tail = .torn := by
  rcases h with rfl | ⟨body, payload, hread, hprefix, hne⟩
  · exact Or.inl rfl
  · exact Format.readFrame_of_partial hread.fits hprefix hne

lemma forall_fits {payloads : List Bytes} (h : List.Forall₂ (Readable c cfg) bodies payloads) :
    ∀ p ∈ payloads, format.Fits p := by
  induction h with
  | nil => simp
  | cons hp _ ih => exact forall_mem_cons.mpr ⟨hp.fits, ih⟩

/-- The tail is what the reader leaves. -/
lemma Logged.split_snd (h : Logged c cfg bodies tail contents) :
    (format.split contents).2 = tail := by
  obtain ⟨htorn, payloads, hread, rfl⟩ := h
  rw [Format.split_frames (forall_fits hread), Format.split_of_not_payload]
  intro p rest hp
  rcases htorn.readFrame with h | h <;>
  · rw [h] at hp
    cases hp

/-- A record at the end of a log without a tail. -/
lemma Logged.append (h : Logged c cfg bodies [] contents) (hread : Readable c cfg body payload) :
    Logged c cfg (bodies ++ [body]) [] (contents ++ format.frame payload) := by
  obtain ⟨-, payloads, hall, rfl⟩ := h
  refine ⟨Or.inl rfl, payloads ++ [payload], rel_append hall (.cons hread .nil), ?_⟩
  rw [Format.frames_append, Format.frames_singleton, append_nil, append_nil]

/-- A part of a frame at the end of a log without a tail. -/
lemma Logged.tear (h : Logged c cfg bodies [] contents) (hread : Readable c cfg body payload)
    {k : ℕ} (hk : k < (format.frame payload).length) :
    Logged c cfg bodies ((format.frame payload).take k)
      (contents ++ (format.frame payload).take k) := by
  obtain ⟨-, payloads, hall, rfl⟩ := h
  refine ⟨Or.inr ⟨body, payload, hread, take_prefix _ _, fun he => ?_⟩, payloads, hall, ?_⟩
  · have hlen := congrArg List.length he
    rw [length_take] at hlen
    omega
  · rw [append_nil]

/-- The mode of a frame, also of a part of one. -/
lemma detectLogMode_of_prefix (hread : Readable c cfg body payload) (rest : Bytes) (n : ℕ) :
    detectLogMode cfg (decide (cfg.dek ≠ [])) (some ((format.frame payload ++ rest).take n)) =
      .ok () := by
  have hfour : 4 ≤ payload.length := by
    have := hread.four_le
    rw [hread.isPayload.length]
    omega
  have hmode := hread.isPayload.looksSealed hread.plain
  rw [detectLogMode]
  split_ifs with hshort
  · rfl
  have hn : 4 ≤ n := by
    rw [length_take] at hshort
    omega
  have hlength : leValue (((format.frame payload ++ rest).take n).take 4) = payload.length := by
    rw [take_take, Nat.min_eq_left hn]
    exact Format.leValue_length_field hread.fits
  have hrest : ((format.frame payload ++ rest).take n).drop 4 =
      (payload ++ (leBytes 4 (format.checksum payload).toNat ++ rest)).take (n - 4) := by
    rw [drop_take, Format.frame, append_assoc, drop_left' (length_leBytes ..),
      append_assoc]
  have hbound : ¬ (payload.length = 0 ∨ payload.length > kRecordCap) := by
    have hle : payload.length ≤ kRecordCap := hread.fits.2
    omega
  simp only [hlength, hrest, if_neg hbound]
  simp only [take_take]
  by_cases hhead : ((payload ++ (leBytes 4 (format.checksum payload).toNat ++ rest)).take
      (min (min payload.length 64) (n - 4))).length < min payload.length 64
  · rw [if_pos hhead]
  · -- The head is there in full, so it shows the mode of the payload.
    have hmin : min (min payload.length 64) (n - 4) = min payload.length 64 := by
      rw [length_take] at hhead
      omega
    have hfirst : (payload ++ (leBytes 4 (format.checksum payload).toNat ++ rest)).take
        (min payload.length 64) = payload.take (min payload.length 64) :=
      take_append_of_le_length (Nat.min_le_left _ _)
    have hsealed : looksSealedRecord (payload.take (min payload.length 64)) =
        decide (cfg.dek ≠ []) := by
      rw [← hmode, looksSealedRecord, looksSealedRecord, take_take,
        Nat.min_eq_left (by omega)]
    have hlen : 4 ≤ (payload.take (min payload.length 64)).length := by
      rw [length_take]
      omega
    simp only [hmin, hfirst, hsealed, decide_eq_true hlen, Bool.true_and]
    by_cases hdek : cfg.dek = [] <;> simp [hdek]

/-- **A kept log opens.** -/
lemma Logged.detectLogMode (h : Logged c cfg bodies tail contents) :
    detectLogMode cfg (decide (cfg.dek ≠ [])) (some contents) = .ok () := by
  obtain ⟨htorn, payloads, hall, rfl⟩ := h
  cases hall with
  | nil =>
    rcases htorn with rfl | ⟨body, payload, hread, hprefix, -⟩
    · rfl
    · have hmode := detectLogMode_of_prefix hread [] tail.length
      rw [append_nil] at hmode
      rwa [← prefix_iff_eq_take.mp hprefix] at hmode
  | cons hread hrest =>
    rename_i body payload bodies payloads
    have hmode := detectLogMode_of_prefix hread (format.frames payloads ++ tail)
      (format.frame payload ++ (format.frames payloads ++ tail)).length
    rw [take_length] at hmode
    rw [Format.frames, map_cons, flatten_cons, append_assoc]
    exact hmode

/-- A kept log opens. -/
lemma Logged.openSubkey {log : Option Bytes} (h : Logged c cfg bodies tail (log.getD []))
    (hcfg : cfg.Valid) {env : OpenEnv} (hmade : env.made = true) :
    openSubkey c cfg env log = .ok (subkey c cfg) := by
  refine openSubkey_eq hcfg hmade ?_
  cases log with
  | none => rfl
  | some contents => exact h.detectLogMode

/-! ## Appending -/

section Append

variable {R : Type} {record : R} {frame : Bytes} {step : Step R} {steps : List (Step R)}
  {crash : Option (ℕ × ℕ)} {files : Files} {bodyOf : R → Bytes}

lemma exec_nil (s : Recorded R) : s.exec [] = s := by
  rw [Recorded.exec, filterMap_nil, append_nil, foldl_nil]

/-- The frame of a record, or a part of it. -/
def Partial (record : R) (frame : Bytes) (step : Step R) : Prop :=
  step = .append record frame ∨ ∃ k < frame.length, step = .tear (frame.take k)

lemma Partial.cut (h : Partial record frame step) (k : ℕ) : Partial record frame (step.cut k) := by
  rcases h with rfl | ⟨j, hj, rfl⟩
  · by_cases hk : frame.length ≤ k
    · exact Or.inl (if_pos hk)
    · exact Or.inr ⟨k, Nat.not_le.mp hk, if_neg hk⟩
  · refine Or.inr ⟨min k j, (Nat.min_le_right k j).trans_lt hj, ?_⟩
    rw [Step.cut, take_take]

lemma executed_nil (crash : Option (ℕ × ℕ)) : executed ([] : List (Step R)) crash = [] := by
  cases crash with
  | none => rfl
  | some at_ => simp [executed, interrupted]

/-- A crash leaves the frame, or a part of it. -/
lemma Partial.executed (h : Partial record frame step) (crash : Option (ℕ × ℕ)) :
    ∃ step', RecordLog.executed [step] crash = [step'] ∧ Partial record frame step' := by
  rcases crash with _ | ⟨n, k⟩
  · exact ⟨step, rfl, h⟩
  · cases n with
    | zero => exact ⟨step.cut k, rfl, h.cut k⟩
    | succ n => exact ⟨step, by simp [RecordLog.executed, interrupted], h⟩

/-- What `AppendRecord` does. -/
lemma appendRecord_cases (c : Crypto) (cfg : Config) (env : AppendEnv) (isOpen : Bool) (record : R) (body : Bytes) :
    ((appendRecord c cfg env (subkey c cfg) isOpen record body).2 = [] ∧
      (appendRecord c cfg env (subkey c cfg) isOpen record body).1 ≠ .ok ()) ∨
    isOpen = true ∧ ∃ payload, IsPayload c cfg body payload ∧
      (appendRecord c cfg env (subkey c cfg) isOpen record body).2 =
        [match env.reached with
          | none => .append record (format.frame payload)
          | some k => (Step.append record (format.frame payload)).cut k] ∧
      ((appendRecord c cfg env (subkey c cfg) isOpen record body).1 = .ok () ↔
        env.writeGood = true) := by
  unfold appendRecord
  cases hseal : sealBody c cfg env.nonce (subkey c cfg) body with
  | error st => exact Or.inl ⟨rfl, nofun⟩
  | ok payload =>
    cases isOpen with
    | false => exact Or.inl ⟨rfl, nofun⟩
    | true =>
      refine Or.inr ⟨rfl, payload, ⟨_, hseal⟩, rfl, ?_⟩
      cases env.writeGood
      · exact iff_of_false nofun nofun
      · exact iff_of_true rfl rfl

lemma partial_reached (reached : Option ℕ) (record : R) (frame : Bytes) :
    Partial record frame (match reached with
      | none => .append record frame
      | some k => (Step.append record frame).cut k) := by
  cases reached with
  | none => exact Or.inl rfl
  | some k => exact Partial.cut (Or.inl rfl) k

/-- The log after a step that appends. -/
lemma log_apply_partial (h : Partial record frame step) (hlog : files .log = some contents) :
    step.apply files .log = some (contents ++ step.bytes) := by
  have happend : ∀ bytes : Bytes, Function.update files .log
      ((files .log).map (· ++ bytes)) .log = some (contents ++ bytes) := fun bytes => by
    rw [hlog]
    rfl
  rcases h with rfl | ⟨k, -, rfl⟩ <;> exact happend _

/-- Complete records, and perhaps a part of one at the end. -/
inductive Appends (c : Crypto) (cfg : Config) (body : R → Bytes) : List (Step R) → Prop
  | nil : Appends c cfg body []
  | torn {r : R} {payload : Bytes} {k : ℕ} (hread : Readable c cfg (body r) payload)
      (hk : k < (format.frame payload).length) :
      Appends c cfg body [.tear ((format.frame payload).take k)]
  | append {r : R} {payload : Bytes} {steps : List (Step R)}
      (hread : Readable c cfg (body r) payload) (h : Appends c cfg body steps) :
      Appends c cfg body (.append r (format.frame payload) :: steps)

lemma appends_of_partial (hread : Readable c cfg (bodyOf record) payload)
    (h : Partial record (format.frame payload) step) : Appends c cfg bodyOf [step] := by
  rcases h with rfl | ⟨k, hk, rfl⟩
  · exact .append hread .nil
  · exact .torn hread hk

lemma Appends.not_mem_file (h : Appends c cfg bodyOf steps) (f : FileSteps.Step LogFile Bytes) :
    .file f ∉ steps := by
  induction h with
  | nil => exact not_mem_nil
  | torn _ _ => exact fun hmem => nomatch mem_singleton.mp hmem
  | append _ _ ih => exact fun hmem => (mem_cons.mp hmem).elim nofun ih

/-- A crash leaves complete records, and perhaps a part of one at the end. -/
lemma Appends.interrupted (h : Appends c cfg bodyOf steps) (n k : ℕ) :
    Appends c cfg bodyOf (RecordLog.interrupted steps n k) := by
  induction h generalizing n with
  | nil =>
    change Appends c cfg bodyOf (executed [] (some (n, k)))
    rw [executed_nil]
    exact .nil
  | @torn r payload j hread hj =>
    have htorn : Partial r (format.frame payload) (.tear ((format.frame payload).take j)) :=
      Or.inr ⟨j, hj, rfl⟩
    obtain ⟨step, hstep, hpartial⟩ := htorn.executed (some (n, k))
    change Appends c cfg bodyOf (executed _ (some (n, k)))
    rw [hstep]
    exact appends_of_partial hread hpartial
  | append hread _ ih =>
    cases n with
    | zero => exact appends_of_partial hread (Partial.cut (Or.inl rfl) k)
    | succ n => exact .append hread (ih n)

/-- A crash writes no other records. -/
lemma mem_of_mem_executed_record (h : record ∈ (executed steps crash).filterMap Step.record) :
    record ∈ steps.filterMap Step.record := by
  rcases crash with _ | ⟨n, k⟩
  · exact h
  rw [executed, interrupted, filterMap_append, mem_append] at h
  rcases h with h | h
  · exact ((take_sublist n steps).filterMap _).subset h
  · obtain ⟨cut, hcut, hrecord⟩ := mem_filterMap.mp h
    rw [Option.mem_toList, Option.map_eq_some_iff] at hcut
    obtain ⟨step, hstep, rfl⟩ := hcut
    refine mem_filterMap.mpr ⟨step, mem_of_mem_drop (mem_of_head? hstep), ?_⟩
    cases step with
    | append r frame =>
      rw [Step.cut] at hrecord
      split_ifs at hrecord
      · exact hrecord
      · cases hrecord
    | tear bytes => cases hrecord
    | file f => cases hrecord

/-- The log after some appends. -/
lemma Appends.log (h : Appends c cfg bodyOf steps) (hlog : files .log = some contents) :
    steps.foldl Step.apply files .log = some (contents ++ steps.flatMap Step.bytes) := by
  induction h generalizing files contents with
  | nil => rw [flatMap_nil, append_nil, ← hlog, foldl_nil]
  | @torn r payload k hread hk =>
    have htorn : Partial r (format.frame payload) (.tear ((format.frame payload).take k)) :=
      Or.inr ⟨k, hk, rfl⟩
    rw [flatMap_singleton]
    exact log_apply_partial htorn hlog
  | append hread _ ih =>
    rw [flatMap_cons, ← append_assoc]
    exact ih ( log_apply_partial (Or.inl rfl) hlog)

/-- **Appends behind whole records** leave whole records and a tail. -/
lemma Logged.appends {records : List R} (h : Logged c cfg (records.map bodyOf) [] contents)
    (hsteps : Appends c cfg bodyOf steps) :
    ∃ tail, Logged c cfg ((records ++ steps.filterMap Step.record).map bodyOf) tail
      (contents ++ steps.flatMap Step.bytes) := by
  induction hsteps generalizing records contents with
  | nil =>
    refine ⟨[], ?_⟩
    rwa [filterMap_nil, append_nil, flatMap_nil, append_nil]
  | @torn r payload k hread hk =>
    refine ⟨(format.frame payload).take k, ?_⟩
    rw [flatMap_singleton, show [Step.tear ((format.frame payload).take k)].filterMap
      (Step.record) = [] from rfl, append_nil]
    exact h.tear hread hk
  | append hread _ ih =>
    have hone := h.append hread
    rw [← map_singleton, ← map_append] at hone
    obtain ⟨tail, hrest⟩ := ih hone
    refine ⟨tail, ?_⟩
    rwa [append_assoc, append_assoc] at hrest

/-- What `AppendRecord` does with a record that is short enough.  If the stream tells whether the
frame has reached the file, then the answer tells whether the record is written. -/
lemma appendRecord_spec (bodyOf : R → Bytes) (record : R)
    (hplain : looksSealedRecord (bodyOf record) = false ∧ 4 ≤ (bodyOf record).length)
    (hshort : (bodyOf record).length + overhead cfg ≤ kRecordCap) (env : AppendEnv)
    (isOpen : Bool) {answer : Except Status Unit}
    (heq : appendRecord c cfg env (subkey c cfg) isOpen record (bodyOf record) = (answer, steps)) :
    Appends c cfg bodyOf steps ∧ (steps ≠ [] → isOpen = true) ∧
      (∀ crash, ∀ r ∈ (executed steps crash).filterMap Step.record, r = record) ∧
      ((if env.writeGood then env.reached = none
          else ∃ k < (bodyOf record).length + overhead cfg + 8, env.reached = some k) →
        (answer = .ok () → ∃ payload, Readable c cfg (bodyOf record) payload ∧
          steps = [.append record (format.frame payload)]) ∧
        (answer ≠ .ok () → steps.filterMap Step.record = [])) := by
  have hcases := appendRecord_cases c cfg env isOpen record (bodyOf record)
  rw [heq] at hcases
  rcases hcases with ⟨hnil, hanswer⟩ | ⟨hisOpen, payload, hpayload, hsteps, hanswer⟩
  · obtain rfl : steps = [] := hnil
    refine ⟨.nil, absurd rfl, fun crash => ?_, fun _ => ⟨fun h => absurd h hanswer, fun _ => rfl⟩⟩
    rw [executed_nil]
    simp
  · have hread := readable_of_short hpayload hplain hshort
    obtain rfl : steps = _ := hsteps
    have hpartial := partial_reached env.reached record (format.frame payload)
    refine ⟨ appends_of_partial hread hpartial, fun _ => hisOpen, fun crash r hr => ?_,
      fun htruth => ?_⟩
    · obtain ⟨step, hstep, hstepPartial⟩ := hpartial.executed crash
      rw [hstep] at hr
      rcases hstepPartial with rfl | ⟨k, -, rfl⟩
      · exact mem_singleton.mp hr
      · cases hr
    cases hgood : env.writeGood with
    | true =>
      rw [hgood] at htruth
      rw [htruth]
      exact ⟨fun _ => ⟨payload, hread, rfl⟩, fun hne => absurd (hanswer.mpr hgood) hne⟩
    | false =>
      rw [hgood] at htruth
      obtain ⟨k, hk, hreached⟩ := htruth
      have hcut : (Step.append record (format.frame payload)).cut k =
          .tear ((format.frame payload).take k) := by
        refine if_neg ?_
        rw [Format.length_frame, hpayload.length]
        exact Nat.not_le.mpr hk
      rw [hreached]
      dsimp only
      rw [hcut]
      refine ⟨fun hok => ?_, fun _ => rfl⟩
      have hbad := hanswer.mp hok
      rw [hgood] at hbad
      cases hbad

end Append

/-! ## Compaction -/

section Compact

variable {R : Type} {appends comp steps more : List (Step R)} {crash : Option (ℕ × ℕ)} {n k : ℕ}
  {f : FileSteps.Step LogFile Bytes}

/-- The steps that put a new log in the place of the old one. -/
abbrev commitSteps (contents : Bytes) : List (Step R) :=
  (FileSteps.replace LogFile.sibling LogFile.log contents).map .file

lemma exists_file_of_mem_commitSteps {step : Step R} (h : step ∈ commitSteps contents) :
    ∃ f, step = .file f := by
  obtain ⟨f, -, rfl⟩ := mem_map.mp h
  exact ⟨f, rfl⟩

/-- What `CompactLocked` does: nothing to the log, or it removes the log and may put the rows in its
place.  The stream is open afterwards if nothing was done, or all. -/
lemma compactLocked_cases (c : Crypto) (cfg : Config) (R : Type) (env : CompactEnv) (key : Bytes) (isOpen : Bool) (bodies : List Bytes) :
    (compactLocked c cfg env key isOpen bodies).2 = (([] : List (Step R)), isOpen) ∨
    ∃ payloads, sealBodies c cfg env.nonce key 0 bodies = .ok payloads ∧
      ((compactLocked c cfg env key isOpen bodies).2 =
          ((commitSteps (R := R) (format.frames payloads)).take 2, false) ∨
        ∃ isOpen', (compactLocked c cfg env key isOpen bodies).2 =
          (commitSteps (R := R) (format.frames payloads), isOpen')) := by
  unfold compactLocked
  cases env.created with
  | false => exact Or.inl rfl
  | true =>
    cases sealBodies c cfg env.nonce key 0 bodies with
    | error st => exact Or.inl rfl
    | ok payloads =>
      cases env.written with
      | false => exact Or.inl rfl
      | true =>
        refine Or.inr ⟨payloads, rfl, ?_⟩
        cases env.renamed with
        | false => exact Or.inl rfl
        | true =>
          cases env.reopened with
          | false => exact Or.inr ⟨false, rfl⟩
          | true => exact Or.inr ⟨true, rfl⟩

lemma forall₂_isPayload {nonce : ℕ → Except Bytes Nonce} {i : ℕ} {payloads : List Bytes}
    (h : sealBodies c cfg nonce (subkey c cfg) i bodies = .ok payloads) :
    List.Forall₂ (IsPayload c cfg) bodies payloads := by
  induction bodies generalizing i payloads with
  | nil =>
    obtain rfl := Except.ok.inj h
    exact .nil
  | cons body bodies ih =>
    rw [sealBodies] at h
    cases hseal : sealBody c cfg (nonce i) (subkey c cfg) body with
    | error st =>
      rw [hseal] at h
      cases h
    | ok payload =>
      rw [hseal] at h
      cases hrest : sealBodies c cfg nonce (subkey c cfg) (i + 1) bodies with
      | error st =>
        rw [hrest] at h
        cases h
      | ok rest =>
        rw [hrest] at h
        obtain rfl := Except.ok.inj h
        exact .cons ⟨_, hseal⟩ (ih hrest)

/-- A step that is cut is no step on files. -/
lemma file_mem_interrupted (h : .file f ∈ interrupted steps n k) : .file f ∈ steps.take n := by
  rcases mem_append.mp h with h | h
  · exact h
  · rw [Option.mem_toList, Option.map_eq_some_iff] at h
    obtain ⟨step, -, hcut⟩ := h
    cases step with
    | append r frame =>
      rw [Step.cut] at hcut
      split_ifs at hcut
    | tear bytes => cases hcut
    | file g => cases hcut

lemma mem_of_mem_executed_file (h : .file f ∈ executed steps crash) : .file f ∈ steps := by
  rcases crash with _ | ⟨n, k⟩
  · exact h
  · exact mem_of_mem_take (file_mem_interrupted h)

lemma interrupted_append (h : steps.length ≤ n) :
    interrupted (steps ++ more) n k = steps ++ interrupted more (n - steps.length) k := by
  rw [interrupted, interrupted, take_append, drop_append, take_of_length_le h,
    drop_of_length_le h, nil_append, append_assoc]

/-- What happens of a compaction that has removed the log. -/
lemma interrupted_commit
    (hcomp : comp = (commitSteps contents).take 2 ∨ comp = commitSteps contents)
    (h : .file (.remove .log) ∈ comp.take n) :
    interrupted comp n k = (commitSteps contents).take 2 ∨
      interrupted comp n k = (commitSteps contents).take 2 ++ [.tear []] ∨
      interrupted comp n k = commitSteps contents := by
  rcases hcomp with rfl | rfl
  · rcases n with _ | _ | n
    · exact absurd h not_mem_nil
    · cases mem_singleton.mp h
    · exact Or.inl (by simp [interrupted, FileSteps.replace])
  · rcases n with _ | _ | _ | n
    · exact absurd h not_mem_nil
    · cases mem_singleton.mp h
    · exact Or.inr (Or.inl rfl)
    · exact Or.inr (Or.inr (by simp [interrupted, FileSteps.replace]))

/-- What happens of some appends and a compaction, if the log is removed: all appends, and the
compaction at least that far. -/
lemma executed_removed (happends : ∀ f, .file f ∉ appends)
    (hcomp : comp = (commitSteps contents).take 2 ∨ comp = commitSteps contents)
    (h : .file (.remove .log) ∈ executed (appends ++ comp) crash) :
    ∃ done, executed (appends ++ comp) crash = appends ++ done ∧
      (done = (commitSteps contents).take 2 ∨ done = (commitSteps contents).take 2 ++ [.tear []] ∨
        done = commitSteps contents) := by
  rcases crash with _ | ⟨n, k⟩
  · exact ⟨comp, rfl, hcomp.imp_right Or.inr⟩
  · have htake := file_mem_interrupted h
    rw [take_append, mem_append] at htake
    have hmem : .file (.remove .log) ∈ comp.take (n - appends.length) :=
      htake.resolve_left fun hmem => happends _ (mem_of_mem_take hmem)
    have hlen : appends.length ≤ n := by
      by_contra hlt
      rw [Nat.sub_eq_zero_of_le (by omega)] at hmem
      exact not_mem_nil hmem
    exact ⟨_, interrupted_append hlen, interrupted_commit hcomp hmem⟩

/-- What happens of some appends and a compaction, if the new log is there: everything. -/
lemma executed_renamed (happends : ∀ f, .file f ∉ appends)
    (hcomp : comp = (commitSteps contents).take 2 ∨ comp = commitSteps contents)
    (h : .file (.rename .sibling .log) ∈ executed (appends ++ comp) crash) :
    executed (appends ++ comp) crash = appends ++ commitSteps contents := by
  have hfull : comp = commitSteps contents := by
    rcases hcomp with rfl | rfl
    · rcases mem_append.mp (mem_of_mem_executed_file h) with hmem | hmem
      · exact absurd hmem (happends _)
      · simp [commitSteps, FileSteps.replace] at hmem
    · rfl
  subst hfull
  rcases crash with _ | ⟨n, k⟩
  · rfl
  · have htake := file_mem_interrupted h
    rw [take_append, mem_append] at htake
    have hmem := htake.resolve_left fun hmem => happends _ (mem_of_mem_take hmem)
    have hlong : appends.length + 3 ≤ n := by
      by_contra hlt
      have hsub : n - appends.length ≤ 2 := by omega
      have hmem := (take_prefix_take_left hsub).subset hmem
      simp [commitSteps, FileSteps.replace] at hmem
    rw [executed, interrupted, take_of_length_le, drop_of_length_le]
    · exact append_nil _
    · simpa [commitSteps, FileSteps.replace] using hlong
    · simpa [commitSteps, FileSteps.replace] using hlong

/-- Steps that leave the log as it is. -/
def Quiet (steps : List (Step R)) : Prop :=
  steps.filterMap Step.record = [] ∧ ∀ files : Files, steps.foldl Step.apply files .log = files .log

lemma quiet_nil : Quiet ([] : List (Step R)) := ⟨rfl, fun _ => rfl⟩

lemma Quiet.append (h : Quiet steps) (hmore : Quiet more) : Quiet (steps ++ more) := by
  refine ⟨?_, fun files => ?_⟩
  · rw [filterMap_append, h.1, hmore.1, append_nil]
  · rw [foldl_append, hmore.2, h.2]

lemma quiet_tear : Quiet [(Step.tear [] : Step R)] := by
  refine ⟨rfl, fun files => ?_⟩
  change Function.update files .log ((files .log).map (· ++ [])) .log = _
  cases files .log with
  | none => rfl
  | some bytes => exact congrArg some (append_nil bytes)

lemma quiet_write (contents : Bytes) :
    Quiet [(Step.file (.write .sibling contents) : Step R)] := ⟨rfl, fun _ => rfl⟩

/-- What happens of a compaction that has not removed the log. -/
lemma quiet_interrupted
    (hcomp : comp = (commitSteps contents).take 2 ∨ comp = commitSteps contents)
    (h : .file (.remove .log) ∉ comp.take n) : Quiet (interrupted comp n k) := by
  match n with
  | 0 => rcases hcomp with rfl | rfl <;> exact quiet_tear
  | 1 => rcases hcomp with rfl | rfl <;> exact (quiet_write contents).append quiet_tear
  | n + 2 => rcases hcomp with rfl | rfl <;> simp [commitSteps, FileSteps.replace] at h

/-- What happens of some appends and a compaction, if the log is not removed: some of the appends,
and nothing to the log after that. -/
lemma executed_not_removed
    (hcomp : comp = [] ∨ ∃ contents, comp = (commitSteps contents).take 2 ∨
      comp = commitSteps contents)
    (h : .file (.remove .log) ∉ executed (appends ++ comp) crash) :
    ∃ (crash' : Option (ℕ × ℕ)) (quiet : List (Step R)),
      executed (appends ++ comp) crash = executed appends crash' ++ quiet ∧ Quiet quiet ∧
        (crash = none → crash' = none) := by
  rcases hcomp with rfl | ⟨contents, hcomp⟩
  · refine ⟨crash, [], ?_, quiet_nil, id⟩
    rw [append_nil, append_nil]
  rcases crash with _ | ⟨n, k⟩
  · refine absurd (mem_append_right _ ?_) h
    rcases hcomp with rfl | rfl <;> simp [commitSteps, FileSteps.replace]
  by_cases hlen : appends.length ≤ n
  · rw [executed, interrupted_append hlen, mem_append, not_or] at h
    refine ⟨none, interrupted comp (n - appends.length) k, interrupted_append hlen, ?_, by rintro ⟨⟩⟩
    exact quiet_interrupted hcomp fun hmem => h.2 (mem_append_left _ hmem)
  · refine ⟨some (n, k), [], ?_, quiet_nil, by rintro ⟨⟩⟩
    have hlt : n < appends.length := Nat.not_le.mp hlen
    rw [append_nil, executed, executed, interrupted, interrupted,
      take_append_of_le_length hlt.le, drop_append_of_le_length hlt.le,
      head?_append_of_ne_nil _ (drop_eq_nil_iff.not.mpr hlen)]

/-- The log after a compaction that has removed it: gone, or the new rows. -/
lemma log_commit (R : Type) (files : Files) (contents : Bytes) :
    ((commitSteps (R := R) contents).take 2).foldl Step.apply files .log = none ∧
      ((commitSteps (R := R) contents).take 2 ++ [Step.tear []]).foldl Step.apply files .log = none ∧
      (commitSteps (R := R) contents).foldl Step.apply files .log = some contents :=
  ⟨rfl, rfl, rfl⟩

end Compact

end SidecarLog

end DeSentry
