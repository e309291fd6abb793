import DeSentry.Framework.FileSteps
import DeSentry.Framework.FrameLog

/-!
# Logs of records that are rewritten now and then

A log is a file of frames: the length of a payload, the payload, and its checksum.  A reader takes
the frames off one after the other and stops at the first place where there is none (`split`).
What each payload does to the reader's state is up to a client; `Carries` says that a payload does
what a record means, and `load_carries` that reading a log of such payloads amounts to the meaning
of the records, whatever unreadable bytes follow them.

A writer changes the log in steps: it appends a frame, or it puts a new file in the place of the
log.  A crash cuts a list of steps off at any byte (`interrupted`).  `Recorded` keeps the files
together with the records that have been written completely.
-/

namespace RecordLog

open ByteCodec FrameLog List

/-- The parameters of a frame format. -/
structure Format where
  checksum : Bytes → UInt32
  /-- The longest payload a reader considers. -/
  cap : ℕ
  cap_lt : cap < 2 ^ 32

namespace Format

variable (F : Format)

/-- A payload as it stands in the file. -/
def frame (p : Bytes) : Bytes := leBytes 4 p.length ++ (p ++ leBytes 4 (F.checksum p).toNat)

/-- A payload whose frame a reader considers. -/
def Fits (p : Bytes) : Prop := 0 < p.length ∧ p.length ≤ F.cap

instance (p : Bytes) : Decidable (F.Fits p) := inferInstanceAs (Decidable (_ ∧ _))

/-- Read one frame. -/
def readFrame (bytes : Bytes) : FrameRead :=
  if bytes.length < 4 then .endOfFile
  else
    let n := leValue (bytes.take 4)
    let rest := bytes.drop 4
    if n = 0 ∨ n > F.cap then .badLength
    else if rest.length < n + 4 then .torn
    else
      let p := rest.take n
      if leValue ((rest.drop n).take 4) ≠ (F.checksum p).toNat then .badChecksum
      else .payload p (rest.drop (n + 4))

/-- The loop of `split`; the fuel is the number of frames that are looked for. -/
def splitFrom : ℕ → Bytes → List Bytes × Bytes
  | 0, bytes => ([], bytes)
  | n + 1, bytes =>
    match F.readFrame bytes with
    | .payload p rest => (p :: (splitFrom n rest).1, (splitFrom n rest).2)
    | _ => ([], bytes)

/-- The payloads of a file, up to the first place where there is no frame, and what is there. -/
def split (bytes : Bytes) : List Bytes × Bytes := F.splitFrom bytes.length bytes

/-- The frames of a list of payloads. -/
def frames (ps : List Bytes) : Bytes := (ps.map F.frame).flatten

/-! ## One frame -/

section Frame

variable {F} {p : Bytes}

@[simp] lemma length_frame (p : Bytes) : (F.frame p).length = p.length + 8 := by
  simp only [frame, length_append, length_leBytes]
  omega

/-- The length field of a payload that fits is exact. -/
lemma leValue_length_field (h : F.Fits p) : leValue (leBytes 4 p.length) = p.length := by
  have hcap := F.cap_lt
  have hle := h.2
  rw [leValue_leBytes]
  exact Nat.mod_eq_of_lt (by omega)

/-- **Reading back a frame.** -/
lemma readFrame_frame (h : F.Fits p) (rest : Bytes) :
    F.readFrame (F.frame p ++ rest) = .payload p rest := by
  have hbound : ¬ (p.length = 0 ∨ p.length > F.cap) := by
    have := h.1
    have := h.2
    omega
  obtain ⟨hwhole, hrest⟩ := body_whole (F.checksum p).toNat p rest
  rw [frame, append_assoc, append_assoc]
  simp only [readFrame, if_neg (field_not_short _ _), take_field, drop_field,
    leValue_length_field h, if_neg hbound, if_neg hwhole, take_left, drop_left,
    leValue_checksum, ne_eq, not_true_eq_false, if_false, hrest]

/-- A file that ends inside a frame reads as ended there. -/
lemma readFrame_of_partial {t : Bytes} (h : F.Fits p) (ht : t <+: F.frame p)
    (hne : t ≠ F.frame p) : F.readFrame t = .endOfFile ∨ F.readFrame t = .torn := by
  rw [readFrame]
  by_cases hfour : t.length < 4
  · exact Or.inl (if_pos hfour)
  · right
    obtain ⟨htake, hshort⟩ := partial_field ht hne hfour
    rw [length_append, length_leBytes] at hshort
    have hbound : ¬ (p.length = 0 ∨ p.length > F.cap) := by
      have := h.1
      have := h.2
      omega
    simp only [if_neg hfour, htake, leValue_length_field h, if_neg hbound, if_pos hshort]

/-- A frame takes at least one byte off the file. -/
lemma length_rest_lt {bytes rest : Bytes} (h : F.readFrame bytes = .payload p rest) :
    rest.length < bytes.length := by
  rw [readFrame] at h
  simp only at h
  split_ifs at h
  simp only [FrameRead.payload.injEq] at h
  rw [← h.2, length_drop, length_drop]
  omega

end Frame

/-! ## The whole file -/

section Split

variable {F}

/-- More fuel than there are bytes changes nothing. -/
lemma splitFrom_of_le {n : ℕ} {bytes : Bytes} (h : bytes.length ≤ n) :
    F.splitFrom n bytes = F.split bytes := by
  suffices hm : ∀ m n (bytes : Bytes), bytes.length ≤ m → bytes.length ≤ n →
      F.splitFrom n bytes = F.splitFrom m bytes from hm _ _ _ le_rfl h
  intro m
  induction m with
  | zero =>
    intro n bytes hm _
    have hfour : bytes.length < 4 := by omega
    cases n with
    | zero => rfl
    | succ n => simp only [splitFrom, readFrame, if_pos hfour]
  | succ m ih =>
    intro n bytes hm hn
    cases n with
    | zero =>
      have hfour : bytes.length < 4 := by omega
      simp only [splitFrom, readFrame, if_pos hfour]
    | succ n =>
      rw [splitFrom, splitFrom]
      cases hr : F.readFrame bytes with
      | payload p rest =>
        have hlt := length_rest_lt hr
        simp only [ih n rest (by omega) (by omega)]
      | _ => rfl

/-- Where there is no frame, there is no payload. -/
lemma split_of_not_payload {bytes : Bytes} (h : ∀ p rest, F.readFrame bytes ≠ .payload p rest) :
    F.split bytes = ([], bytes) := by
  rw [← splitFrom_of_le (Nat.le_succ bytes.length), splitFrom]
  cases hr : F.readFrame bytes with
  | payload p rest => exact absurd hr (h p rest)
  | _ => rfl

lemma split_frame {p : Bytes} (h : F.Fits p) (rest : Bytes) :
    F.split (F.frame p ++ rest) = (p :: (F.split rest).1, (F.split rest).2) := by
  have hle : rest.length ≤ (F.frame p ++ rest).length := by simp
  rw [← splitFrom_of_le (Nat.le_succ _), splitFrom, readFrame_frame h]
  simp only [splitFrom_of_le hle]

/-- **The payloads of a well-formed file**, whatever follows. -/
lemma split_frames {ps : List Bytes} (hp : ∀ p ∈ ps, F.Fits p) (rest : Bytes) :
    F.split (F.frames ps ++ rest) = (ps ++ (F.split rest).1, (F.split rest).2) := by
  induction ps with
  | nil => rfl
  | cons p ps ih =>
    rw [forall_mem_cons] at hp
    rw [frames, map_cons, flatten_cons, append_assoc, split_frame hp.1,
      ← frames, ih hp.2]
    rfl

lemma frames_append (ps qs : List Bytes) : F.frames (ps ++ qs) = F.frames ps ++ F.frames qs := by
  simp [frames]

@[simp] lemma frames_singleton (p : Bytes) : F.frames [p] = F.frame p := by
  simp [frames]

end Split

/-! ## Loading -/

section Load

variable {σ V R : Type*}

/-- The client takes the payloads one after the other, until it refuses one. -/
def judgeAll (judge : σ → Bytes → Verdict σ) : σ → List Bytes → σ × Option Stop
  | s, [] => (s, none)
  | s, p :: ps =>
    match judge s p with
    | .accept s' => judgeAll judge s' ps
    | .reject => (s, some .corrupt)
    | .throw => (s, some .thrown)

/-- Why there is no frame. -/
def stopAt (bytes : Bytes) : Stop :=
  match F.readFrame bytes with
  | .badLength => .corrupt
  | .badChecksum => .corrupt
  | _ => .clean

/-- Read a file. -/
def load (judge : σ → Bytes → Verdict σ) (s : σ) (bytes : Bytes) : σ × Stop :=
  match judgeAll judge s (F.split bytes).1 with
  | (s, some stop) => (s, stop)
  | (s, none) => (s, F.stopAt (F.split bytes).2)

/-- The payload does to what is seen of the state what the record means. -/
def Carries (judge : σ → Bytes → Verdict σ) (view : σ → V) (meaning : V → R → V) (p : Bytes)
    (r : R) : Prop :=
  ∀ s, ∃ s', judge s p = .accept s' ∧ view s' = meaning (view s) r

variable {F} {judge : σ → Bytes → Verdict σ} {view : σ → V} {meaning : V → R → V} {ps : List Bytes}
  {rs : List R}

lemma judgeAll_carries (h : List.Forall₂ (Carries judge view meaning) ps rs) (s : σ) :
    ∃ s', judgeAll judge s ps = (s', none) ∧ view s' = rs.foldl meaning (view s) := by
  induction h generalizing s with
  | nil => exact ⟨s, rfl, rfl⟩
  | cons hp _ ih =>
    obtain ⟨s₁, hjudge, hview⟩ := hp s
    obtain ⟨s', hrest, hfold⟩ := ih s₁
    refine ⟨s', ?_, ?_⟩
    · rw [judgeAll, hjudge]
      exact hrest
    · rw [hfold, hview, foldl_cons]

/-- **Loading a log of records** gives what they mean, one after the other. -/
lemma load_carries {tail : Bytes} (hfits : ∀ p ∈ ps, F.Fits p)
    (hcarries : List.Forall₂ (Carries judge view meaning) ps rs)
    (htail : F.readFrame tail = .endOfFile ∨ F.readFrame tail = .torn) (s : σ) :
    ∃ s', F.load judge s (F.frames ps ++ tail) = (s', .clean) ∧
      view s' = rs.foldl meaning (view s) := by
  obtain ⟨s', hall, hview⟩ := judgeAll_carries hcarries s
  have hstop : F.stopAt tail = .clean := by
    rw [stopAt]
    rcases htail with h | h <;> rw [h]
  have hsplit : F.split tail = ([], tail) := by
    refine split_of_not_payload fun q rest hq => ?_
    rcases htail with h | h <;>
    · rw [h] at hq
      cases hq
  refine ⟨s', ?_, hview⟩
  rw [load, split_frames hfits, hsplit, append_nil, hall]
  simp only [hstop]

end Load

end Format

/-! ## Steps and crashes -/

/-- The log, and the file that takes its place when it is rewritten. -/
inductive LogFile where
  | log
  | sibling
  deriving DecidableEq, Repr

/-- The files of a log. -/
abbrev Files := LogFile → Option Bytes

/-- One step of a writer. -/
inductive Step (R : Type*) where
  /-- The frame of a record goes to the end of the log. -/
  | append (record : R) (frame : Bytes)
  /-- A part of a frame goes to the end of the log. -/
  | tear (bytes : Bytes)
  | file (step : FileSteps.Step LogFile Bytes)

namespace Step

variable {R : Type*}

/-- The bytes that go to the end of the log. -/
def bytes : Step R → Bytes
  | .append _ frame => frame
  | .tear bytes => bytes
  | .file _ => []

/-- The files after a step. -/
def apply (files : Files) (step : Step R) : Files :=
  match step with
  | .file step => step.apply files
  | step => Function.update files .log ((files .log).map (· ++ step.bytes))

/-- The record that a step writes completely. -/
def record : Step R → Option R
  | .append r _ => some r
  | _ => none

/-- What is made of a step when only the first bytes of it reach the file. -/
def cut (k : ℕ) : Step R → Step R
  | .append r frame => if frame.length ≤ k then .append r frame else .tear (frame.take k)
  | .tear bytes => .tear (bytes.take k)
  | .file _ => .tear []

end Step

section Recorded

variable {R : Type*} (steps : List (Step R))

/-- The steps that happen before a crash: the first `n`, and `k` bytes of the next one. -/
def interrupted (n k : ℕ) : List (Step R) :=
  steps.take n ++ ((steps.drop n).head?.map (Step.cut k)).toList

/-- The steps that happen. -/
def executed : Option (ℕ × ℕ) → List (Step R)
  | none => steps
  | some (n, k) => interrupted steps n k

/-- The files, and the records that have been written completely. -/
structure Recorded (R : Type*) where
  files : Files := fun _ => none
  history : List R := []

/-- The files and the records after some steps. -/
def Recorded.exec (s : Recorded R) (steps : List (Step R)) : Recorded R where
  files := steps.foldl Step.apply s.files
  history := s.history ++ steps.filterMap Step.record

end Recorded

end RecordLog
