import DeSentry.Framework.ByteCodec

/-!
# Append-only files of checksummed frames

A log file is a sequence of frames: a 32-bit length, a payload, and a checksum of the payload
that the length counts in.  A reader walks the file from the start and hands each payload to the
client, which accepts it, rejects it, or throws.  The walk stops at the first thing it does not
like, and the way it stops is what the client learns: a file that ends inside a frame ended
*cleanly* (a crash tears only the last write), while bytes that are all there and wrong make the
file *corrupt*.

`replay_frames` says what reading a well-formed file followed by anything else does, and
`replay_eq` is the loop's own equation, in which the fuel that makes it structural no longer
appears.
-/

namespace FrameLog

open ByteCodec List

/-- The parameters of a frame format. -/
structure Format where
  checksum : Bytes → UInt32
  /-- The shortest body (payload and checksum) a reader considers. -/
  minBody : ℕ
  /-- The longest body a reader considers. -/
  maxBody : ℕ
  four_le_minBody : 4 ≤ minBody
  maxBody_lt : maxBody < 2 ^ 32

/-- What a reader finds at a position of the file. -/
inductive FrameRead where
  /-- Fewer than four bytes are left. -/
  | endOfFile
  /-- The length is outside the format's bounds. -/
  | badLength
  /-- The file ends before the frame does. -/
  | torn
  | badChecksum
  | payload (p rest : Bytes)
  deriving DecidableEq, Repr

/-- The client's answer to a payload. -/
inductive Verdict (σ : Type*) where
  | accept (s : σ)
  | reject
  | throw

/-- How a walk over the file ended. -/
inductive Stop where
  | clean
  | corrupt
  | thrown
  deriving DecidableEq, Repr

/-! ## The fields of a frame -/

section Fields

variable (n : ℕ) (p rest : Bytes)

lemma take_field : (leBytes 4 n ++ rest).take 4 = leBytes 4 n :=
  take_left' (length_leBytes ..)

lemma drop_field : (leBytes 4 n ++ rest).drop 4 = rest := drop_left' (length_leBytes ..)

lemma field_not_short : ¬ (leBytes 4 n ++ rest).length < 4 := by
  simp

/-- A payload with its checksum is all there, and what follows it is found. -/
lemma body_whole : ¬ (p ++ (leBytes 4 n ++ rest)).length < p.length + 4 ∧
    (p ++ (leBytes 4 n ++ rest)).drop (p.length + 4) = rest := by
  refine ⟨?_, ?_⟩
  · simp only [length_append, length_leBytes]
    omega
  · rw [← append_assoc]
    exact drop_left' (by simp)

lemma leValue_checksum (sum : UInt32) : leValue (leBytes 4 sum.toNat) = sum.toNat := by
  rw [leValue_leBytes]
  exact Nat.mod_eq_of_lt sum.toNat_lt

variable {n rest} {t : Bytes}

/-- A proper part of a frame that is long enough for the first field has it, and too little behind
it. -/
lemma partial_field (ht : t <+: leBytes 4 n ++ rest) (hne : t ≠ leBytes 4 n ++ rest)
    (hfour : ¬ t.length < 4) : t.take 4 = leBytes 4 n ∧ (t.drop 4).length < rest.length := by
  have hlt : t.length < (leBytes 4 n ++ rest).length :=
    lt_of_le_of_ne ht.length_le fun he => hne (ht.eq_of_length he)
  obtain ⟨s, hs⟩ := ht
  refine ⟨?_, ?_⟩
  · rw [← take_field n rest, ← hs, take_append_of_le_length (by omega)]
  · rw [length_append, length_leBytes] at hlt
    rw [length_drop]
    omega

end Fields

namespace Format

variable (F : Format)

/-- A payload with its checksum. -/
def body (p : Bytes) : Bytes := p ++ leBytes 4 (F.checksum p).toNat

/-- A payload as it stands in the file. -/
def frame (p : Bytes) : Bytes := leBytes 4 (F.body p).length ++ F.body p

/-- A payload whose frame a reader considers. -/
def Fits (p : Bytes) : Prop := F.minBody ≤ p.length + 4 ∧ p.length + 4 ≤ F.maxBody

instance (p : Bytes) : Decidable (F.Fits p) := inferInstanceAs (Decidable (_ ∧ _))

/-- Read one frame. -/
def readFrame (bytes : Bytes) : FrameRead :=
  if bytes.length < 4 then .endOfFile
  else
    let n := leValue (bytes.take 4)
    let rest := bytes.drop 4
    if n < F.minBody ∨ n > F.maxBody then .badLength
    else if rest.length < n then .torn
    else
      let p := rest.take (n - 4)
      if leValue ((rest.drop (n - 4)).take 4) ≠ (F.checksum p).toNat then .badChecksum
      else .payload p (rest.drop n)

/-! ## One frame -/

section Frame

variable {F} {p : Bytes}

@[simp] lemma length_body (p : Bytes) : (F.body p).length = p.length + 4 := by
  simp [body]

@[simp] lemma length_frame (p : Bytes) : (F.frame p).length = p.length + 8 := by
  rw [frame, length_append, length_leBytes, length_body]
  omega

/-- The length field of a payload that fits is exact. -/
lemma leValue_length_field (h : F.Fits p) :
    leValue (leBytes 4 (F.body p).length) = p.length + 4 := by
  rw [leValue_leBytes, length_body]
  have := F.maxBody_lt
  have := h.2
  exact Nat.mod_eq_of_lt (by omega)

lemma frame_append (p rest : Bytes) : F.frame p ++ rest =
    leBytes 4 (F.body p).length ++ (p ++ (leBytes 4 (F.checksum p).toNat ++ rest)) := by
  simp only [frame, body, append_assoc]

/-- **Reading back a frame.** -/
lemma readFrame_frame (h : F.Fits p) (rest : Bytes) :
    F.readFrame (F.frame p ++ rest) = .payload p rest := by
  have hbound : ¬ (p.length + 4 < F.minBody ∨ p.length + 4 > F.maxBody) := by
    have := h.1
    have := h.2
    omega
  obtain ⟨hwhole, hrest⟩ := body_whole (F.checksum p).toNat p rest
  rw [frame_append]
  simp only [readFrame, if_neg (field_not_short _ _), take_field, drop_field,
    leValue_length_field h, if_neg hbound, if_neg hwhole, Nat.add_sub_cancel, take_left,
    drop_left, leValue_checksum, ne_eq, not_true_eq_false, if_false, hrest]

/-- A frame whose length the reader does not believe. -/
lemma readFrame_of_not_fits (h : ¬ F.Fits p) (hlt : p.length + 4 < 2 ^ 32) (rest : Bytes) :
    F.readFrame (F.frame p ++ rest) = .badLength := by
  have hlen : leValue (leBytes 4 (F.body p).length) = p.length + 4 := by
    rw [leValue_leBytes, length_body]
    exact Nat.mod_eq_of_lt hlt
  have hbad : p.length + 4 < F.minBody ∨ p.length + 4 > F.maxBody := by
    rw [Fits] at h
    omega
  rw [frame_append]
  simp only [readFrame, if_neg (field_not_short _ _), take_field, hlen, if_pos hbad]

/-- A file that ends inside a frame reads as ended, not as corrupt. -/
lemma readFrame_of_partial {t : Bytes} (h : F.Fits p) (ht : t <+: F.frame p)
    (hne : t ≠ F.frame p) : F.readFrame t = .endOfFile ∨ F.readFrame t = .torn := by
  rw [readFrame]
  by_cases hfour : t.length < 4
  · exact Or.inl (if_pos hfour)
  · right
    obtain ⟨htake, hshort⟩ := partial_field ht hne hfour
    rw [length_body] at hshort
    have hbound : ¬ (p.length + 4 < F.minBody ∨ p.length + 4 > F.maxBody) := by
      have := h.1
      have := h.2
      omega
    simp only [if_neg hfour, htake, leValue_length_field h, if_neg hbound, if_pos hshort]

/-- A frame takes at least one byte off the file. -/
lemma length_rest_lt {bytes rest : Bytes} (h : F.readFrame bytes = .payload p rest) :
    rest.length < bytes.length := by
  rw [readFrame] at h
  simp only at h
  split_ifs at h
  simp only [FrameRead.payload.injEq] at h
  rw [← h.2, length_drop, length_drop]
  omega

end Frame

/-! ## Walking the file -/

variable {σ : Type*} (judge : σ → Bytes → Verdict σ)

/-- The walk with its fuel. -/
def replayFrom : ℕ → σ → Bytes → σ × Stop
  | 0, s, _ => (s, .clean)
  | n + 1, s, bytes =>
    match F.readFrame bytes with
    | .endOfFile => (s, .clean)
    | .badLength => (s, .corrupt)
    | .torn => (s, .clean)
    | .badChecksum => (s, .corrupt)
    | .payload p rest =>
      match judge s p with
      | .accept s' => replayFrom n s' rest
      | .reject => (s, .corrupt)
      | .throw => (s, .thrown)

/-- Walk the file from the start, one frame after the other. -/
def replay (s : σ) (bytes : Bytes) : σ × Stop := F.replayFrom judge bytes.length s bytes

/-- The client accepts the payloads one after the other. -/
def run : σ → List Bytes → Option σ
  | s, [] => some s
  | s, p :: ps =>
    match judge s p with
    | .accept s' => run s' ps
    | _ => none

/-- The frames of a list of payloads. -/
def frames (ps : List Bytes) : Bytes := (ps.map F.frame).flatten

variable {F judge}

variable {bytes : Bytes}

/-- More fuel than there are bytes changes nothing. -/
lemma replayFrom_of_le {n : ℕ} {s : σ} (h : bytes.length ≤ n) :
    F.replayFrom judge n s bytes = F.replay judge s bytes := by
  suffices hm : ∀ m n (s : σ) (bytes : Bytes), bytes.length ≤ m → bytes.length ≤ n →
      F.replayFrom judge n s bytes = F.replayFrom judge m s bytes from
    hm _ _ _ _ le_rfl h
  intro m
  induction m with
  | zero =>
    intro n s bytes hm _
    cases n with
    | zero => rfl
    | succ n =>
      have hfour : bytes.length < 4 := by omega
      simp only [replayFrom, readFrame, if_pos hfour]
  | succ m ih =>
    intro n s bytes hm hn
    cases n with
    | zero =>
      have hfour : bytes.length < 4 := by omega
      simp only [replayFrom, readFrame, if_pos hfour]
    | succ n =>
      simp only [replayFrom]
      cases hr : F.readFrame bytes with
      | payload p rest =>
        have hlt := length_rest_lt hr
        simp only
        cases judge s p with
        | accept s' => exact ih n s' rest (by omega) (by omega)
        | reject => rfl
        | throw => rfl
      | _ => rfl

/-- The equation of the loop. -/
lemma replay_eq (s : σ) (bytes : Bytes) : F.replay judge s bytes =
    match F.readFrame bytes with
    | .endOfFile => (s, .clean)
    | .badLength => (s, .corrupt)
    | .torn => (s, .clean)
    | .badChecksum => (s, .corrupt)
    | .payload p rest =>
      match judge s p with
      | .accept s' => F.replay judge s' rest
      | .reject => (s, .corrupt)
      | .throw => (s, .thrown) := by
  rw [← replayFrom_of_le (Nat.le_succ bytes.length), replayFrom]
  cases hr : F.readFrame bytes with
  | payload p rest =>
    simp only
    cases judge s p with
    | accept s' => exact replayFrom_of_le (length_rest_lt hr).le
    | reject => rfl
    | throw => rfl
  | _ => rfl

/-- Nothing is left to read. -/
lemma replay_of_end {s : σ} (h : F.readFrame bytes = .endOfFile ∨ F.readFrame bytes = .torn) :
    F.replay judge s bytes = (s, .clean) := by
  rw [replay_eq]
  rcases h with h | h <;> rw [h]

@[simp] lemma replay_nil (s : σ) : F.replay judge s [] = (s, .clean) := rfl

variable {ps : List Bytes}

lemma run_cons {p : Bytes} {s s' : σ} : run judge s (p :: ps) = some s' ↔
    ∃ s₁, judge s p = .accept s₁ ∧ run judge s₁ ps = some s' := by
  rw [run]
  cases judge s p <;> simp

/-- **Reading a well-formed file**: the accepted payloads are consumed, whatever follows. -/
lemma replay_frames {s s' : σ} (hp : ∀ p ∈ ps, F.Fits p) (h : run judge s ps = some s')
    (rest : Bytes) :
    F.replay judge s (F.frames ps ++ rest) = F.replay judge s' rest := by
  induction ps generalizing s with
  | nil =>
    obtain rfl : s = s' := Option.some_injective _ h
    rfl
  | cons p ps ih =>
    rw [forall_mem_cons] at hp
    obtain ⟨s₁, hj, h⟩ := run_cons.mp h
    rw [replay_eq, frames, map_cons, flatten_cons, append_assoc,
      readFrame_frame hp.1]
    simp only [hj]
    exact ih hp.2 h

/-- A walk over whole frames that ends cleanly has accepted all of them. -/
lemma run_of_clean {s s' : σ} (hp : ∀ p ∈ ps, F.Fits p)
    (h : F.replay judge s (F.frames ps) = (s', .clean)) : run judge s ps = some s' := by
  induction ps generalizing s with
  | nil => exact congrArg some (Prod.mk.inj h).1
  | cons p ps ih =>
    rw [forall_mem_cons] at hp
    rw [replay_eq, frames, map_cons, flatten_cons, readFrame_frame hp.1] at h
    cases hj : judge s p with
    | accept s₁ =>
      simp only [hj] at h
      exact run_cons.mpr ⟨s₁, hj, ih hp.2 h⟩
    | reject =>
      simp only [hj] at h
      cases h
    | throw =>
      simp only [hj] at h
      cases h

/-- Where the reader finds no payload, the walk stops with what it has. -/
lemma replay_fst_of_not_payload {s : σ} (h : ∀ p rest, F.readFrame bytes ≠ .payload p rest) :
    (F.replay judge s bytes).1 = s := by
  rw [replay_eq]
  cases hr : F.readFrame bytes with
  | payload p rest => exact absurd hr (h p rest)
  | _ => rfl

lemma frames_append (ps qs : List Bytes) : F.frames (ps ++ qs) = F.frames ps ++ F.frames qs := by
  simp [frames]

lemma run_append {qs : List Bytes} {s s' : σ} (h : run judge s ps = some s') :
    run judge s (ps ++ qs) = run judge s' qs := by
  induction ps generalizing s with
  | nil =>
    obtain rfl : s = s' := Option.some_injective _ h
    rfl
  | cons p ps ih =>
    obtain ⟨s₁, hj, h⟩ := run_cons.mp h
    rw [cons_append, run, hj]
    exact ih h

variable (F) in
/-- The checksum exposes every frame that is longer than the format admits: the reader, misled
about its length, finds no payload there. -/
def Exposed : List Bytes → Bytes → Prop
  | [], _ => True
  | p :: ps, tail =>
    (¬ F.Fits p → ∀ q rest, F.readFrame (F.frame p ++ (F.frames ps ++ tail)) ≠ .payload q rest) ∧
      Exposed ps tail

lemma exposed_of_fits (hp : ∀ p ∈ ps, F.Fits p) (tail : Bytes) :
    F.Exposed ps tail := by
  induction ps with
  | nil => trivial
  | cons p ps ih =>
    rw [forall_mem_cons] at hp
    exact ⟨fun h => absurd hp.1 h, ih hp.2⟩

/-- A length field that is exact exposes itself. -/
lemma exposed_of_lt (hp : ∀ p ∈ ps, p.length + 4 < 2 ^ 32) (tail : Bytes) :
    F.Exposed ps tail := by
  induction ps with
  | nil => trivial
  | cons p ps ih =>
    rw [forall_mem_cons] at hp
    refine ⟨fun h q rest hq => ?_, ih hp.2⟩
    rw [readFrame_of_not_fits h hp.1] at hq
    cases hq

variable {tail : Bytes}

lemma exposed_append {qs : List Bytes} :
    F.Exposed (ps ++ qs) tail ↔ F.Exposed ps (F.frames qs ++ tail) ∧ F.Exposed qs tail := by
  induction ps with
  | nil => simp [Exposed]
  | cons p ps ih => rw [cons_append, Exposed, Exposed, ih, frames_append, append_assoc,
      and_assoc]

lemma count_run {count : σ → ℕ} (hcount : ∀ s p s', judge s p = .accept s' → count s' = count s + 1)
    {s s' : σ} (h : run judge s ps = some s') :
    count s' = count s + ps.length := by
  induction ps generalizing s with
  | nil =>
    obtain rfl : s = s' := Option.some_injective _ h
    rfl
  | cons p ps ih =>
    obtain ⟨s₁, hj, h⟩ := run_cons.mp h
    rw [ih h, hcount s p s₁ hj, length_cons]
    omega

/-- What the payloads of the frames keep, a walk keeps that finds no payload behind them. -/
lemma replay_frames_invariant {Inv : σ → Prop}
    (hstep : ∀ p ∈ ps, ∀ s s', Inv s → judge s p = .accept s' → Inv s') (hexp : F.Exposed ps tail)
    (htail : ∀ q rest, F.readFrame tail ≠ .payload q rest) {s : σ} (hs : Inv s) :
    Inv (F.replay judge s (F.frames ps ++ tail)).1 := by
  induction ps generalizing s with
  | nil =>
    have hstop : (F.replay judge s tail).1 = s := replay_fst_of_not_payload htail
    change Inv (F.replay judge s tail).1
    rwa [hstop]
  | cons p ps ih =>
    rw [forall_mem_cons] at hstep
    have hfile : F.frames (p :: ps) ++ tail = F.frame p ++ (F.frames ps ++ tail) := by
      simp [frames]
    rw [hfile]
    by_cases hp : F.Fits p
    · rw [replay_eq, readFrame_frame hp]
      simp only
      cases hj : judge s p with
      | accept s₁ => exact ih hstep.2 hexp.2 (hstep.1 s s₁ hs hj)
      | reject => exact hs
      | throw => exact hs
    · have hstop : (F.replay judge s (F.frame p ++ (F.frames ps ++ tail))).1 = s :=
        replay_fst_of_not_payload (hexp.1 hp)
      rwa [hstop]

/-- **Nothing behind a bad frame is read.**  A walk that takes as many steps as there are frames
has accepted all of them. -/
lemma frames_accepted {count : σ → ℕ}
    (hcount : ∀ s p s', judge s p = .accept s' → count s' = count s + 1) {s : σ}
    (hexp : F.Exposed ps tail)
    (hread : count s + ps.length ≤ count (F.replay judge s (F.frames ps ++ tail)).1) :
    (∀ p ∈ ps, F.Fits p) ∧ ∃ s', run judge s ps = some s' := by
  induction ps generalizing s with
  | nil => exact ⟨by simp, s, rfl⟩
  | cons p ps ih =>
    rw [frames, map_cons, flatten_cons, append_assoc, length_cons] at hread
    by_cases hp : F.Fits p
    · rw [replay_eq, readFrame_frame hp] at hread
      cases hj : judge s p with
      | accept s₁ =>
        simp only [hj] at hread
        have hone := hcount s p s₁ hj
        obtain ⟨hfit, s', hrun⟩ := ih hexp.2 (s := s₁) (by
          rw [frames]
          omega)
        exact ⟨forall_mem_cons.mpr ⟨hp, hfit⟩, s', run_cons.mpr ⟨s₁, hj, hrun⟩⟩
      | reject =>
        simp only [hj] at hread
        omega
      | throw =>
        simp only [hj] at hread
        omega
    · have hstop : (F.replay judge s (F.frame p ++ (F.frames ps ++ tail))).1 = s :=
        replay_fst_of_not_payload (hexp.1 hp)
      rw [frames] at hstop
      rw [hstop] at hread
      omega

/-- What every accepted payload keeps, the walk keeps. -/
lemma replay_invariant {Inv : σ → Prop}
    (hstep : ∀ s p s', Inv s → judge s p = .accept s' → Inv s') {s : σ} (hs : Inv s)
    (bytes : Bytes) : Inv (F.replay judge s bytes).1 := by
  rw [replay]
  generalize bytes.length = n
  induction n generalizing s bytes with
  | zero => exact hs
  | succ n ih =>
    rw [replayFrom]
    cases hr : F.readFrame bytes with
    | payload p rest =>
      simp only
      cases hj : judge s p with
      | accept s' => exact ih (hstep s p s' hs hj) rest
      | reject => exact hs
      | throw => exact hs
    | _ => exact hs

end Format

end FrameLog
