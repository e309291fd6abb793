import DeSentry.Properties.WireRoundTrip

/-!
# Messages of earlier peers

`TransitResponsePayload::Decode` and `LedgerDeltaPayload::Decode` still read the layouts of earlier
peers: the first version, which has no magic number; entries of the second version that end at the
chunk fields; messages that end early.  `old_layouts_iff` says which of those messages are recovered,
with every field that was sent and the initial value of every field that was not.

A trailing field is recognised by the bytes that remain, and inside a list of entries those are the
bytes of the next entry.  So of the lists whose entries end at the chunk fields only the empty one
and some with a single entry are recovered.  The proof counts bytes: decoded entries with empty
trailing fields use up more bytes than the message has (`length_many`).  The first version of the
transit response also has a list length that looks like the magic number.
-/

namespace DeSentry

open ByteCodec ByteWriter List

/-! ## The earlier layouts -/

/-- A flag at the end of a message, if it is sent. -/
def encodeFlag : Option Bool → Bytes
  | none => []
  | some b => u8 (flag b)

/-- A transit response of an earlier peer. -/
inductive OldTransitResponse where
  /-- No magic number, entries that end at the holder. -/
  | v1 (entries : List TransitEntry) (truncated : Option Bool)
  /-- Entries that end at the chunk fields. -/
  | unattested (entries : List TransitEntry) (trailer : Option (Bool × Option UInt64))
  /-- No cursor. -/
  | uncursored (entries : List TransitEntry) (truncated : Option Bool)
  deriving DecidableEq

namespace OldTransitResponse

/-- The end of a message whose entries end at the chunk fields. -/
def encodeTrailer : Option (Bool × Option UInt64) → Bytes
  | none => []
  | some (truncated, none) => u8 (flag truncated)
  | some (truncated, some nextOffset) =>
    u8 (flag truncated) ++ u64 nextOffset

/-- The bytes of the message. -/
def encode : OldTransitResponse → Bytes
  | v1 entries truncated =>
    counted TransitEntry.encodeV1 entries ++ encodeFlag truncated
  | unattested entries trailer =>
    u32 TransitResponsePayload.kTransitResponseMagicV2 ++
      (counted TransitEntry.encodeChunk entries ++ encodeTrailer trailer)
  | uncursored entries truncated =>
    u32 TransitResponsePayload.kTransitResponseMagicV2 ++
      (counted TransitEntry.encode entries ++ encodeFlag truncated)

/-- What the message says: the fields that were sent, and the initial values of the others. -/
def expected : OldTransitResponse → TransitResponsePayload
  | v1 entries truncated =>
    { entries := entries.map TransitEntry.whole, truncated := truncated.getD false }
  | unattested entries trailer =>
    { entries := entries.map TransitEntry.untailed
      truncated := (trailer.map Prod.fst).getD false
      nextOffset := (trailer.bind Prod.snd).getD 0 }
  | uncursored entries truncated => { entries, truncated := truncated.getD false }

/-- The decoder recovers the message. -/
def Recovered (m : OldTransitResponse) : Prop :=
  TransitResponsePayload.decode m.encode = .ok m.expected

/-- What keeps the decoder from mistaking one field for another. -/
def Unambiguous : OldTransitResponse → Prop
  | v1 entries _ => entries.length ≠ TransitResponsePayload.kTransitResponseMagicV2.toNat
  | unattested entries trailer =>
    entries = [] ∨ entries.length = 1 ∧ (trailer = none ∨ trailer = some (false, some 0))
  | uncursored _ _ => True

end OldTransitResponse

/-- A ledger delta of an earlier peer. -/
inductive OldLedgerDelta where
  /-- No magic number, entries that end at the key. -/
  | v1 (entries : List LedgerEntrySummary) (hashesOnly : Bool)
  /-- Entries that end at the chunk fields. -/
  | listless (entries : List LedgerEntrySummary) (hashesOnly : Bool) (tipSignature : Option Bytes)
  /-- No signature of the tip. -/
  | unsigned (entries : List LedgerEntrySummary) (hashesOnly : Bool)
  deriving DecidableEq

namespace OldLedgerDelta

/-- The end of a message whose entries end at the chunk fields. -/
def encodeTip : Option Bytes → Bytes
  | none => []
  | some signature => bytes signature

/-- The bytes of the message. -/
def encode : OldLedgerDelta → Bytes
  | v1 entries hashesOnly =>
    u8 (flag hashesOnly) ++ counted LedgerEntrySummary.encodeV1 entries
  | listless entries hashesOnly tipSignature =>
    u32 LedgerDeltaPayload.kLedgerDeltaMagicV2 ++ (u8 (flag hashesOnly) ++
      (counted LedgerEntrySummary.encodeChunk entries ++ encodeTip tipSignature))
  | unsigned entries hashesOnly =>
    u32 LedgerDeltaPayload.kLedgerDeltaMagicV2 ++ (u8 (flag hashesOnly) ++
      counted LedgerEntrySummary.encode entries)

/-- What the message says: the fields that were sent, and the initial values of the others. -/
def expected : OldLedgerDelta → LedgerDeltaPayload
  | v1 entries hashesOnly => { entries := entries.map LedgerEntrySummary.whole, hashesOnly }
  | listless entries hashesOnly tipSignature =>
    { entries := entries.map LedgerEntrySummary.untailed, hashesOnly
      tipSignature := tipSignature.getD [] }
  | unsigned entries hashesOnly => { entries, hashesOnly }

/-- The decoder recovers the message. -/
def Recovered (m : OldLedgerDelta) : Prop :=
  LedgerDeltaPayload.decode m.encode = .ok m.expected

/-- What keeps the decoder from mistaking one field for another. -/
def Unambiguous : OldLedgerDelta → Prop
  | v1 _ _ => True
  | listless entries _ tipSignature =>
    entries = [] ∨ entries.length = 1 ∧ (tipSignature = none ∨ tipSignature = some [])
  | unsigned _ _ => True

end OldLedgerDelta

/-! ## Readers -/

lemma fits_nil : Fits ([] : Bytes) := by
  unfold Fits
  decide

variable {α : Type}

lemma decodeWith_eq_ok {get : ByteReader α} {bytes : Bytes} {a : α} :
    decodeWith get bytes = .ok a ↔ ∃ rest, get.run bytes = .ok (a, rest) := by
  rw [decodeWith]
  cases get.run bytes with
  | error e => exact ⟨by rintro ⟨⟩, by rintro ⟨_, ⟨⟩⟩⟩
  | ok x =>
    refine ⟨fun h => ⟨x.2, ?_⟩, ?_⟩
    · rw [← Except.ok.inj h]
    · rintro ⟨rest, h⟩
      rw [Except.ok.inj h]
      rfl

variable {s s' : Bytes}

lemma run_lift_eq_ok {x : Except String α} {a : α}
    (h : (StateT.lift x : ByteReader α).run s = .ok (a, s')) : x = .ok a ∧ s' = s := by
  cases x with
  | error m => cases h
  | ok b =>
    obtain ⟨rfl, rfl⟩ := Prod.mk.inj (Except.ok.inj h)
    exact ⟨rfl, rfl⟩

/-- A trailing field is absent, or it is read. -/
lemma run_trailing_eq_ok {initial a : α} {get : ByteReader α} :
    (ByteReader.trailing initial get).run s = .ok (a, s') ↔
      s = [] ∧ a = initial ∧ s' = [] ∨ s ≠ [] ∧ get.run s = .ok (a, s') := by
  rw [ByteReader.trailing, run_remaining_bind]
  cases s with
  | nil =>
    refine ⟨fun h => Or.inl ?_, ?_⟩
    · obtain ⟨rfl, rfl⟩ := Prod.mk.inj (Except.ok.inj h)
      exact ⟨rfl, rfl, rfl⟩
    · rintro (⟨-, rfl, rfl⟩ | ⟨hne, -⟩)
      · rfl
      · exact absurd rfl hne
  | cons b s =>
    have hpos : (b :: s).length > 0 := Nat.succ_pos _
    rw [if_pos hpos]
    exact ⟨fun h => Or.inr ⟨cons_ne_nil _ _, h⟩, fun h => h.elim (absurd ·.1 (cons_ne_nil _ _)) (·.2)⟩

/-- A trailing byte string that comes out empty was not there, or has the size zero. -/
lemma trailing_bytes_cases {a : Bytes}
    (h : (ByteReader.trailing [] ByteReader.bytes).run s = .ok (a, s')) :
    s = [] ∧ a = [] ∧ s' = [] ∨ s = bytes a ++ s' := by
  rcases run_trailing_eq_ok.mp h with habsent | ⟨-, hread⟩
  · exact Or.inl habsent
  · exact Or.inr (consumes_bytes s a s' hread)

lemma length_bytes_nil : (bytes []).length = 4 := length_bytes []

/-- A list of one element. -/
lemma run_counted_one {β : Type} {get : ByteReader α} {put : β → Bytes} {a : α} {b : β}
    (h : get.run (put b ++ s) = .ok (a, s')) :
    (ByteReader.counted get).run (counted put [b] ++ s) = .ok ([a], s') := by
  have hcount : counted put [b] = u32 1 ++ put b := by
    rw [counted, map_singleton, flatten_singleton]
    rfl
  rw [hcount, append_assoc, ByteReader.counted, (reads_u32 1).run_bind]
  exact run_bind_eq_ok.mpr ⟨_, s', h, rfl⟩

variable {n : ℕ}

/-- What is used up when the elements of a list come out with empty trailing fields: `w` bytes after
each element, except that the trailing fields of the last one may be missing. -/
lemma length_many {get : ByteReader α} {size : α → ℕ} {w : ℕ} {bare : α → Prop}
    (hpos : ∀ a, 0 < size a)
    (hget : ∀ s a s', get.run s = .ok (a, s') → bare a → ∃ k, s.length = size a + k + s'.length ∧
      (k = w ∨ s' = [] ∧ k < w ∧ 4 ∣ k)) {as : List α} (hbare : ∀ a ∈ as, bare a) (hne : as ≠ [])
    (hrun : (many get n).run s = .ok (as, s')) :
    ∃ k, s.length + w = (as.map size).sum + w * as.length + k + s'.length ∧
      (k = w ∨ s' = [] ∧ k < w ∧ 4 ∣ k) := by
  induction as generalizing n s with
  | nil => exact absurd rfl hne
  | cons a as ih =>
    rw [forall_mem_cons] at hbare
    have hn := yields_many_length get n s _ s' hrun
    cases n with
    | zero => simp at hn
    | succ n =>
      obtain ⟨a', t, ha, hmore⟩ := run_bind_eq_ok.mp hrun
      obtain ⟨as', t', has, hpure⟩ := run_bind_eq_ok.mp hmore
      obtain ⟨hcons, rfl⟩ := Prod.mk.inj (Except.ok.inj hpure)
      obtain ⟨rfl, rfl⟩ := List.cons.inj hcons
      obtain ⟨k, hk, hlast⟩ := hget s a' t ha hbare.1
      cases as' with
      | nil =>
        have hzero := yields_many_length get n t [] t' has
        obtain rfl : n = 0 := hzero.symm
        obtain ⟨-, rfl⟩ := Prod.mk.inj (Except.ok.inj has)
        refine ⟨k, ?_, hlast⟩
        simp only [map_cons, map_nil, sum_cons, sum_nil, length_singleton]
        omega
      | cons b as' =>
        obtain ⟨k', hk', hlast'⟩ := ih hbare.2 (cons_ne_nil _ _) has
        -- The next element needs bytes, so the trailing fields of this one were read.
        have hb := hpos b
        have hkw : k = w := by
          rcases hlast with hkw | ⟨rfl, -, -⟩
          · exact hkw
          · simp only [map_cons, sum_cons, length_cons, length_nil,
              Nat.mul_add] at hk'
            omega
        refine ⟨k', ?_, hlast'⟩
        simp only [map_cons, sum_cons, length_cons, Nat.mul_add] at hk' ⊢
        omega

/-! ## Entries of a transit response -/

namespace TransitEntry

variable {e raw : TransitEntry}

lemma consumes_v1 : Consumes [] readV1 encodeV1 :=
  consumes_bytes.bind fun _ => consumes_bytes.bind fun _ => consumes_bytes.bind fun _ =>
    consumes_bytes.bind fun _ => consumes_i64.bind fun _ => consumes_bytes.bind fun _ =>
      Consumes.pure rfl

lemma consumes_chunk : Consumes [] readChunk encodeChunk :=
  consumes_v1.bind fun _ => consumes_u64.bind fun _ => consumes_u32.bind fun _ =>
    consumes_u32.bind fun _ => Consumes.pure rfl

/-- What comes out of the first version is as its initial values have it. -/
lemma yields_v1 : Yields readV1 fun e => e.SizedV1 ∧ e.whole = e :=
  yields_bytes.bind fun _ hcollection => yields_bytes.bind fun _ hkey =>
    yields_bytes.bind fun _ hhash => yields_bytes.bind fun _ hdoc =>
      yields_skip fun _ => yields_bytes.bind fun _ hholder =>
        Yields.pure ⟨⟨hcollection, hkey, hhash, hdoc, hholder⟩, rfl⟩

lemma yields_chunk : Yields readChunk fun e => e.SizedV1 ∧ e.untailed = e := by
  refine yields_v1.bind fun e he => yields_skip fun _ => yields_skip fun _ =>
    yields_skip fun _ => Yields.pure ⟨he.1, ?_⟩
  rw [← he.2]
  rfl

lemma sized_whole (h : e.SizedV1) : e.whole.Sized :=
  ⟨h, show (0 : UInt32) < 1 by decide, fits_nil, fits_nil⟩

/-- What the check lets through. -/
lemma checkChunk_eq_ok (h : raw.checkChunk = .ok e) :
    e = raw.withChunkTotal ∧ e.chunkIndex < e.chunkTotal := by
  rw [checkChunk] at h
  split_ifs at h with hrange
  obtain rfl := Except.ok.inj h
  exact ⟨rfl, UInt32.not_le.mp hrange⟩

lemma length_encodeChunk_of_check (h : raw.checkChunk = .ok e) :
    raw.encodeChunk.length = e.encodeChunk.length := by
  rw [(checkChunk_eq_ok h).1, withChunkTotal]
  split_ifs
  · simp only [encodeChunk, encodeV1, length_append, length_u32]
  · rfl

lemma sizedV1_withChunkTotal : e.withChunkTotal.SizedV1 ↔ e.SizedV1 := by
  rw [withChunkTotal]
  split_ifs
  · rfl
  · rfl

/-- The parts an entry is read from. -/
lemma run_read_cases {s s' : Bytes} (h : read.run s = .ok (e, s')) :
    ∃ (raw : TransitEntry) (t u : Bytes), s = raw.encodeChunk ++ t ∧ raw.SizedV1 ∧
      raw.checkChunk = .ok e.untailed ∧
      (ByteReader.trailing [] ByteReader.bytes).run t = .ok (e.contentHash, u) ∧
      (ByteReader.trailing [] ByteReader.bytes).run u = .ok (e.holderSig, s') := by
  obtain ⟨raw, t, hraw, h⟩ := run_bind_eq_ok.mp h
  obtain ⟨checked, t', hcheck, h⟩ := run_bind_eq_ok.mp h
  obtain ⟨hash, u, hhash, h⟩ := run_bind_eq_ok.mp h
  obtain ⟨sig, u', hsig, h⟩ := run_bind_eq_ok.mp h
  obtain ⟨rfl, rfl⟩ := Prod.mk.inj (Except.ok.inj h)
  obtain ⟨hsized, huntailed⟩ := yields_chunk s raw t hraw
  obtain ⟨hok, rfl⟩ := run_lift_eq_ok hcheck
  have hchecked : checked.untailed = checked := by
    have heq := checkChunk_untailed (e := raw)
    rw [huntailed, hok] at heq
    split_ifs at heq
    rw [Except.ok.inj heq]
    rfl
  refine ⟨raw, t', u, consumes_chunk s raw t' hraw, hsized, ?_, hhash, hsig⟩
  rw [hok, ← hchecked]
  rfl

lemma yields_read : Yields read Sized := by
  intro s e s' hrun
  obtain ⟨raw, t, u, -, hsized, hcheck, hhash, hsig⟩ := run_read_cases hrun
  obtain ⟨heq, hchunk⟩ := checkChunk_eq_ok hcheck
  refine ⟨?_, hchunk, yields_trailing fits_nil yields_bytes t _ u hhash,
    yields_trailing fits_nil yields_bytes u _ s' hsig⟩
  rw [← sizedV1_withChunkTotal, ← heq] at hsized
  exact hsized

/-- The bytes used up by an entry that comes out with empty trailing fields. -/
lemma length_read {s s' : Bytes} (h : read.run s = .ok (e, s')) (hbare : e.untailed = e) :
    ∃ k, s.length = e.encodeChunk.length + k + s'.length ∧
      (k = 8 ∨ s' = [] ∧ k < 8 ∧ 4 ∣ k) := by
  obtain ⟨raw, t, u, hs, -, hcheck, hhash, hsig⟩ := run_read_cases h
  rw [hs, length_append, length_encodeChunk_of_check hcheck, hbare]
  rw [← hbare] at hhash hsig
  rcases trailing_bytes_cases hhash with ⟨rfl, -, rfl⟩ | rfl
  · obtain ⟨-, rfl⟩ := Prod.mk.inj (Except.ok.inj hsig)
    exact ⟨0, by simp, Or.inr ⟨rfl, by decide, by decide⟩⟩
  rcases trailing_bytes_cases hsig with ⟨rfl, -, rfl⟩ | rfl
  · exact ⟨4, by simp [untailed], Or.inr ⟨rfl, by decide, by decide⟩⟩
  · refine ⟨8, ?_, Or.inl rfl⟩
    simp only [untailed, length_append, length_bytes_nil]
    omega

end TransitEntry

namespace TransitResponsePayload

variable {p : TransitResponsePayload}

lemma decode_v2 : decode (u32 kTransitResponseMagicV2 ++ s) =
    decodeWith readV2 (u32 kTransitResponseMagicV2 ++ s) := by
  rw [decode, if_pos (hasMagic_append _ _)]

/-- What is decoded fits. -/
lemma sized_of_decode {bytes : Bytes} (h : decode bytes = .ok p) :
    p.Sized := by
  have hv1 : Yields readV1 Sized :=
    (yields_counted TransitEntry.yields_v1).bind fun entries hentries =>
      yields_skip fun _ => Yields.pure ⟨hentries.1, fun e he => by
        rw [← (hentries.2 e he).2]
        exact TransitEntry.sized_whole (hentries.2 e he).1⟩
  have hv2 : Yields readV2 Sized :=
    yields_skip fun _ => (yields_counted TransitEntry.yields_read).bind fun _ hentries =>
      yields_skip fun _ => yields_skip fun _ => Yields.pure hentries
  obtain ⟨rest, hrun⟩ := decodeWith_eq_ok.mp h
  split_ifs at hrun
  · exact hv2 _ _ _ hrun
  · exact hv1 _ _ _ hrun

/-- The parts of a response of the second version. -/
lemma run_readV2_cases {s rest : Bytes}
    (h : readV2.run (u32 kTransitResponseMagicV2 ++ s) = .ok (p, rest)) :
    ∃ n s₀ t b u, s = u32 n ++ s₀ ∧
      (many TransitEntry.read n.toNat).run s₀ = .ok (p.entries, t) ∧
      (ByteReader.trailing 0 ByteReader.u8).run t = .ok (b, u) ∧ p.truncated = decide (b ≠ 0) ∧
      (ByteReader.trailing 0 ByteReader.u64).run u = .ok (p.nextOffset, rest) := by
  rw [readV2, (reads_u32 _).run_bind] at h
  obtain ⟨entries, t, hentries, h⟩ := run_bind_eq_ok.mp h
  obtain ⟨b, u, hb, h⟩ := run_bind_eq_ok.mp h
  obtain ⟨nextOffset, u', hnext, h⟩ := run_bind_eq_ok.mp h
  obtain ⟨rfl, rfl⟩ := Prod.mk.inj (Except.ok.inj h)
  obtain ⟨n, s₀, hn, hmany⟩ := run_bind_eq_ok.mp hentries
  exact ⟨n, s₀, t, b, u, consumes_u32 s n s₀ hn, hmany, hb, rfl, hnext⟩

end TransitResponsePayload

/-! ## Transit responses -/

/-- A flag at the end of a message, read back. -/
lemma run_trailing_flag (truncated : Option Bool) :
    (ByteReader.trailing 0 ByteReader.u8).run (encodeFlag truncated) =
      .ok (flag (truncated.getD false), []) := by
  cases truncated with
  | none => rfl
  | some b => exact (reads_trailing_u8 0 (flag b)).run_eq

variable {e : TransitEntry}

/-- What is left of an entry that ends at the chunk fields. -/
lemma TransitEntry.run_read_chunk (h : e.untailed.Sized) (rest : Bytes) :
    TransitEntry.read.run (e.encodeChunk ++ rest) = (do
      let contentHash ← ByteReader.trailing [] ByteReader.bytes
      let holderSig ← ByteReader.trailing [] ByteReader.bytes
      pure { e.untailed with contentHash, holderSig } : ByteReader TransitEntry).run rest := by
  have hcheck : e.untailed.checkChunk = .ok e.untailed := by
    rw [checkChunk, withChunkTotal_of_lt h.2.1, if_neg (UInt32.not_le.mpr h.2.1)]
  have hv1 : e.SizedV1 := h.1
  rw [read, (reads_chunk hv1).run_bind, hcheck]
  rfl

/-- A single entry that ends at the chunk fields, and all that comes out of it. -/
lemma TransitEntry.trailing_of_read_chunk {t : Bytes}
    (h : (many TransitEntry.read n).run (e.encodeChunk ++ s) = .ok ([e.untailed], t)) :
    ∃ u, (s = [] ∧ u = [] ∨ s = bytes [] ++ u) ∧
      (u = [] ∧ t = [] ∨ u = bytes [] ++ t) := by
  have hn := yields_many_length _ n _ _ _ h
  obtain rfl : n = 1 := hn.symm
  obtain ⟨e', t', hread, hrest⟩ := run_bind_eq_ok.mp h
  obtain ⟨heq, rfl⟩ := Prod.mk.inj (Except.ok.inj hrest)
  obtain rfl : e' = e.untailed := head_eq_of_cons_eq heq
  obtain ⟨raw, t, u, hs, -, hcheck, hhash, hsig⟩ := run_read_cases hread
  obtain ⟨-, rfl⟩ := append_inj hs (length_encodeChunk_of_check hcheck).symm
  refine ⟨u, ?_, ?_⟩
  · rcases trailing_bytes_cases hhash with ⟨hnil, -, hu⟩ | hread
    · exact Or.inl ⟨hnil, hu⟩
    · exact Or.inr hread
  · rcases trailing_bytes_cases hsig with ⟨hnil, -, hu⟩ | hread
    · exact Or.inl ⟨hnil, hu⟩
    · exact Or.inr hread

namespace OldTransitResponse

open TransitResponsePayload
open TransitEntry (encodeChunk encodeV1 untailed whole run_read_chunk length_read
  trailing_of_read_chunk)

lemma map_untailed_untailed (entries : List TransitEntry) :
    ∀ e ∈ entries.map untailed, e.untailed = e := by
  intro e he
  obtain ⟨e', -, rfl⟩ := mem_map.mp he
  rfl

variable {entries : List TransitEntry} {truncated : Option Bool}

lemma v1_recovered (hsized : (v1 entries truncated).expected.Sized)
    (h : (v1 entries truncated).Unambiguous) :
    (v1 entries truncated).Recovered := by
  have hlen : Fits entries := by
    have hlen := hsized.1
    rwa [expected, Fits, length_map] at hlen
  have hentries : Reads (ByteReader.counted TransitEntry.readV1)
      (counted encodeV1 entries) (entries.map whole) :=
    reads_counted_map hlen fun e he => TransitEntry.reads_v1
      (hsized.2 e.whole (mem_map_of_mem he)).1
  have hmagic : hasMagic (v1 entries truncated).encode kTransitResponseMagicV2 = false := by
    rw [encode, counted, append_assoc, hasMagic_u32, decide_eq_false_iff_not,
      ← UInt32.toNat_inj, UInt32.toNat_ofNat', Nat.mod_eq_of_lt hlen]
    exact h
  rw [Recovered, decode, hmagic, if_neg Bool.false_ne_true, decodeWith_eq_ok]
  refine ⟨[], ?_⟩
  rw [readV1, encode, hentries.run_bind]
  refine run_bind_eq_ok.mpr ⟨_, [], run_trailing_flag truncated, ?_⟩
  rw [decide_flag_ne_zero]
  rfl

variable {trailer : Option (Bool × Option UInt64)}

lemma unattested_recovered (hsized : (unattested entries trailer).expected.Sized)
    (h : (unattested entries trailer).Unambiguous) : (unattested entries trailer).Recovered := by
  rw [Recovered, encode, decode_v2, decodeWith_eq_ok]
  refine ⟨[], ?_⟩
  rw [readV2, (reads_u32 _).run_bind]
  rcases h with rfl | ⟨hone, htrailer⟩
  · have hnil : Reads (ByteReader.counted TransitEntry.read)
        (counted encodeChunk []) [] :=
      reads_counted (by decide) nofun
    rw [hnil.run_bind]
    rcases trailer with _ | ⟨truncated, _ | nextOffset⟩
    · rfl
    · rw [encodeTrailer, run_bind_eq_ok]
      refine ⟨_, [], (reads_trailing_u8 0 (flag truncated)).run_eq, ?_⟩
      rw [decide_flag_ne_zero]
      rfl
    · rw [encodeTrailer, (reads_trailing_u8 0 (flag truncated)).run_bind, run_bind_eq_ok]
      refine ⟨_, [], (reads_trailing_u64 nextOffset).run_eq, ?_⟩
      rw [decide_flag_ne_zero]
      rfl
  · obtain ⟨e, rfl⟩ := length_eq_one_iff.mp hone
    have he : e.untailed.Sized := hsized.2 _ (mem_singleton_self _)
    rcases htrailer with rfl | rfl
    · have hread := run_read_chunk he []
      exact run_bind_eq_ok.mpr ⟨_, [], run_counted_one hread, rfl⟩
    · have hread := run_read_chunk he (encodeTrailer (some (false, some 0)))
      exact run_bind_eq_ok.mpr ⟨_, [0], run_counted_one hread, rfl⟩

lemma uncursored_recovered (hsized : (uncursored entries truncated).expected.Sized) :
    (uncursored entries truncated).Recovered := by
  have hentries := reads_counted hsized.1 fun e he => TransitEntry.reads_entry (hsized.2 e he)
  rw [Recovered, encode, decode_v2, decodeWith_eq_ok]
  refine ⟨[], ?_⟩
  rw [readV2, (reads_u32 _).run_bind]
  rw [expected] at hentries
  rw [hentries.run_bind]
  refine run_bind_eq_ok.mpr ⟨_, [], run_trailing_flag truncated, ?_⟩
  rw [decide_flag_ne_zero]
  rfl

/-- The bytes used up by entries that come out with empty trailing fields. -/
lemma length_entries (hbare : ∀ e ∈ entries, e.untailed = e) (hne : entries ≠ []) {n : ℕ}
    {s s' : Bytes} (hrun : (many TransitEntry.read n).run s = .ok (entries, s')) :
    ∃ k, s.length + 8 = (entries.map encodeChunk).flatten.length +
      8 * entries.length + k + s'.length ∧ (k = 8 ∨ s' = [] ∧ k < 8 ∧ 4 ∣ k) := by
  have hpos : ∀ e : TransitEntry, 0 < e.encodeChunk.length := fun e => by
    rw [encodeChunk, length_append, length_u32]
    omega
  rw [length_flatten, map_map, Function.comp_def]
  exact length_many hpos (fun s e s' => length_read) hbare hne hrun

/-- The three ends of a message, by their lengths. -/
lemma length_encodeTrailer (trailer : Option (Bool × Option UInt64)) :
    (encodeTrailer trailer).length = 0 ∧ trailer = none ∨ (encodeTrailer trailer).length = 1 ∨
      ∃ truncated nextOffset, trailer = some (truncated, some nextOffset) ∧
        (encodeTrailer trailer).length = 9 := by
  rcases trailer with _ | ⟨truncated, _ | nextOffset⟩
  · exact Or.inl ⟨rfl, rfl⟩
  · exact Or.inr (Or.inl rfl)
  · refine Or.inr (Or.inr ⟨truncated, nextOffset, rfl, ?_⟩)
    rw [encodeTrailer, length_append, length_u8, length_u64]

/-- A list whose length looks like the magic number is not recovered: entries of the second version
use up more bytes than there are. -/
lemma v1_unambiguous (h : (v1 entries truncated).Recovered) :
    (v1 entries truncated).Unambiguous := by
  intro hlen
  have hcount : UInt32.ofNat entries.length = kTransitResponseMagicV2 := by
    rw [hlen, UInt32.ofNat_toNat]
  have hne : entries ≠ [] := by
    rintro rfl
    exact absurd hlen (by decide)
  rw [Recovered, encode, counted, hcount, append_assoc, decode_v2] at h
  obtain ⟨rest, hrun⟩ := decodeWith_eq_ok.mp h
  obtain ⟨n, s₀, t, b, u, hs₀, hmany, -⟩ := run_readV2_cases hrun
  have hbare : ∀ e ∈ entries.map whole, e.untailed = e := by
    intro e he
    obtain ⟨e', -, rfl⟩ := mem_map.mp he
    rfl
  obtain ⟨k, hk, -⟩ := length_entries hbare (mt map_eq_nil_iff.mp hne) hmany
  have hsum : (entries.map encodeV1).flatten.length ≤
      ((entries.map whole).map encodeChunk).flatten.length := by
    simp only [length_flatten, map_map]
    refine sum_le_sum fun e _ => ?_
    simp only [Function.comp_apply, encodeChunk, length_append]
    exact Nat.le_add_right_of_le (Nat.le_add_right_of_le (Nat.le_add_right _ _))
  have hflag : (encodeFlag truncated).length ≤ 1 := by
    cases truncated with
    | none => exact Nat.zero_le 1
    | some b => exact le_rfl
  have hone : 1 ≤ (entries.map whole).length := by
    rw [length_map]
    exact length_pos_iff.mpr hne
  have htotal := congrArg List.length hs₀
  rw [length_append, length_append, length_u32] at htotal
  omega

/-- Of the lists whose entries end at the chunk fields, those that are recovered. -/
lemma unattested_unambiguous (h : (unattested entries trailer).Recovered) :
    (unattested entries trailer).Unambiguous := by
  by_cases hne : entries = []
  · exact Or.inl hne
  refine Or.inr ?_
  rw [Recovered, encode, counted, append_assoc, decode_v2] at h
  obtain ⟨rest, hrun⟩ := decodeWith_eq_ok.mp h
  obtain ⟨n, s₀, t, b, u, hs₀, hmany, hb, htruncated, hnext⟩ := run_readV2_cases hrun
  obtain ⟨-, rfl⟩ := append_inj hs₀ (by rw [length_u32, length_u32])
  have hsame : (entries.map untailed).map encodeChunk =
      entries.map encodeChunk := by
    rw [map_map]
    rfl
  obtain ⟨k, hk, hlast⟩ :=
    length_entries (map_untailed_untailed entries) (mt map_eq_nil_iff.mp hne) hmany
  have hpos := length_pos_iff.mpr hne
  rw [hsame, length_map, length_append] at hk
  rcases length_encodeTrailer trailer with ⟨hzero, rfl⟩ | hone | ⟨truncated, nextOffset, rfl, hnine⟩
  · exact ⟨by omega, Or.inl rfl⟩
  · rcases hlast with rfl | ⟨rfl, -, hdvd⟩
    · omega
    · rw [length_nil] at hk
      omega
  · have hk' : k = 8 ∧ t.length = 1 ∧ entries.length = 1 := by
      rcases hlast with rfl | ⟨rfl, -, hdvd⟩
      · omega
      · rw [length_nil] at hk
        omega
    obtain ⟨rfl, ht, hlen⟩ := hk'
    refine ⟨hlen, Or.inr ?_⟩
    obtain ⟨e, rfl⟩ := length_eq_one_iff.mp hlen
    rw [map_singleton, flatten_singleton] at hmany
    obtain ⟨u', hhash, hsig⟩ := trailing_of_read_chunk hmany
    -- The flag is the lowest byte of the size of an empty string.
    have htruncated : truncated = false := by
      rcases hhash with ⟨hnil, -⟩ | hhash
      · cases hnil
      · have hflag : flag truncated = 0 := (List.cons.inj hhash).1
        cases truncated with
        | false => rfl
        | true => cases hflag
    -- One byte is left for the flag, and none for the cursor.
    have hoffset : nextOffset = 0 := by
      obtain ⟨v, rfl⟩ := length_eq_one_iff.mp ht
      have hu : u = [] := by
        have hone := consumes_u8 [v] b u ((run_trailing_eq_ok.mp hb).resolve_left (by simp)).2
        exact (List.cons.inj hone).2.symm
      rw [hu] at hnext
      exact (Prod.mk.inj (Except.ok.inj hnext)).1.symm
    rw [htruncated, hoffset]

end OldTransitResponse

/-! ## Entries of a ledger delta -/

namespace LedgerEntrySummary

variable {e : LedgerEntrySummary}

lemma consumes_v1 : Consumes [] readV1 encodeV1 :=
  consumes_i64.bind fun _ => consumes_u8.bind fun _ => consumes_bytes.bind fun _ =>
    consumes_bytes.bind fun _ => consumes_bytes.bind fun _ => consumes_bytes.bind fun _ =>
      consumes_bytes.bind fun _ => consumes_i64.bind fun _ => consumes_u32.bind fun _ =>
        consumes_bytes.bind fun _ => consumes_bytes.bind fun _ => Consumes.pure rfl

lemma consumes_chunk : Consumes [] readChunk encodeChunk :=
  consumes_v1.bind fun _ => consumes_bytes.bind fun _ => consumes_u64.bind fun _ =>
    consumes_u32.bind fun _ => consumes_u32.bind fun _ => Consumes.pure rfl

/-- What comes out of the first version is as its initial values have it. -/
lemma yields_v1 : Yields readV1 fun e => e.SizedV1 ∧ e.whole = e :=
  yields_skip fun _ => yields_skip fun _ => yields_bytes.bind fun _ hkeyHash =>
    yields_bytes.bind fun _ hentry => yields_bytes.bind fun _ hprev =>
      yields_bytes.bind fun _ horigin => yields_bytes.bind fun _ hsignature =>
        yields_skip fun _ => yields_skip fun _ =>
          yields_bytes.bind fun _ hcollection => yields_bytes.bind fun _ hkey =>
            Yields.pure
              ⟨⟨hkeyHash, hentry, hprev, horigin, hsignature, hcollection, hkey⟩, rfl⟩

lemma yields_chunk :
    Yields readChunk fun e => (e.SizedV1 ∧ Fits e.transitHolder) ∧ e.untailed = e := by
  refine yields_v1.bind fun e he => yields_bytes.bind fun _ hholder => yields_skip fun _ =>
    yields_skip fun _ => yields_skip fun _ =>
      Yields.pure ⟨⟨he.1, hholder⟩, ?_⟩
  rw [← he.2]
  rfl

lemma sized_whole (h : e.SizedV1) : e.whole.Sized :=
  ⟨h, fits_nil, show (0 : UInt32) < 1 by decide, fits_nil⟩

variable {raw : LedgerEntrySummary}

/-- What the check lets through. -/
lemma checkChunk_eq_ok (h : raw.checkChunk = .ok e) :
    e = raw.withChunkTotal ∧ e.transitChunkIndex < e.transitChunkTotal := by
  rw [checkChunk] at h
  split_ifs at h with hrange
  obtain rfl := Except.ok.inj h
  exact ⟨rfl, UInt32.not_le.mp hrange⟩

lemma length_encodeChunk_of_check (h : raw.checkChunk = .ok e) :
    raw.encodeChunk.length = e.encodeChunk.length := by
  rw [(checkChunk_eq_ok h).1, withChunkTotal]
  split_ifs
  · simp only [encodeChunk, encodeV1, length_append, length_u32]
  · rfl

lemma sizedV1_withChunkTotal :
    e.withChunkTotal.SizedV1 ∧ Fits e.withChunkTotal.transitHolder ↔
      e.SizedV1 ∧ Fits e.transitHolder := by
  rw [withChunkTotal]
  split_ifs
  · rfl
  · rfl

/-- The parts an entry is read from. -/
lemma run_read_cases {s s' : Bytes} (h : read.run s = .ok (e, s')) :
    ∃ (raw : LedgerEntrySummary) (t : Bytes), s = raw.encodeChunk ++ t ∧
      (raw.SizedV1 ∧ Fits raw.transitHolder) ∧ raw.checkChunk = .ok e.untailed ∧
      (ByteReader.trailing [] ByteReader.bytes).run t = .ok (e.aclJson, s') := by
  obtain ⟨raw, t, hraw, h⟩ := run_bind_eq_ok.mp h
  obtain ⟨checked, t', hcheck, h⟩ := run_bind_eq_ok.mp h
  obtain ⟨acl, u, hacl, h⟩ := run_bind_eq_ok.mp h
  obtain ⟨rfl, rfl⟩ := Prod.mk.inj (Except.ok.inj h)
  obtain ⟨hsized, huntailed⟩ := yields_chunk s raw t hraw
  obtain ⟨hok, rfl⟩ := run_lift_eq_ok hcheck
  have hchecked : checked.untailed = checked := by
    have heq := checkChunk_untailed (e := raw)
    rw [huntailed, hok] at heq
    split_ifs at heq
    rw [Except.ok.inj heq]
    rfl
  refine ⟨raw, t', consumes_chunk s raw t' hraw, hsized, ?_, hacl⟩
  rw [hok, ← hchecked]
  rfl

lemma yields_read : Yields read Sized := by
  intro s e s' hrun
  obtain ⟨raw, t, -, hsized, hcheck, hacl⟩ := run_read_cases hrun
  obtain ⟨heq, hchunk⟩ := checkChunk_eq_ok hcheck
  rw [← sizedV1_withChunkTotal, ← heq] at hsized
  exact ⟨hsized.1, hsized.2, hchunk, yields_trailing fits_nil yields_bytes t _ s' hacl⟩

/-- The bytes used up by an entry that comes out with an empty trailing field. -/
lemma length_read {s s' : Bytes} (h : read.run s = .ok (e, s')) (hbare : e.untailed = e) :
    ∃ k, s.length = e.encodeChunk.length + k + s'.length ∧
      (k = 4 ∨ s' = [] ∧ k < 4 ∧ 4 ∣ k) := by
  obtain ⟨raw, t, hs, -, hcheck, hacl⟩ := run_read_cases h
  rw [hs, length_append, length_encodeChunk_of_check hcheck, hbare]
  rw [← hbare] at hacl
  rcases trailing_bytes_cases hacl with ⟨rfl, -, rfl⟩ | rfl
  · exact ⟨0, by simp, Or.inr ⟨rfl, by decide, by decide⟩⟩
  · refine ⟨4, ?_, Or.inl rfl⟩
    simp only [untailed, length_append, length_bytes_nil]
    omega

/-- What is left of an entry that ends at the chunk fields. -/
lemma run_read_chunk (h : e.untailed.Sized) (rest : Bytes) :
    read.run (e.encodeChunk ++ rest) = (do
      let aclJson ← ByteReader.trailing [] ByteReader.bytes
      pure { e.untailed with aclJson } : ByteReader LedgerEntrySummary).run rest := by
  have hchunk : e.untailed.transitChunkIndex < e.untailed.transitChunkTotal := h.2.2.1
  have hcheck : e.untailed.checkChunk = .ok e.untailed := by
    rw [checkChunk, withChunkTotal_of_lt hchunk, if_neg (UInt32.not_le.mpr hchunk)]
  have hv1 : e.SizedV1 := h.1
  have hholder : Fits e.transitHolder := h.2.1
  rw [read, (reads_chunk hv1 hholder).run_bind, hcheck]
  rfl

/-- Two entries whose trailing fields come out empty cannot share four zero bytes at the end: the
chunk count of the second one would be read as its index. -/
lemma encodeChunk_shift (hcheck : raw.checkChunk = .ok e.untailed)
    (h : e.encodeChunk ++ bytes [] = bytes [] ++ raw.encodeChunk) :
    False := by
  have hzero : bytes [] = u32 0 := rfl
  have hinj : ∀ a b : UInt32, u32 a = u32 b → a = b := fun a b hab =>
    (Reads.cancel (r := []) (s := []) (reads_u32 a) (reads_u32 b) (by rw [hab])).1
  simp only [hzero, encodeChunk, ← append_assoc] at h
  obtain ⟨h, htotal⟩ := append_inj' h (by simp only [length_u32])
  obtain ⟨-, hindex⟩ := append_inj' h (by simp only [length_u32])
  obtain ⟨heq, hlt⟩ := checkChunk_eq_ok hcheck
  have hraw : raw.withChunkTotal = { raw with transitChunkTotal := 1 } := by
    rw [withChunkTotal, if_pos (hinj _ _ htotal).symm]
  have hsame : e.untailed.transitChunkIndex = raw.transitChunkIndex := by
    rw [heq, hraw]
  have hlt' : e.untailed.transitChunkIndex < e.transitChunkTotal := hlt
  rw [hsame, ← hinj _ _ hindex] at hlt'
  exact UInt32.lt_irrefl _ hlt'

end LedgerEntrySummary

/-! ## Ledger deltas -/

namespace LedgerDeltaPayload

lemma decode_v2 : decode (u32 kLedgerDeltaMagicV2 ++ s) =
    decodeWith readV2 (u32 kLedgerDeltaMagicV2 ++ s) := by
  rw [decode, if_pos (hasMagic_append _ _)]

/-- What is decoded fits. -/
lemma sized_of_decode {bytes : Bytes} {p : LedgerDeltaPayload} (h : decode bytes = .ok p) :
    p.Sized := by
  have hv1 : Yields readV1 Sized :=
    yields_skip fun _ => (yields_counted LedgerEntrySummary.yields_v1).bind
      fun entries hentries => Yields.pure ⟨⟨hentries.1, fun e he => by
        rw [← (hentries.2 e he).2]
        exact LedgerEntrySummary.sized_whole (hentries.2 e he).1⟩, fits_nil⟩
  have hv2 : Yields readV2 Sized :=
    yields_skip fun _ => yields_skip fun _ =>
      (yields_counted LedgerEntrySummary.yields_read).bind fun _ hentries =>
        (yields_trailing fits_nil yields_bytes).bind fun _ hsig => Yields.pure ⟨hentries, hsig⟩
  obtain ⟨rest, hrun⟩ := decodeWith_eq_ok.mp h
  split_ifs at hrun
  · exact hv2 _ _ _ hrun
  · exact hv1 _ _ _ hrun

end LedgerDeltaPayload

namespace OldLedgerDelta

open LedgerDeltaPayload
open LedgerEntrySummary (encodeChunk encodeV1 untailed whole run_read_chunk length_read
  run_read_cases length_encodeChunk_of_check encodeChunk_shift)

/-- The lowest byte of the magic number is no flag. -/
lemma hasMagic_flag (b : Bool) (n : UInt32) (rest : Bytes) :
    hasMagic (u8 (flag b) ++ (u32 n ++ rest)) kLedgerDeltaMagicV2 = false := by
  rw [hasMagic, decide_eq_false_iff_not]
  rintro ⟨-, hvalue⟩
  have hmod := congrArg (· % 256) hvalue
  have hcons : (u8 (flag b) ++ (u32 n ++ rest)).take 4 =
      flag b :: (u32 n ++ rest).take 3 := rfl
  have hlow : kLedgerDeltaMagicV2.toNat % 256 = 50 := by decide
  have hflag : (flag b).toNat < 2 := by cases b <;> decide
  simp only [hcons, leValue, hlow] at hmod
  omega

variable {entries : List LedgerEntrySummary} {hashesOnly : Bool}

lemma v1_recovered (hsized : (v1 entries hashesOnly).expected.Sized) :
    (v1 entries hashesOnly).Recovered := by
  have hlen : Fits entries := by
    have hlen := hsized.1.1
    rwa [expected, Fits, length_map] at hlen
  have hentries : Reads (ByteReader.counted LedgerEntrySummary.readV1)
      (counted encodeV1 entries)
      (entries.map whole) :=
    reads_counted_map hlen fun e he => LedgerEntrySummary.reads_v1
      (hsized.1.2 e.whole (mem_map_of_mem he)).1
  have hmagic : hasMagic (v1 entries hashesOnly).encode kLedgerDeltaMagicV2 = false :=
    hasMagic_flag _ _ _
  rw [Recovered, decode, hmagic, if_neg Bool.false_ne_true]
  have hread : Reads readV1 (v1 entries hashesOnly).encode
      { entries := entries.map whole
        hashesOnly := decide (flag hashesOnly ≠ 0) } :=
    (reads_u8 _).bind hentries.map
  rw [decide_flag_ne_zero] at hread
  exact decodeWith_of_reads hread

lemma unsigned_recovered (hsized : (unsigned entries hashesOnly).expected.Sized) :
    (unsigned entries hashesOnly).Recovered := by
  have hentries : Reads (ByteReader.counted LedgerEntrySummary.read)
      (counted LedgerEntrySummary.encode entries) entries :=
    reads_counted hsized.1.1 fun e he => LedgerEntrySummary.reads_entry (hsized.1.2 e he)
  rw [Recovered, encode, decode_v2, decodeWith_eq_ok]
  refine ⟨[], ?_⟩
  rw [readV2, (reads_u32 _).run_bind, (reads_u8 _).run_bind, decide_flag_ne_zero]
  exact run_bind_eq_ok.mpr ⟨entries, [], hentries.run_eq, rfl⟩

variable {tipSignature : Option Bytes}

lemma listless_recovered (hsized : (listless entries hashesOnly tipSignature).expected.Sized)
    (h : (listless entries hashesOnly tipSignature).Unambiguous) :
    (listless entries hashesOnly tipSignature).Recovered := by
  rw [Recovered, encode, decode_v2, decodeWith_eq_ok]
  refine ⟨[], ?_⟩
  rw [readV2, (reads_u32 _).run_bind, (reads_u8 _).run_bind, decide_flag_ne_zero]
  rcases h with rfl | ⟨hone, htip⟩
  · have hnil : Reads (ByteReader.counted LedgerEntrySummary.read)
        (counted encodeChunk []) [] :=
      reads_counted (by decide) nofun
    rw [hnil.run_bind]
    cases tipSignature with
    | none => rfl
    | some signature =>
      have hfits : Fits signature := hsized.2
      exact run_bind_eq_ok.mpr ⟨signature, [], (reads_trailing_bytes hfits).run_eq, rfl⟩
  · obtain ⟨e, rfl⟩ := length_eq_one_iff.mp hone
    have he : e.untailed.Sized := hsized.1.2 _ (mem_singleton_self _)
    have hread : LedgerEntrySummary.read.run (e.encodeChunk ++ encodeTip tipSignature) =
        .ok (e.untailed, []) := by
      rw [run_read_chunk he]
      rcases htip with rfl | rfl
      · rfl
      · rfl
    have hexpected : (listless [e] hashesOnly tipSignature).expected =
        { entries := [e.untailed], hashesOnly, tipSignature := [] } := by
      rcases htip with rfl | rfl
      · rfl
      · rfl
    rw [hexpected]
    exact run_bind_eq_ok.mpr ⟨_, [], run_counted_one hread, rfl⟩

variable {n : ℕ}

/-- The bytes used up by entries that come out with empty trailing fields. -/
lemma length_entries (hbare : ∀ e ∈ entries, e.untailed = e) (hne : entries ≠ []) {s s' : Bytes}
    (hrun : (many LedgerEntrySummary.read n).run s = .ok (entries, s')) :
    ∃ k, s.length + 4 = (entries.map encodeChunk).flatten.length +
      4 * entries.length + k + s'.length ∧ (k = 4 ∨ s' = [] ∧ k < 4 ∧ 4 ∣ k) := by
  have hpos : ∀ e : LedgerEntrySummary, 0 < e.encodeChunk.length := fun e => by
    rw [encodeChunk, length_append, length_u32]
    omega
  rw [length_flatten, map_map, Function.comp_def]
  exact length_many hpos (fun s e s' => length_read) hbare hne hrun

/-- Two entries that end at the chunk fields do not come out of their bytes and an empty string. -/
lemma not_read_pair {e₁ e₂ : LedgerEntrySummary}
    (h : (many LedgerEntrySummary.read n).run (e₁.encodeChunk ++ (e₂.encodeChunk ++
      bytes [])) = .ok ([e₁.untailed, e₂.untailed], [])) : False := by
  have hn := yields_many_length _ n _ _ _ h
  obtain rfl : n = 2 := hn.symm
  obtain ⟨e, t₁, hread₁, h⟩ := run_bind_eq_ok.mp h
  obtain ⟨es, t₃, h, hpure⟩ := run_bind_eq_ok.mp h
  obtain ⟨heq, rfl⟩ := Prod.mk.inj (Except.ok.inj hpure)
  obtain ⟨rfl, rfl⟩ := List.cons.inj heq
  obtain ⟨e, t₂, hread₂, h⟩ := run_bind_eq_ok.mp h
  obtain ⟨heq, rfl⟩ := Prod.mk.inj (Except.ok.inj h)
  obtain ⟨rfl, -⟩ := List.cons.inj heq
  obtain ⟨raw₁, r₁, hs₁, -, hcheck₁, hacl₁⟩ := run_read_cases hread₁
  obtain ⟨raw₂, r₂, hs₂, -, hcheck₂, -⟩ := run_read_cases hread₂
  obtain ⟨-, hr₁⟩ := append_inj hs₁ (length_encodeChunk_of_check hcheck₁).symm
  rcases trailing_bytes_cases hacl₁ with ⟨hempty, -⟩ | hshift
  · rw [hempty] at hr₁
    exact bytes_ne_nil _ (append_eq_nil_iff.mp hr₁).2
  rw [hs₂, ← hr₁] at hshift
  have htotal := congrArg List.length hshift
  have hlen₂ : raw₂.encodeChunk.length = e₂.encodeChunk.length :=
    (length_encodeChunk_of_check hcheck₂ :)
  simp only [length_append, length_bytes_nil] at htotal
  have hr₂ : r₂ = [] := by
    have hzero : (bytes e₁.untailed.aclJson).length = 4 := length_bytes_nil
    rw [← length_eq_zero_iff]
    omega
  rw [hr₂, append_nil] at hshift
  exact encodeChunk_shift hcheck₂ hshift

/-- Of the lists whose entries end at the chunk fields, those that are recovered. -/
lemma listless_unambiguous (h : (listless entries hashesOnly tipSignature).Recovered) :
    (listless entries hashesOnly tipSignature).Unambiguous := by
  by_cases hne : entries = []
  · exact Or.inl hne
  refine Or.inr ?_
  rw [Recovered, encode, decode_v2] at h
  obtain ⟨rest, hrun⟩ := decodeWith_eq_ok.mp h
  rw [counted, readV2, (reads_u32 _).run_bind,
    (reads_u8 _).run_bind, append_assoc, ByteReader.counted, bind_assoc,
    (reads_u32 _).run_bind] at hrun
  obtain ⟨decoded, t, hmany, hrun⟩ := run_bind_eq_ok.mp hrun
  obtain ⟨signature, t', hsig, hrun⟩ := run_bind_eq_ok.mp hrun
  obtain ⟨heq, rfl⟩ := Prod.mk.inj (Except.ok.inj hrun)
  obtain rfl : decoded = entries.map untailed :=
    congrArg LedgerDeltaPayload.entries heq
  obtain rfl : signature = tipSignature.getD [] := congrArg LedgerDeltaPayload.tipSignature heq
  have hbare : ∀ e ∈ entries.map untailed, e.untailed = e := by
    intro e he
    obtain ⟨e', -, rfl⟩ := mem_map.mp he
    rfl
  have hsame : (entries.map untailed).map encodeChunk =
      entries.map encodeChunk := by
    rw [map_map]
    rfl
  obtain ⟨k, hk, hlast⟩ := length_entries hbare (mt map_eq_nil_iff.mp hne) hmany
  have hpos := length_pos_iff.mpr hne
  rw [hsame, length_map, length_append] at hk
  cases tipSignature with
  | none =>
    rw [encodeTip, length_nil] at hk
    exact ⟨by omega, Or.inl rfl⟩
  | some signature =>
    rw [encodeTip, length_bytes] at hk
    rcases trailing_bytes_cases hsig with ⟨rfl, hempty, -⟩ | ht
    · obtain rfl : signature = [] := hempty
      rw [length_nil] at hk
      have hcases : entries.length = 1 ∨ entries.length = 2 := by omega
      rcases hcases with hone | htwo
      · exact ⟨hone, Or.inr rfl⟩
      · obtain ⟨e₁, e₂, rfl⟩ := length_eq_two.mp htwo
        simp only [map_cons, map_nil, flatten_cons, flatten_nil,
          append_nil, append_assoc] at hmany
        exact (not_read_pair hmany).elim
    · have htlen := congrArg List.length ht
      rw [length_append, Option.getD_some, length_bytes] at htlen
      rcases hlast with rfl | ⟨rfl, -, -⟩
      · omega
      · rw [length_nil] at htlen
        omega

end OldLedgerDelta

/-! ## The result -/

lemma OldTransitResponse.recovered_iff (m : OldTransitResponse) :
    m.Recovered ↔ m.expected.Sized ∧ m.Unambiguous := by
  refine ⟨fun h => ⟨TransitResponsePayload.sized_of_decode h, ?_⟩, fun ⟨hsized, h⟩ => ?_⟩
  · cases m with
    | v1 entries truncated => exact v1_unambiguous h
    | unattested entries trailer => exact unattested_unambiguous h
    | uncursored entries truncated => trivial
  · cases m with
    | v1 entries truncated => exact v1_recovered hsized h
    | unattested entries trailer => exact unattested_recovered hsized h
    | uncursored entries truncated => exact uncursored_recovered hsized

lemma OldLedgerDelta.recovered_iff (m : OldLedgerDelta) :
    m.Recovered ↔ m.expected.Sized ∧ m.Unambiguous := by
  refine ⟨fun h => ⟨LedgerDeltaPayload.sized_of_decode h, ?_⟩, fun ⟨hsized, h⟩ => ?_⟩
  · cases m with
    | v1 entries hashesOnly => trivial
    | listless entries hashesOnly tipSignature => exact listless_unambiguous h
    | unsigned entries hashesOnly => trivial
  · cases m with
    | v1 entries hashesOnly => exact v1_recovered hsized
    | listless entries hashesOnly tipSignature => exact listless_recovered hsized h
    | unsigned entries hashesOnly => exact unsigned_recovered hsized

/-- **The messages of earlier peers that are recovered**: those whose fields fit the layout and are
not mistaken for one another. -/
theorem old_layouts_iff (response : OldTransitResponse) (delta : OldLedgerDelta) :
    (TransitResponsePayload.decode response.encode = .ok response.expected ↔
        response.expected.Sized ∧ response.Unambiguous) ∧
      (LedgerDeltaPayload.decode delta.encode = .ok delta.expected ↔
        delta.expected.Sized ∧ delta.Unambiguous) :=
  ⟨response.recovered_iff, delta.recovered_iff⟩

/-- A ledger entry, of a peer whose entries end at the chunk fields. -/
def sampleSummary (entryId : Int64) : LedgerEntrySummary where
  entryId
  operation := .kPut
  keyHash := [1]
  entryHash := [2]
  prevHash := [3]
  originNodeId := [4]
  originSignature := [5]
  hlcPhysicalMs := 6
  hlcLogical := 7
  collection := text "c"
  key := text "k"
  transitHolder := []
  transitSizeBytes := 0
  transitChunkIndex := 0
  transitChunkTotal := 1

/-- Two well-formed entries that end at the chunk fields are not recovered, neither in a transit
response nor in a ledger delta. -/
theorem two_old_entries_misread :
    (TransitResponsePayload.decode (OldTransitResponse.unattested
        (List.replicate 2 PayloadType.sampleEntry) (some (false, some 0))).encode).toOption ≠
          some { entries := List.replicate 2 PayloadType.sampleEntry.untailed } ∧
      (LedgerDeltaPayload.decode (OldLedgerDelta.listless
        [sampleSummary 0, sampleSummary 1] false (some [8])).encode).toOption ≠
          some { entries := [sampleSummary 0, sampleSummary 1], tipSignature := [8] } := by
  decide +kernel

end DeSentry
