import DeSentry.Properties.TransitRecovery
import DeSentry.Properties.WalCodec

/-!
# The codecs of the persistent records

A node writes three kinds of record: entries of the ledger (in two layouts), envelopes of the
transit store and entries of the outbox.  Each has its own decoder.  `record_codecs_iff` says that a
record comes back from its own decoder as it was, and from no decoder as anything else, exactly when
the lengths of its byte strings survive the cast to 32 bits and it has no field that its layout does
not write (`StoredRecord.Carried`).

Between the kinds the magic numbers decide, whatever the fields are (`decode_of_kind_ne`).
-/

namespace DeSentry

open ByteCodec ByteWriter

/-! ## What comes out of a decoder -/

namespace TransitEnvelope

variable {e : TransitEnvelope}

lemma yields_optional : Yields readOptional (·.length < 2 ^ 32) := by
  refine yields_skip fun n => ?_
  split_ifs
  · exact yields_bytes
  · exact Yields.pure (Nat.two_pow_pos _)

/-- The fields of the later versions are sized. -/
lemma yields_striping (version : UInt32) (h : e.Sized) :
    Yields (if version = 1 then pure (some e) else readStriping version e) fun o =>
      ∀ e', o = some e' → e'.Sized := by
  obtain ⟨howner, hcoll, hkey, hhash, hdoc, hholder, -, -, -⟩ := id h
  split_ifs
  · exact Yields.pure fun e' he' => Option.some.inj he' ▸ h
  · refine yields_skip fun _ => yields_skip fun _ =>
      yields_skip fun _ => ?_
    split_ifs
    · exact Yields.pure nofun
    · refine yields_optional.bind fun _ hmessage => yields_optional.bind fun _ hcontent =>
        yields_optional.bind fun _ hsig => Yields.pure fun e' he' => ?_
      obtain rfl := Option.some.inj he'
      exact ⟨howner, hcoll, hkey, hhash, hdoc, hholder, hmessage, hcontent, hsig⟩
    · refine yields_optional.bind fun _ hmessage => Yields.pure fun e' he' => ?_
      obtain rfl := Option.some.inj he'
      exact ⟨howner, hcoll, hkey, hhash, hdoc, hholder, hmessage, Nat.two_pow_pos _,
        Nat.two_pow_pos _⟩

lemma yields_readBody : Yields readBody fun result => ∀ e, result = .ok (.hold e) → e.Sized := by
  refine yields_skip fun magic => ?_
  split_ifs
  · exact Yields.pure nofun
  refine yields_skip fun version => ?_
  split_ifs
  · exact Yields.pure nofun
  refine yields_skip fun kind => ?_
  split_ifs
  · refine yields_skip fun owner => yields_skip fun keyHash =>
      yields_skip fun n => ?_
    split_ifs <;> exact Yields.pure nofun
  · exact Yields.pure nofun
  · refine yields_bytes.bind fun _ howner => yields_bytes.bind fun _ hcoll =>
      yields_bytes.bind fun _ hkey => yields_bytes.bind fun _ hhash => yields_bytes.bind fun _ hdoc =>
      yields_bytes.bind fun _ hholder => yields_skip fun _ =>
      yields_skip fun _ => (yields_striping version ⟨howner, hcoll, hkey, hhash, hdoc,
        hholder, Nat.two_pow_pos _, Nat.two_pow_pos _, Nat.two_pow_pos _⟩).bind fun o ho => ?_
    cases o with
    | none => exact Yields.pure nofun
    | some e' =>
      refine yields_skip fun n => ?_
      split_ifs
      · exact Yields.pure nofun
      · exact Yields.pure nofun
      · refine Yields.pure fun e'' he'' => ?_
        obtain rfl := Decoded.hold.inj (Except.ok.inj he'')
        exact ho e' rfl

lemma sized_of_decode {bytes : Bytes} (h : decode bytes = .ok e) : e.Sized := by
  unfold decode at h
  split at h
  · cases h
  · cases h
  · cases h
  · rename_i e' rest hrun
    obtain rfl := Except.ok.inj h
    exact yields_readBody _ _ _ hrun e' rfl

end TransitEnvelope

namespace OutboxEntry

variable {e : OutboxEntry}

lemma yields_readBody : Yields readBody fun result => ∀ e, result = .ok e → e.Sized := by
  refine yields_skip fun magic => ?_
  split_ifs
  · exact Yields.pure nofun
  refine yields_skip fun version => ?_
  split_ifs
  · exact Yields.pure nofun
  refine yields_skip fun kind => ?_
  split_ifs
  · exact Yields.pure nofun
  · exact Yields.pure nofun
  · refine yields_bytes.bind fun _ hcoll => yields_bytes.bind fun _ hkey =>
      yields_bytes.bind fun _ hhash => yields_bytes.bind fun _ hdoc => yields_skip fun _ =>
      yields_skip fun _ => yields_bytes.bind fun _ hnode => yields_skip fun _ =>
      yields_skip fun n => ?_
    split_ifs
    · exact Yields.pure nofun
    · exact Yields.pure nofun
    · refine Yields.pure fun e he => ?_
      obtain rfl := Except.ok.inj he
      exact ⟨hcoll, hkey, hhash, hdoc, hnode⟩

lemma sized_of_decode {bytes : Bytes} (h : decode bytes = .ok e) : e.Sized := by
  unfold decode at h
  split at h
  · cases h
  · rename_i answer rest hrun
    exact yields_readBody _ _ _ hrun e h

end OutboxEntry

/-! ## The three kinds -/

/-- The kinds of persistent record. -/
inductive StoredKind where
  | ledger
  | transit
  | outbox
  deriving DecidableEq

/-- A persistent record. -/
inductive StoredRecord where
  | ledger (r : WalRecord)
  | transit (e : TransitEnvelope)
  | outbox (e : OutboxEntry)
  deriving DecidableEq

/-- The decoder of a kind. -/
def StoredKind.decode : StoredKind → Bytes → Except Status StoredRecord
  | ledger, body => (decodeBody body).map .ledger
  | transit, body => (TransitEnvelope.decode body).map .transit
  | outbox, body => (OutboxEntry.decode body).map .outbox

namespace StoredRecord

def kind : StoredRecord → StoredKind
  | ledger _ => .ledger
  | transit _ => .transit
  | outbox _ => .outbox

/-- The encoded body. -/
def encode : StoredRecord → Bytes
  | ledger r => encodeBody r
  | transit e => e.encode
  | outbox e => e.encode

/-- A record as its writer makes it. -/
def Valid : StoredRecord → Prop
  | ledger r => r.prevHash.length = kWalHashLen ∧ r.entryHash.length = kWalHashLen ∧ r.ChunksOk
  | transit e => e.Valid
  | outbox e => e.collection ≠ [] ∧ e.keyHash.length = kWalHashLen

/-- The encoding carries every field: the lengths survive the cast to 32 bits, and of the entries of
the ledger only an intent has routing fields. -/
def Carried : StoredRecord → Prop
  | ledger r => (∀ b ∈ r.blobs, b.length < 2 ^ 32) ∧ (r.type ≠ .kTransitIntent → r.Whole)
  | transit e => e.Sized
  | outbox e => e.Sized

/-- The magic number of a body. -/
def magic : StoredRecord → UInt32
  | ledger r => bodyMagic r
  | transit _ => TransitEnvelope.kTransitMagic
  | outbox _ => OutboxEntry.kOutboxMagic

lemma exists_encode_eq (x : StoredRecord) : ∃ rest, x.encode = u32 x.magic ++ rest := by
  cases x with
  | ledger r => exact ⟨_, encodeBody_eq r⟩
  | transit e => exact ⟨_, TransitEnvelope.encode_eq⟩
  | outbox e => exact ⟨_, OutboxEntry.encode_eq⟩

/-- The magic number tells the kinds apart. -/
lemma decode_of_kind_ne {x : StoredRecord} {kind : StoredKind} (h : kind ≠ x.kind)
    (y : StoredRecord) : kind.decode x.encode ≠ .ok y := by
  obtain ⟨rest, hrest⟩ := x.exists_encode_eq
  rw [hrest]
  cases kind with
  | ledger =>
    have hne : x.magic ≠ kWalRecordMagicV2 ∧ x.magic ≠ kWalRecordMagicV3 := by
      cases x with
      | ledger r => exact absurd rfl h
      | transit e => simp only [magic]; decide
      | outbox e => simp only [magic]; decide
    rw [StoredKind.decode, decodeBody, readBody, (reads_u32 _).run_bind, if_pos hne]
    rintro ⟨⟩
  | transit =>
    have hne : x.magic ≠ TransitEnvelope.kTransitMagic := by
      cases x with
      | ledger r => rw [magic, bodyMagic]; split_ifs <;> decide
      | transit e => exact absurd rfl h
      | outbox e => simp only [magic]; decide
    rw [StoredKind.decode, TransitEnvelope.decode, TransitEnvelope.readBody, (reads_u32 _).run_bind,
      if_pos hne]
    rintro ⟨⟩
  | outbox =>
    have hne : x.magic ≠ OutboxEntry.kOutboxMagic := by
      cases x with
      | ledger r => rw [magic, bodyMagic]; split_ifs <;> decide
      | transit e => simp only [magic]; decide
      | outbox e => exact absurd rfl h
    rw [StoredKind.decode, OutboxEntry.decode, OutboxEntry.readBody, (reads_u32 _).run_bind,
      if_pos hne]
    rintro ⟨⟩

lemma eq_ok_of_map {α : Type} {x : Except Status α} {a : α} {f : α → StoredRecord}
    (hf : Function.Injective f) (h : x.map f = .ok (f a)) : x = .ok a := by
  cases x with
  | error st => cases h
  | ok b => rw [hf (Except.ok.inj h)]

/-- A record comes back from its own decoder exactly when the encoding carries all of it. -/
lemma decode_encode_iff {x : StoredRecord} (h : x.Valid) :
    x.kind.decode x.encode = .ok x ↔ x.Carried := by
  cases x with
  | ledger r =>
    obtain ⟨hprev, hentry, hchunks⟩ := h
    refine ⟨fun hdecode => ?_, fun ⟨hblobs, hwhole⟩ => ?_⟩
    · rw [kind] at hdecode
      have hbody := eq_ok_of_map (fun _ _ => ledger.inj) hdecode
      have hwf := (decodesWell_decodeBody _ r hbody).1
      exact ⟨hwf.blobs_lt, hwf.whole⟩
    · have hwf : r.WellFormed := ⟨hblobs, hprev, hentry, hwhole⟩
      rw [kind, encode, StoredKind.decode, (decodeBody_encodeBody hwf).1 hchunks]
      rfl
  | transit e =>
    refine ⟨fun hdecode => ?_, fun hsized => ?_⟩
    · rw [kind, StoredKind.decode] at hdecode
      exact TransitEnvelope.sized_of_decode (eq_ok_of_map (fun _ _ => transit.inj) hdecode)
    · rw [kind, encode, StoredKind.decode, TransitEnvelope.decode,
        TransitEnvelope.run_readBody_encode h hsized]
      rfl
  | outbox e =>
    refine ⟨fun hdecode => ?_, fun hsized => ?_⟩
    · rw [kind, StoredKind.decode] at hdecode
      exact OutboxEntry.sized_of_decode (eq_ok_of_map (fun _ _ => outbox.inj) hdecode)
    · rw [kind, encode, StoredKind.decode, OutboxEntry.decode_encode h.1 h.2 hsized]
      rfl

/-- **The persistent codecs**: a record comes back as it was, and no decoder reads anything else
from its body, exactly when the encoding carries all of it. -/
theorem record_codecs_iff (x : StoredRecord) (h : x.Valid) :
    (x.kind.decode x.encode = .ok x ∧
        ∀ (kind : StoredKind) (y : StoredRecord), kind.decode x.encode = .ok y → y = x) ↔
      x.Carried := by
  rw [← decode_encode_iff h]
  refine ⟨fun hboth => hboth.1, fun hown => ⟨hown, fun kind y hy => ?_⟩⟩
  by_cases hkind : kind = x.kind
  · rw [hkind, hown] at hy
    exact (Except.ok.inj hy).symm
  · exact absurd hy (decode_of_kind_ne hkind y)

/-- An intent with its routing fields. -/
def sampleRouted : WalRecord where
  type := .kTransitIntent
  prevHash := List.replicate 32 1
  entryHash := List.replicate 32 2
  transitHolder := [3]
  positionBound := true

theorem record_codecs_sample :
    StoredKind.ledger.decode (encodeBody sampleRouted) = .ok (.ledger sampleRouted) :=
  ((record_codecs_iff (.ledger sampleRouted) ⟨rfl, rfl, by decide⟩).mpr
    ⟨by decide, fun h => absurd rfl h⟩).1

/-- A key of `2 ^ 32` bytes does not come back. -/
theorem long_key_not_carried : ∃ e : OutboxEntry, (outbox e).Valid ∧
    OutboxEntry.decode e.encode ≠ .ok e := by
  refine ⟨{ collection := [99], key := List.replicate (2 ^ 32) 0, keyHash := List.replicate 32 0
            encodedDoc := [], hlc := {} }, ⟨List.cons_ne_nil _ _, rfl⟩, fun h => ?_⟩
  have hkey := (OutboxEntry.sized_of_decode h).2.1
  rw [List.length_replicate] at hkey
  exact lt_irrefl _ hkey

end StoredRecord

end DeSentry
