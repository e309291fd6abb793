import DeSentry.Construction.Common.Status

/-!
# Encryption at rest (`security/at_rest.cpp`)

The part of it the ledger uses: deriving a file's subkey from the data-encryption key, and
sealing single records.  The primitives are OpenSSL's and enter as a parameter: a digest of 32
bytes, a key derivation of the requested length, and an authenticated cipher that adds 16 bytes
and opens what it sealed.  Nothing else is assumed of them here; where a result needs a digest
without collisions, it says so.

A sealed record is the magic `DSWE`, a fresh 12-byte nonce, then ciphertext and tag.
-/

namespace DeSentry

open ByteCodec List

/-- The primitives of `security/crypto.h`. -/
structure Crypto where
  sha256 : Bytes → Bytes
  length_sha256 : ∀ m, (sha256 m).length = 32
  /-- Arguments: secret, salt, info, output length. -/
  hkdfSha256 : Bytes → Bytes → Bytes → ℕ → Bytes
  length_hkdfSha256 : ∀ secret salt info n, (hkdfSha256 secret salt info n).length = n
  /-- Arguments: key, nonce, plaintext, associated data. -/
  aesGcmSeal : Bytes → Bytes → Bytes → Bytes → Bytes
  aesGcmOpen : Bytes → Bytes → Bytes → Bytes → Option Bytes
  length_aesGcmSeal : ∀ key nonce plaintext aad,
    (aesGcmSeal key nonce plaintext aad).length = plaintext.length + 16
  open_seal : ∀ key nonce plaintext aad,
    aesGcmOpen key nonce (aesGcmSeal key nonce plaintext aad) aad = some plaintext

/-- What `RandomBytes(kPageNonceLen)` returns. -/
abbrev Nonce := { bytes : Bytes // bytes.length = 12 }

namespace AtRest

/-- `kDekLen`. -/
def kDekLen : ℕ := 32

/-- `kPageNonceLen`. -/
def kPageNonceLen : ℕ := 12

/-- `kSealedRecordMagic`: the letters `DSWE`. -/
def kSealedRecordMagic : Bytes := [0x44, 0x53, 0x57, 0x45]

variable (c : Crypto)

/-- `FileSubkey`. -/
def fileSubkey (dek fileTag : Bytes) : Except Status Bytes :=
  if dek.length ≠ kDekLen then .error ⟨.invalidArgument, text "at-rest: DEK must be 32 bytes"⟩
  else .ok (c.hkdfSha256 dek fileTag (text "desentry-at-rest-v1") kDekLen)

/-- `LooksSealedRecord`. -/
def looksSealedRecord (bytes : Bytes) : Bool := bytes.take 4 == kSealedRecordMagic

/-- `SealRecord`; the nonce is the answer of the random generator, or the text of its
exception. -/
def sealRecord (nonce : Except Bytes Nonce) (subkey plaintext aad : Bytes) : Except Status Bytes :=
  if subkey.length ≠ kDekLen then .error ⟨.invalidArgument, text "at-rest: subkey must be 32 bytes"⟩
  else
    match nonce with
    | .error what => .error ⟨.internal, text "at-rest: RNG failure: " ++ what⟩
    | .ok n => .ok (kSealedRecordMagic ++ n.val ++ c.aesGcmSeal subkey n.val plaintext aad)

/-- `OpenRecord`.  A record too short for its nonce makes `substr` throw. -/
def openRecord (subkey sealedBytes aad : Bytes) : Except Failure Bytes :=
  if !looksSealedRecord sealedBytes then
    .error (.status ⟨.corruption, text "at-rest: record is not sealed"⟩)
  else if subkey.length ≠ kDekLen then
    .error (.status ⟨.invalidArgument, text "at-rest: subkey must be 32 bytes"⟩)
  else if sealedBytes.length < 4 + kPageNonceLen then .error .thrown
  else
    let nonce := (sealedBytes.drop 4).take kPageNonceLen
    let ctTag := sealedBytes.drop (4 + kPageNonceLen)
    match c.aesGcmOpen subkey nonce ctTag aad with
    | none => .error (.status ⟨.corruption,
        text "at-rest: record authentication failed (wrong key or tampered file)"⟩)
    | some plaintext => .ok plaintext

variable {c}

variable {nonce : Except Bytes Nonce} {subkey plaintext aad sealedBytes : Bytes}

section Sealed

variable (h : sealRecord c nonce subkey plaintext aad = .ok sealedBytes)
include h

/-- What a sealed record looks like. -/
lemma sealRecord_ok : subkey.length = kDekLen ∧ ∃ n : Nonce, sealedBytes =
      kSealedRecordMagic ++ (n.val ++ c.aesGcmSeal subkey n.val plaintext aad) := by
  unfold sealRecord at h
  split_ifs at h with hkey
  cases nonce with
  | error what => cases h
  | ok n =>
    refine ⟨not_not.mp hkey, n, ?_⟩
    exact (Except.ok.inj h).symm

lemma length_sealRecord : sealedBytes.length = plaintext.length + 32 := by
  obtain ⟨-, n, rfl⟩ := sealRecord_ok h
  rw [length_append, length_append, c.length_aesGcmSeal, n.property]
  show 4 + (12 + (plaintext.length + 16)) = _
  omega

lemma looksSealedRecord_seal : looksSealedRecord sealedBytes = true := by
  obtain ⟨-, n, rfl⟩ := sealRecord_ok h
  rw [looksSealedRecord, take_left' (by rfl), beq_self_eq_true]

/-- Opening what was sealed. -/
lemma openRecord_seal : openRecord c subkey sealedBytes aad = .ok plaintext := by
  have hmagic := looksSealedRecord_seal h
  have hlen := length_sealRecord h
  obtain ⟨hkey, n, rfl⟩ := sealRecord_ok h
  have hnot : ¬ (kSealedRecordMagic ++
      (n.val ++ c.aesGcmSeal subkey n.val plaintext aad)).length < 4 + kPageNonceLen := by
    rw [kPageNonceLen]
    omega
  have hdrop : (kSealedRecordMagic ++ (n.val ++ c.aesGcmSeal subkey n.val plaintext aad)).drop 4
      = n.val ++ c.aesGcmSeal subkey n.val plaintext aad := drop_left' rfl
  simp only [openRecord, hmagic, Bool.not_true, Bool.false_eq_true, if_false, hkey, ne_eq,
    not_true_eq_false, if_neg hnot, ← drop_drop, hdrop]
  rw [take_left' (show n.val.length = kPageNonceLen from n.property),
    drop_left' (show n.val.length = kPageNonceLen from n.property), c.open_seal]

end Sealed

end AtRest

/-- Primitives small enough to compute with: a digest that keeps the first 32 bytes, a cipher
that only appends a tag. -/
def sampleCrypto : Crypto where
  sha256 m := (m ++ List.replicate 32 0).take 32
  length_sha256 m := by simp
  hkdfSha256 _ _ _ n := List.replicate n 0
  length_hkdfSha256 _ _ _ n := by simp
  aesGcmSeal _ _ plaintext _ := plaintext ++ List.replicate 16 0
  aesGcmOpen _ _ ctTag _ := some (ctTag.take (ctTag.length - 16))
  length_aesGcmSeal _ _ plaintext _ := by simp
  open_seal _ _ plaintext _ := by simp

end DeSentry
