import DeSentry.Construction.Common.ByteBuffer

/-!
# Hybrid logical clocks (`crdt/hlc.h`, `crdt/hlc.cpp`)

`HLCTimestamp` is the stamp every CRDT node carries: a physical time in milliseconds, a 32-bit
logical counter and the node id as the final tie-breaker, compared in that order.
`HybridLogicalClock` is the per-node issuer.  Its three operations take the reading of
`WallClockMs()` as an argument, since nothing about the system clock is known to the code; the
mutex makes each of them one step.

The order of `operator<` is a linear order, proved by transporting it along `HLCTimestamp.key`
to the lexicographic product it spells out.
-/

namespace DeSentry

open ByteCodec List

/-! ## Timestamps -/

/-- `struct HLCTimestamp`. -/
structure HLCTimestamp where
  physicalMs : UInt64 := 0
  logical : UInt32 := 0
  /-- The final tie-breaker when the other two fields are equal. -/
  nodeId : Bytes := []
  deriving DecidableEq, Repr

variable (t : HLCTimestamp)

namespace HLCTimestamp

/-- `HLCTimestamp::operator<`. -/
instance : LT HLCTimestamp where
  lt a b :=
    if a.physicalMs ≠ b.physicalMs then a.physicalMs < b.physicalMs
    else if a.logical ≠ b.logical then a.logical < b.logical
    else a.nodeId < b.nodeId

lemma lt_def (a b : HLCTimestamp) : a < b ↔
    if a.physicalMs ≠ b.physicalMs then a.physicalMs < b.physicalMs
    else if a.logical ≠ b.logical then a.logical < b.logical
    else a.nodeId < b.nodeId := Iff.rfl

/-- `HLCTimestamp::operator<=`. -/
instance : LE HLCTimestamp where
  le a b := ¬ b < a

instance : DecidableLT HLCTimestamp := fun a b =>
  decidable_of_iff _ (lt_def a b).symm

instance : DecidableLE HLCTimestamp := fun a b => inferInstanceAs (Decidable (¬ b < a))

/-- The lexicographic triple `operator<` compares. -/
def key : ℕ ×ₗ ℕ ×ₗ Bytes :=
  toLex (t.physicalMs.toNat, toLex (t.logical.toNat, t.nodeId))

lemma key_injective : Function.Injective key := by
  rintro ⟨p, l, n⟩ ⟨p', l', n'⟩ h
  simp only [key, EmbeddingLike.apply_eq_iff_eq, Prod.mk.injEq] at h
  obtain ⟨hp, hl, rfl⟩ := h
  rw [UInt64.toNat_inj.mp hp, UInt32.toNat_inj.mp hl]

lemma lt_iff_key {a b : HLCTimestamp} : a < b ↔ a.key < b.key := by
  rw [lt_def, key, key, Prod.Lex.toLex_lt_toLex, Prod.Lex.toLex_lt_toLex,
    UInt64.lt_iff_toNat_lt, UInt32.lt_iff_toNat_lt]
  by_cases hp : a.physicalMs = b.physicalMs
  · by_cases hl : a.logical = b.logical
    · simp [hp, hl]
    · have hl' : a.logical.toNat ≠ b.logical.toNat := fun h => hl (UInt32.toNat_inj.mp h)
      simp [hp, hl, hl']
  · have hp' : a.physicalMs.toNat ≠ b.physicalMs.toNat := fun h => hp (UInt64.toNat_inj.mp h)
    simp [hp, hp']

lemma le_iff_key {a b : HLCTimestamp} : a ≤ b ↔ a.key ≤ b.key := by
  rw [← not_lt, ← lt_iff_key]
  rfl

instance : LinearOrder HLCTimestamp where
  le_refl a := le_iff_key.mpr le_rfl
  le_trans a b c hab hbc := le_iff_key.mpr ((le_iff_key.mp hab).trans (le_iff_key.mp hbc))
  lt_iff_le_not_ge a b := by
    rw [lt_iff_key, le_iff_key, le_iff_key]
    exact lt_iff_le_not_ge
  le_antisymm a b hab hba :=
    key_injective (le_antisymm (le_iff_key.mp hab) (le_iff_key.mp hba))
  le_total a b := by
    rw [le_iff_key, le_iff_key]
    exact le_total _ _
  toDecidableLE := inferInstance
  toDecidableLT := inferInstance
  toDecidableEq := inferInstance

/-- `HLCTimestamp::Encode`: 8 + 4 little-endian bytes, then the node id to the end. -/
def encode : Bytes :=
  leBytes 8 t.physicalMs.toNat ++ leBytes 4 t.logical.toNat ++ t.nodeId

/-- `HLCTimestamp::Decode`: a short buffer is the default stamp, never an error. -/
def decode (bytes : Bytes) : HLCTimestamp :=
  if bytes.length < 12 then {}
  else
    { physicalMs := UInt64.ofNat (leValue (bytes.take 8))
      logical := UInt32.ofNat (leValue ((bytes.drop 8).take 4))
      nodeId := bytes.drop 12 }

@[simp] lemma length_encode : t.encode.length = t.nodeId.length + 12 := by
  simp only [encode, length_append, length_leBytes]
  omega

lemma decode_encode : decode t.encode = t := by
  have hp : leValue (leBytes 8 t.physicalMs.toNat) = t.physicalMs.toNat := by
    rw [leValue_leBytes]
    exact Nat.mod_eq_of_lt t.physicalMs.toNat_lt
  have hl : leValue (leBytes 4 t.logical.toNat) = t.logical.toNat := by
    rw [leValue_leBytes]
    exact Nat.mod_eq_of_lt t.logical.toNat_lt
  have hlen : ¬ t.encode.length < 12 := by
    rw [length_encode]
    omega
  have h8 : t.encode.take 8 = leBytes 8 t.physicalMs.toNat := by
    rw [encode]
    exact take_left' (length_leBytes ..)
  have hd8 : t.encode.drop 8 = leBytes 4 t.logical.toNat ++ t.nodeId := by
    rw [encode, append_assoc]
    exact drop_left' (length_leBytes ..)
  have h4 : (t.encode.drop 8).take 4 = leBytes 4 t.logical.toNat := by
    exact take_left' (length_leBytes ..)
  have h12 : t.encode.drop 12 = t.nodeId := by
    rw [show (12 : ℕ) = 8 + 4 from rfl, ← drop_drop, hd8]
    exact drop_left' (length_leBytes ..)
  rw [decode, if_neg hlen, h8, h4, h12, hp, hl, UInt64.ofNat_toNat, UInt32.ofNat_toNat]

end HLCTimestamp

/-! ## The clock -/

/-- `UINT32_MAX`. -/
def uint32Max : UInt32 := 4294967295

/-- `HybridLogicalClock`: the issuing node and the last stamp it produced or folded in. -/
structure HybridLogicalClock where
  nodeId : Bytes
  lastPhysical : UInt64 := 0
  lastLogical : UInt32 := 0
  deriving DecidableEq, Repr

variable (c : HybridLogicalClock) (wall : UInt64)

namespace HybridLogicalClock

/-- `kMaxFutureSkewMs`: five minutes. -/
def kMaxFutureSkewMs : UInt64 := 300000

/-- `HybridLogicalClock::Now` at the wall-clock reading `wall`.  The increment of the logical
counter is unsigned 32-bit arithmetic. -/
def now : HybridLogicalClock × HLCTimestamp :=
  let c' :=
    if wall > c.lastPhysical then { c with lastPhysical := wall, lastLogical := 0 }
    else { c with lastLogical := c.lastLogical + 1 }
  (c', ⟨c'.lastPhysical, c'.lastLogical, c'.nodeId⟩)

/-- `HybridLogicalClock::Observe` of `remote` at the wall-clock reading `wall`. -/
def observe (remote : HLCTimestamp) : HybridLogicalClock × Bool :=
  if remote.physicalMs > wall + kMaxFutureSkewMs then (c, false)
  else if c.lastLogical = uint32Max ∨ remote.logical = uint32Max then (c, false)
  else
    let maxPhysical := max (max wall c.lastPhysical) remote.physicalMs
    let logical :=
      if maxPhysical = c.lastPhysical ∧ maxPhysical = remote.physicalMs then
        max c.lastLogical remote.logical + 1
      else if maxPhysical = c.lastPhysical then c.lastLogical + 1
      else if maxPhysical = remote.physicalMs then remote.logical + 1
      else 0
    ({ c with lastPhysical := maxPhysical, lastLogical := logical }, true)

/-- `HybridLogicalClock::Restore`. -/
def restore (physicalMs : UInt64) (logical : UInt32) : HybridLogicalClock :=
  if physicalMs > c.lastPhysical ∨ (physicalMs = c.lastPhysical ∧ logical > c.lastLogical) then
    { c with lastPhysical := physicalMs, lastLogical := logical }
  else c

end HybridLogicalClock

end DeSentry
