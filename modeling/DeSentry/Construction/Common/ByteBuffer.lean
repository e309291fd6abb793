import DeSentry.Framework.ByteCodec

/-!
# The byte buffers of `common/byte_buffer.h`

`ByteWriter` appends fixed-width integers, length-prefixed blobs and raw bytes; `ByteReader`
takes them off again and throws when the buffer ends early.  A writer call is modelled by the
bytes it appends, so a writer's output is the concatenation of its calls, and a reader is a
`ByteCodec.Reader` whose only failure is the text of the thrown `std::runtime_error`.

The supported hosts are little-endian, so `memcpy` of an integer writes its low-order byte
first.  `Bytes` narrows the length to 32 bits before writing it, which is what makes the blob
round trip conditional on `s.length < 2 ^ 32`.

A `double` is carried as its IEEE-754 bit pattern.  Three operations of it are used: the
bytes `memcpy` sees, the built-in `==`, and the conversion from `int64_t`.
-/

namespace DeSentry

open ByteCodec
open List hiding take

/-! ## Doubles -/

/-- A `double`, as its 64-bit IEEE-754 pattern. -/
structure Double where
  /-- Sign bit, 11 exponent bits, 52 fraction bits. -/
  bits : UInt64
  deriving DecidableEq, Repr

variable (d : Double)

namespace Double

/-- The pattern without its sign bit. -/
def magnitude : ℕ := d.bits.toNat % 2 ^ 63

/-- A not-a-number: an all-ones exponent with a non-zero fraction. -/
def isNaN : Bool := decide (2047 * 2 ^ 52 < d.magnitude)

/-- The built-in `==`: false on a NaN, and the two zeros are equal. -/
def eq (a b : Double) : Bool :=
  !a.isNaN && !b.isNaN && (a.bits == b.bits || (a.magnitude == 0 && b.magnitude == 0))

/-- The significand and exponent of a positive integer, rounded to nearest-even at 53 bits.
The second component counts the powers of two the first has to be scaled by. -/
def roundSignificand (m : ℕ) : ℕ × ℕ :=
  let e := m.log2
  if e ≤ 52 then (m * 2 ^ (52 - e), e)
  else
    let shift := e - 52
    let q := m / 2 ^ shift
    let r := m % 2 ^ shift
    let half := 2 ^ (shift - 1)
    let q' := if half < r ∨ (r = half ∧ q % 2 = 1) then q + 1 else q
    -- Rounding up can carry into a 54th bit; the significand is then a power of two.
    if q' = 2 ^ 53 then (2 ^ 52, e + 1) else (q', e)

/-- `static_cast<double>(int64_t)`. -/
def ofInt (i : Int64) : Double :=
  let m := i.toInt.natAbs
  if m = 0 then ⟨0⟩
  else
    let (significand, e) := roundSignificand m
    let sign := if i.toInt < 0 then 2 ^ 63 else 0
    ⟨UInt64.ofNat (sign + (e + 1023) * 2 ^ 52 + (significand - 2 ^ 52))⟩

example : ofInt 1 = ⟨0x3FF0000000000000⟩ := by decide
example : ofInt (-3) = ⟨0xC008000000000000⟩ := by decide
example : ofInt 9007199254740993 = ofInt 9007199254740992 := by decide

/-- `static_cast<int64_t>` of a double: towards zero.  Outside the range of the type the source
is undefined; the value here is the one x86-64 gives. -/
def toInt64 : Int64 :=
  let exponent := d.magnitude / 2 ^ 52
  let mantissa := 2 ^ 52 + d.magnitude % 2 ^ 52
  let size : ℕ :=
    if exponent < 1023 then 0
    else if exponent < 1075 then mantissa / 2 ^ (1075 - exponent)
    else mantissa * 2 ^ (exponent - 1075)
  let value : ℤ := if d.bits.toNat < 2 ^ 63 then (size : ℤ) else -(size : ℤ)
  if exponent = 2047 ∨ value < -2 ^ 63 ∨ 2 ^ 63 ≤ value then Int64.minValue else Int64.ofInt value

example : (ofInt (-7)).toInt64 = -7 := by decide
example : (Double.mk 0x4045800000000000).toInt64 = 43 := by decide

end Double

/-! ## `ByteWriter` -/

variable {α : Type} (s : Bytes) (v : UInt32)

namespace ByteWriter

/-- `ByteWriter::U8`. -/
def u8 (v : UInt8) : Bytes := [v]

/-- `ByteWriter::U16`. -/
def u16 (v : UInt16) : Bytes := leBytes 2 v.toNat

/-- `ByteWriter::U32`. -/
def u32 : Bytes := leBytes 4 v.toNat

/-- `ByteWriter::U64`. -/
def u64 (v : UInt64) : Bytes := leBytes 8 v.toNat

/-- `ByteWriter::I64`. -/
def i64 (v : Int64) : Bytes := u64 v.toUInt64

/-- `ByteWriter::F64`. -/
def f64 (v : Double) : Bytes := u64 v.bits

/-- `ByteWriter::Bytes`: the length, cast to 32 bits, then the bytes. -/
def bytes : Bytes := u32 (UInt32.ofNat s.length) ++ s

/-- `ByteWriter::RawBytes`. -/
def rawBytes : Bytes := s

/-- A `vector`: its size, cast to 32 bits, then its elements. -/
def counted (put : α → Bytes) (as : List α) : Bytes :=
  u32 (UInt32.ofNat as.length) ++ (as.map put).flatten

@[simp] lemma length_u8 (v : UInt8) : (u8 v).length = 1 := rfl

@[simp] lemma length_u32 : (u32 v).length = 4 := length_leBytes ..

@[simp] lemma length_u64 (v : UInt64) : (u64 v).length = 8 := length_leBytes ..

@[simp] lemma length_i64 (v : Int64) : (i64 v).length = 8 := length_leBytes ..

@[simp] lemma length_bytes : (bytes s).length = s.length + 4 := by
  rw [bytes, length_append, length_u32, Nat.add_comm]

end ByteWriter

/-! ## `ByteReader` -/

/-- A `ByteReader` computation; a failure carries the text of the exception. -/
abbrev ByteReader := Reader String

namespace ByteReader

/-- `ByteReader::Need` followed by the read of `n` bytes; also `ByteReader::RawBytes`. -/
def rawBytes (n : ℕ) : ByteReader Bytes := take "ByteReader: unexpected end of buffer" n

/-- An unsigned little-endian integer of `w` bytes. -/
def uint (w : ℕ) : ByteReader ℕ := do
  let bs ← rawBytes w
  pure (leValue bs)

/-- `ByteReader::U8`. -/
def u8 : ByteReader UInt8 := do
  let n ← uint 1
  pure (UInt8.ofNat n)

/-- `ByteReader::U16`. -/
def u16 : ByteReader UInt16 := do
  let n ← uint 2
  pure (UInt16.ofNat n)

/-- `ByteReader::U32`. -/
def u32 : ByteReader UInt32 := do
  let n ← uint 4
  pure (UInt32.ofNat n)

/-- `ByteReader::U64`. -/
def u64 : ByteReader UInt64 := do
  let n ← uint 8
  pure (UInt64.ofNat n)

/-- `ByteReader::I64`. -/
def i64 : ByteReader Int64 := do
  let v ← u64
  pure v.toInt64

/-- `ByteReader::F64`. -/
def f64 : ByteReader Double := do
  let v ← u64
  pure ⟨v⟩

/-- `ByteReader::Bytes`. -/
def bytes : ByteReader Bytes := do
  let n ← u32
  rawBytes n.toNat

/-- `ByteReader::remaining`. -/
def remaining : ByteReader ℕ := do
  let s ← get
  pure s.length

/-- A trailing field: it keeps its initial value when no bytes remain. -/
def trailing (initial : α) (get : ByteReader α) : ByteReader α := do
  let n ← remaining
  if n > 0 then get else pure initial

/-- A `vector`: its size, then its elements. -/
def counted (get : ByteReader α) : ByteReader (List α) := do
  let n ← u32
  many get n.toNat

end ByteReader

/-! ## The round trips -/

section RoundTrip

lemma reads_rawBytes : Reads (ByteReader.rawBytes s.length) s s :=
  Reads.take _ s

lemma reads_uint {w n : ℕ} (h : n < 256 ^ w) : Reads (ByteReader.uint w) (leBytes w n) n := by
  have hread := reads_rawBytes (leBytes w n)
  rw [length_leBytes] at hread
  have hmap := hread.map (f := leValue)
  rwa [leValue_leBytes, Nat.mod_eq_of_lt h] at hmap

lemma reads_u8 (v : UInt8) : Reads ByteReader.u8 (ByteWriter.u8 v) v := by
  have hv : v.toNat < 256 ^ 1 := v.toNat_lt
  have h := (reads_uint hv).map (f := UInt8.ofNat)
  rwa [UInt8.ofNat_toNat, show leBytes 1 v.toNat = [v] by simp [leBytes]] at h

lemma reads_u16 (v : UInt16) : Reads ByteReader.u16 (ByteWriter.u16 v) v := by
  have hv : v.toNat < 256 ^ 2 := v.toNat_lt
  have h := (reads_uint hv).map (f := UInt16.ofNat)
  rwa [UInt16.ofNat_toNat] at h

lemma reads_u32 : Reads ByteReader.u32 (ByteWriter.u32 v) v := by
  have hv : v.toNat < 256 ^ 4 := v.toNat_lt
  have h := (reads_uint hv).map (f := UInt32.ofNat)
  rwa [UInt32.ofNat_toNat] at h

lemma reads_u64 (v : UInt64) : Reads ByteReader.u64 (ByteWriter.u64 v) v := by
  have hv : v.toNat < 256 ^ 8 := v.toNat_lt
  have h := (reads_uint hv).map (f := UInt64.ofNat)
  rwa [UInt64.ofNat_toNat] at h

lemma reads_i64 (v : Int64) : Reads ByteReader.i64 (ByteWriter.i64 v) v :=
  (reads_u64 v.toUInt64).map

lemma reads_f64 (v : Double) : Reads ByteReader.f64 (ByteWriter.f64 v) v :=
  (reads_u64 v.bits).map

/-- A blob reads back as long as its length survives the cast to 32 bits. -/
lemma reads_bytes {s : Bytes} (h : s.length < 2 ^ 32) :
    Reads ByteReader.bytes (ByteWriter.bytes s) s := by
  refine (reads_u32 _).bind ?_
  rw [UInt32.toNat_ofNat', Nat.mod_eq_of_lt h]
  exact reads_rawBytes s

/-- Asking for the number of bytes left consumes none. -/
lemma run_remaining_bind (f : ℕ → ByteReader α) (s : Bytes) :
    (ByteReader.remaining >>= f).run s = (f s.length).run s := rfl

/-- A trailing field that is there. -/
lemma reads_trailing {initial a : α} {get : ByteReader α} {bytes : Bytes} (h : Reads get bytes a)
    (hne : bytes ≠ []) : Reads (ByteReader.trailing initial get) bytes a := by
  intro rest
  have hpos : (bytes ++ rest).length > 0 := by
    rw [length_append]
    exact Nat.add_pos_left (length_pos_iff.mpr hne) _
  rw [ByteReader.trailing, run_remaining_bind, if_pos hpos]
  exact h rest

/-- A vector reads back as long as its size survives the cast to 32 bits. -/
lemma reads_counted {get : ByteReader α} {put : α → Bytes} {as : List α}
    (hlen : as.length < 2 ^ 32) (h : ∀ a ∈ as, Reads get (put a) a) :
    Reads (ByteReader.counted get) (ByteWriter.counted put as) as := by
  refine (reads_u32 _).bind ?_
  rw [UInt32.toNat_ofNat', Nat.mod_eq_of_lt hlen]
  refine Reads.many (List.forall₂_map_left_iff.mpr ?_)
  exact List.forall₂_same.mpr h

end RoundTrip

/-! ## What readers return and consume -/

section Converse

lemma yields_bytes : Yields ByteReader.bytes (·.length < 2 ^ 32) :=
  yields_skip fun n s a s' hrun => by
    rw [yields_take _ _ s a s' hrun]
    exact n.toNat_lt

lemma yields_trailing {P : α → Prop} {initial : α} {get : ByteReader α} (hinitial : P initial)
    (h : Yields get P) : Yields (ByteReader.trailing initial get) P := by
  intro s a s' hrun
  rw [ByteReader.trailing, run_remaining_bind] at hrun
  split_ifs at hrun
  · exact h s a s' hrun
  · exact Yields.pure hinitial s a s' hrun

lemma yields_counted {P : α → Prop} {get : ByteReader α} (h : Yields get P) :
    Yields (ByteReader.counted get) fun as => as.length < 2 ^ 32 ∧ ∀ a ∈ as, P a :=
  yields_skip fun n s as s' hrun => by
    refine ⟨?_, h.many _ s as s' hrun⟩
    rw [yields_many_length _ _ s as s' hrun]
    exact n.toNat_lt

/-- What an integer is read from are its digits. -/
lemma consumes_uint (w : ℕ) : Consumes [] (ByteReader.uint w) (leBytes w) := by
  intro s n s' hrun
  obtain ⟨bs, t, hbs, hpure⟩ := run_bind_eq_ok.mp hrun
  obtain ⟨rfl, rfl⟩ := Prod.mk.inj (Except.ok.inj hpure)
  have hlen : bs.length = w := yields_take _ _ s bs t hbs
  have hs : s = bs ++ t := consumes_take _ _ s bs t hbs
  rw [← hlen, leBytes_leValue, nil_append, hs]

lemma yields_uint (w : ℕ) : Yields (ByteReader.uint w) (· < 256 ^ w) := by
  intro s n s' hrun
  obtain ⟨bs, t, hbs, hpure⟩ := run_bind_eq_ok.mp hrun
  obtain ⟨rfl, rfl⟩ := Prod.mk.inj (Except.ok.inj hpure)
  exact leValue_lt_of_length (yields_take _ _ s bs t hbs)

/-- A value made of an integer is read from the digits of that integer. -/
lemma consumes_ofUint {w : ℕ} {f : ℕ → α} (toNat : α → ℕ) (hf : ∀ n < 256 ^ w, toNat (f n) = n) :
    Consumes [] (ByteReader.uint w >>= fun n => pure (f n)) fun a => leBytes w (toNat a) := by
  intro s a s' hrun
  obtain ⟨n, t, hn, hpure⟩ := run_bind_eq_ok.mp hrun
  obtain ⟨rfl, rfl⟩ := Prod.mk.inj (Except.ok.inj hpure)
  dsimp only
  rw [hf n (yields_uint w s n t hn)]
  exact consumes_uint w s n t hn

lemma consumes_u8 : Consumes [] ByteReader.u8 ByteWriter.u8 := by
  have h := consumes_ofUint (w := 1) UInt8.toNat fun n hn =>
    UInt8.toNat_ofNat_of_lt hn
  intro s v s' hrun
  rw [h s v s' hrun]
  simp [ByteWriter.u8, leBytes]

lemma consumes_u32 : Consumes [] ByteReader.u32 ByteWriter.u32 :=
  consumes_ofUint UInt32.toNat fun _ hn => UInt32.toNat_ofNat_of_lt hn

lemma consumes_u64 : Consumes [] ByteReader.u64 ByteWriter.u64 :=
  consumes_ofUint UInt64.toNat fun _ hn => UInt64.toNat_ofNat_of_lt hn

lemma consumes_i64 : Consumes [] ByteReader.i64 ByteWriter.i64 :=
  consumes_u64.bind fun _ => Consumes.pure rfl

lemma consumes_bytes : Consumes [] ByteReader.bytes ByteWriter.bytes := by
  intro s bs s' hrun
  obtain ⟨n, t, hn, hbs⟩ := run_bind_eq_ok.mp hrun
  have hlen : bs.length = n.toNat := yields_take _ _ t bs s' hbs
  have ht : t = bs ++ s' := consumes_take _ _ t bs s' hbs
  have hs : s = ByteWriter.u32 n ++ t := consumes_u32 s n t hn
  rw [nil_append, hs, ht, ByteWriter.bytes, hlen, UInt32.ofNat_toNat, append_assoc]

end Converse

end DeSentry
