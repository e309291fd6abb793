import DeSentry.Framework.ByteCodec

/-!
# Results (`common/status.h`)

`StatusOr<T>` is `Except Status T`: a value, or a status that is not OK.  Functions out of which
an exception can escape return `Except Failure` instead.  Messages are byte strings, since paths
and node ids are spliced into them unchecked.
-/

namespace DeSentry

open ByteCodec

/-- The codes of `enum class StatusCode` an error can carry. -/
inductive StatusCode where
  | notFound
  | alreadyExists
  | invalidArgument
  | ioError
  | corruption
  | outOfSpace
  | schemaViolation
  | authError
  | networkError
  | internal
  deriving DecidableEq, Repr

/-- A `Status` that is not OK. -/
structure Status where
  code : StatusCode
  message : Bytes
  deriving DecidableEq, Repr

/-- How a call ends without a result. -/
inductive Failure where
  | status (s : Status)
  /-- An exception left the function; its text is the standard library's. -/
  | thrown
  deriving DecidableEq, Repr

/-- The bytes of an ASCII literal. -/
def text (s : String) : Bytes := s.toList.map fun ch => UInt8.ofNat ch.toNat

/-- `std::to_string` of a signed integer. -/
def toText (i : Int64) : Bytes :=
  if i.toInt < 0 then text "-" ++ decimal i.toInt.natAbs else decimal i.toInt.natAbs

/-- A hexadecimal digit. -/
def hexDigit (n : UInt8) : UInt8 := if n < 10 then 48 + n else 87 + n

/-- `HexEncode`. -/
def hexEncode (bytes : Bytes) : Bytes :=
  bytes.flatMap fun b : UInt8 => [hexDigit (b / 16), hexDigit (b % 16)]

/-- A sequence of fallible steps succeeds when each does. -/
lemma bind_eq_ok {ε α β : Type} {x : Except ε α} {f : α → Except ε β} {b : β} :
    (x >>= f) = .ok b ↔ ∃ a, x = .ok a ∧ f a = .ok b := by
  cases x with
  | error e =>
    constructor
    · intro h
      cases h
    · rintro ⟨a, h, -⟩
      cases h
  | ok a =>
    constructor
    · exact fun h => ⟨a, rfl, h⟩
    · rintro ⟨a', h, hf⟩
      obtain rfl := Except.ok.inj h
      exact hf

lemma mapError_eq_ok {ε ε' α : Type} {x : Except ε α} {f : ε → ε'} {a : α} :
    x.mapError f = .ok a ↔ x = .ok a := by
  cases x <;> simp [Except.mapError]

end DeSentry
