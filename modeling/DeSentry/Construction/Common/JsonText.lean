import DeSentry.Construction.Common.Json
import DeSentry.Construction.Common.Status

/-!
# Serialized JSON (`common/json.cpp`)

`Dump` writes a value without blanks, the fields of an object in their order.  How a floating
point number is printed is the standard library's and an argument.
-/

namespace DeSentry

open ByteCodec

namespace JsonValue

/-- One byte inside a string literal. -/
def escapeByte (b : UInt8) : Bytes :=
  if b = 34 then text "\\\""
  else if b = 92 then text "\\\\"
  else if b = 10 then text "\\n"
  else if b = 13 then text "\\r"
  else if b = 9 then text "\\t"
  else if b < 32 then text "\\u00" ++ hexEncode [b]
  else [b]

/-- `EscapeStringTo`. -/
def escapeString (s : Bytes) : Bytes := text "\"" ++ s.flatMap escapeByte ++ text "\""

/-- The scalar cases of `DumpTo`. -/
def dumpScalar (showDouble : Double → Bytes) : Scalar → Bytes
  | .null => text "null"
  | .bool b => text (if b then "true" else "false")
  | .int i => toText i
  | .double d => showDouble d
  | .str s => escapeString s

variable (showDouble : Double → Bytes)

mutual
/-- `Dump`. -/
def dump : JsonValue → Bytes
  | .scalar s => dumpScalar showDouble s
  | .array items => text "[" ++ dumpItems items ++ text "]"
  | .object fields => text "\x7b" ++ dumpFields fields ++ text "\x7d"

/-- The items of an array, separated by commas. -/
def dumpItems : List JsonValue → Bytes
  | [] => []
  | [x] => dump x
  | x :: xs => dump x ++ text "," ++ dumpItems xs

/-- The fields of an object, separated by commas. -/
def dumpFields : List (Bytes × JsonValue) → Bytes
  | [] => []
  | [(name, x)] => escapeString name ++ text ":" ++ dump x
  | (name, x) :: fs => escapeString name ++ text ":" ++ dump x ++ text "," ++ dumpFields fs
end

end JsonValue

end DeSentry
