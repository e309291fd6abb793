import DeSentry.Framework.ByteCodec

/-!
# The checksum of the ledger (`common/crc32.cpp`)

The table-driven CRC-32 of the reflected polynomial `0xEDB88320`.
-/

namespace DeSentry

/-- One step of `MakeTable`. -/
def crcShift (c : UInt32) : UInt32 :=
  if c &&& 1 ≠ 0 then (0xEDB88320 : UInt32) ^^^ (c >>> 1) else c >>> 1

/-- The entry of `kTable` at an index. -/
def kTable (i : UInt8) : UInt32 := Nat.repeat crcShift 8 i.toUInt32

/-- `Crc32`. -/
def crc32 (data : Bytes) : UInt32 :=
  let step (crc : UInt32) (b : UInt8) := kTable (crc ^^^ b.toUInt32).toUInt8 ^^^ (crc >>> 8)
  data.foldl step 0xFFFFFFFF ^^^ (0xFFFFFFFF : UInt32)

-- The check value of this CRC: the checksum of the digits 1 to 9.
example : crc32 [0x31, 0x32, 0x33, 0x34, 0x35, 0x36, 0x37, 0x38, 0x39] = 0xCBF43926 := by
  decide +kernel

end DeSentry
