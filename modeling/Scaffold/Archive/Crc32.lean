import Scaffold.Text.Utf8

/-!
# CRC-32

The checksum of an entry's content: the remainder by the reflected polynomial 0xEDB88320, started from
all ones and inverted at the end.
-/

namespace Scaffold.Crc32

def stepBit (crc : UInt32) : UInt32 :=
  if crc &&& 1 = 1 then (crc >>> 1) ^^^ 0xEDB88320 else crc >>> 1

def stepByte (crc : UInt32) (b : UInt8) : UInt32 :=
  let c := crc ^^^ b.toUInt32
  stepBit (stepBit (stepBit (stepBit (stepBit (stepBit (stepBit (stepBit c)))))))

def checksum (bytes : Bytes) : UInt32 :=
  bytes.foldl stepByte 0xFFFFFFFF ^^^ 0xFFFFFFFF

end Scaffold.Crc32
