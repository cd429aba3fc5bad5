import Scaffold.Archive.Codec

/-!
# Headers of a zip archive

A zip archive is a sequence of local headers, each with the packed content of its entry, then a central
header for each entry, then an end record. Counts and sizes that do not fit the end record are given by
a wider record before it. Names are stored as they are; the field for their length has 16 bits.
-/

namespace Scaffold

structure Member where
  name : Bytes
  unixMode : Nat
  offset : Nat
  crc : UInt32 := 0
  packedSize : Nat := 0
  size : Nat := 0
  deriving DecidableEq, Repr

namespace Zip

/-- The first four bytes of a local header. -/
def localMark : Nat := 0x04034B50

/-- The first four bytes of a central header. -/
def centralMark : Nat := 0x02014B50

/-- The first four bytes of the end record. -/
def endMark : Nat := 0x06054B50

/-- The first four bytes of the wide end record. -/
def wideEndMark : Nat := 0x06064B50

/-- The first four bytes of the record that locates the wide end record. -/
def locatorMark : Nat := 0x07064B50

/-- The version of the format that is needed for packed contents. -/
def versionNeeded : Nat := 20

/-- The version of the format that is needed for wide records. -/
def wideVersion : Nat := 45

/-- The system that gives modes their meaning, and the version of the format. -/
def versionMadeBy : Nat := 3 * 256 + 46

def deflated : Nat := 8

def fixedTime : Nat := 0

/-- The first of January 1980, the earliest date. -/
def fixedDate : Nat := 1 * 32 + 1

/-- The greatest number of a field of two bytes. -/
def max16 : Nat := 0xFFFF

/-- The greatest number of a field of four bytes. -/
def max32 : Nat := 0xFFFFFFFF

/-- Flags of an entry: whether its name is UTF-8 beyond ASCII. -/
def flags (name : Bytes) : Nat :=
  if name.all (· < 0x80) then 0 else 0x0800

/-- The bytes of a local header before the checksum. -/
def checksumOffset : Nat := 14

/-- The bytes of a local header before the name. -/
def localHeaderSize : Nat := 30

/-- Checksum and sizes, the fields that are known when an entry is closed. -/
def closingFields (crc : UInt32) (packedSize size : Nat) : Bytes :=
  littleEndian 4 crc.toNat ++ littleEndian 4 packedSize ++ littleEndian 4 size

def localHeader (m : Member) : Bytes :=
  littleEndian 4 localMark ++ littleEndian 2 versionNeeded ++ littleEndian 2 (flags m.name) ++
    littleEndian 2 deflated ++ littleEndian 2 fixedTime ++ littleEndian 2 fixedDate ++
    closingFields m.crc m.packedSize m.size ++
    littleEndian 2 m.name.length ++ littleEndian 2 0 ++ m.name

/-- The extra field of a central header for an offset that does not fit. -/
def wideOffset (offset : Nat) : Bytes :=
  if offset < max32 then [] else littleEndian 2 1 ++ littleEndian 2 8 ++ littleEndian 8 offset

def centralHeader (m : Member) : Bytes :=
  let extra := wideOffset m.offset
  littleEndian 4 centralMark ++ littleEndian 2 versionMadeBy ++ littleEndian 2 versionNeeded ++
    littleEndian 2 (flags m.name) ++ littleEndian 2 deflated ++ littleEndian 2 fixedTime ++
    littleEndian 2 fixedDate ++ closingFields m.crc m.packedSize m.size ++
    littleEndian 2 m.name.length ++ littleEndian 2 extra.length ++ littleEndian 2 0 ++
    littleEndian 2 0 ++ littleEndian 2 0 ++ littleEndian 4 (m.unixMode * 0x10000) ++
    littleEndian 4 (min m.offset max32) ++ m.name ++ extra

/-- The wide end record and the record that locates it. -/
def wideEnd (count size offset : Nat) : Bytes :=
  littleEndian 4 wideEndMark ++ littleEndian 8 44 ++ littleEndian 2 versionMadeBy ++
    littleEndian 2 wideVersion ++ littleEndian 4 0 ++ littleEndian 4 0 ++ littleEndian 8 count ++
    littleEndian 8 count ++ littleEndian 8 size ++ littleEndian 8 offset ++
    littleEndian 4 locatorMark ++ littleEndian 4 0 ++ littleEndian 8 (offset + size) ++ littleEndian 4 1

/-- The end of an archive whose `count` central headers take `size` bytes from `offset` on. -/
def endRecord (count size offset : Nat) : Bytes :=
  (if count < max16 ∧ size < max32 ∧ offset < max32 then [] else wideEnd count size offset) ++
    littleEndian 4 endMark ++ littleEndian 2 0 ++ littleEndian 2 0 ++
    littleEndian 2 (min count max16) ++ littleEndian 2 (min count max16) ++
    littleEndian 4 (min size max32) ++ littleEndian 4 (min offset max32) ++ littleEndian 2 0

/-- The central headers of an archive and its end, after `offset` bytes of entries. -/
def directory (members : List Member) (offset : Nat) : Bytes :=
  let headers := members.flatMap centralHeader
  headers ++ endRecord members.length headers.length offset

end Zip

end Scaffold
