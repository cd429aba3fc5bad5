import Scaffold.Archive.Crc32
import Scaffold.Archive.Header

/-!
# Reading archives

An archive is read from front to back: the local headers with their contents, the central headers, which
must agree with them and say where they stand, and the end. Nothing may be left over, and every content
must have its checksum and its size.
-/

namespace Scaffold.Zip

structure Header where
  method : Nat
  time : Nat
  date : Nat
  crc : Nat
  packedSize : Nat
  size : Nat
  name : Bytes
  deriving DecidableEq, Repr

structure Item where
  header : Header
  unixMode : Nat
  content : Bytes
  deriving DecidableEq, Repr

/-- A local header and the packed content after it, with the offset at which they stand. -/
structure Found where
  offset : Nat
  header : Header
  packed : Bytes
  deriving DecidableEq, Repr

def readMark (mark : Nat) (bytes : Bytes) : Option Bytes := do
  let (n, rest) ← readLittleEndian 4 bytes
  if n = mark then some rest else none

def readHeader (bytes : Bytes) : Option (Header × Bytes) := do
  let (method, rest) ← readLittleEndian 2 bytes
  let (time, rest) ← readLittleEndian 2 rest
  let (date, rest) ← readLittleEndian 2 rest
  let (crc, rest) ← readLittleEndian 4 rest
  let (packedSize, rest) ← readLittleEndian 4 rest
  let (size, rest) ← readLittleEndian 4 rest
  return (⟨method, time, date, crc, packedSize, size, []⟩, rest)

def readLocal (bytes : Bytes) : Option (Header × Bytes × Bytes) := do
  let rest ← readMark localMark bytes
  let (_, rest) ← readLittleEndian 2 rest
  let (_, rest) ← readLittleEndian 2 rest
  let (header, rest) ← readHeader rest
  let (nameLength, rest) ← readLittleEndian 2 rest
  let (extraLength, rest) ← readLittleEndian 2 rest
  let (name, rest) ← Codec.takeExactly nameLength rest
  let (_, rest) ← Codec.takeExactly extraLength rest
  let (packed, rest) ← Codec.takeExactly header.packedSize rest
  return ({ header with name }, packed, rest)

/-- Reads a central header: what it says of the entry, the mode, and the fields of the offset. -/
def readCentral (bytes : Bytes) : Option (Header × Nat × (Nat × Bytes) × Bytes) := do
  let rest ← readMark centralMark bytes
  let (_, rest) ← readLittleEndian 2 rest
  let (_, rest) ← readLittleEndian 2 rest
  let (_, rest) ← readLittleEndian 2 rest
  let (header, rest) ← readHeader rest
  let (nameLength, rest) ← readLittleEndian 2 rest
  let (extraLength, rest) ← readLittleEndian 2 rest
  let (commentLength, rest) ← readLittleEndian 2 rest
  let (_, rest) ← readLittleEndian 2 rest
  let (_, rest) ← readLittleEndian 2 rest
  let (attributes, rest) ← readLittleEndian 4 rest
  let (offset, rest) ← readLittleEndian 4 rest
  let (name, rest) ← Codec.takeExactly nameLength rest
  let (extra, rest) ← Codec.takeExactly extraLength rest
  let (_, rest) ← Codec.takeExactly commentLength rest
  return ({ header with name }, attributes / 0x10000, (offset, extra), rest)

/-- Reads local headers with their packed contents, from an offset on, as long as there are any; `fuel`
bounds their number. -/
def readLocals : Nat → Nat → Bytes → List Found × Bytes
  | 0, _, bytes => ([], bytes)
  | fuel + 1, offset, bytes =>
    match readLocal bytes with
    | none => ([], bytes)
    | some (header, packed, rest) =>
      let (more, last) := readLocals fuel (offset + (bytes.length - rest.length)) rest
      (⟨offset, header, packed⟩ :: more, last)

def readCentrals (codec : Codec) : List Found → Bytes → Option (List Item × Bytes)
  | [], bytes => some ([], bytes)
  | found :: rest, bytes => do
    let (central, unixMode, place, bytes) ← readCentral bytes
    let content ← codec.expand found.packed
    if central = found.header ∧ place = (min found.offset max32, wideOffset found.offset) ∧
        content.length = central.size ∧ (Crc32.checksum content).toNat = central.crc then
      let (items, bytes) ← readCentrals codec rest bytes
      return (⟨central, unixMode, content⟩ :: items, bytes)
    else none

def read (codec : Codec) (archive : Bytes) : Option (List Item) := do
  let (locals, rest) := readLocals archive.length 0 archive
  let (items, tail) ← readCentrals codec locals rest
  let size := rest.length - tail.length
  let offset := archive.length - rest.length
  if tail = endRecord items.length size offset then some items else none

end Scaffold.Zip
