import Scaffold.Archive.Crc32
import Scaffold.Archive.Entry
import Scaffold.Archive.Header
import Scaffold.Archive.Sink

/-!
# Writing archives

Entries are written one after another, each path at most once. The content of an entry reaches the sink
before its write ends, but what closes the entry, its trailer and the sizes in its header, is written
with the next entry or at the end of the archive. A failure there is charged to the entry that it
closes, and every other failure to the entry that is being written.
-/

namespace Scaffold

inductive SinkError where
  | noSpace
  | closed
  | tooLarge
  deriving DecidableEq, Repr

def SinkError.message : SinkError → String
  | .noSpace => "no space left on device"
  | .closed => "ZipWriter was already closed"
  | .tooLarge => "Large file option has not been set"

inductive WriteError where
  | duplicate (path : String)
  | sink (path : String) (cause : SinkError)
  deriving DecidableEq, Repr

/-- What the writer is in the middle of: nothing, an entry of whose packed content `pending` has not
reached the sink, or an entry that was given up. -/
inductive Stage where
  | idle
  | filling (content pending : Bytes)
  | broken
  deriving DecidableEq, Repr

/-- An archive in the making. `attempted` are all paths that were ever to be written, last first,
`accepted` those that were, last first. `openPath` is the entry that is not closed yet. `members` are the
entries whose header was written, last first. -/
structure Writer where
  sink : Sink := {}
  attempted : List String := []
  accepted : List String := []
  openPath : Option String := none
  members : List Member := []
  stage : Stage := .idle
  deriving DecidableEq, Repr

namespace Writer

def paths (w : Writer) : List String :=
  w.accepted.reverse

def setRoom (w : Writer) (room : Option Nat) : Writer :=
  { w with sink := { w.sink with room } }

def closeContent (codec : Codec) (w : Writer) : Writer × Except SinkError Unit :=
  match w.stage with
  | .idle => (w, .ok ())
  | .broken => (w, .error .closed)
  | .filling content pending =>
    let (sink, lost) := w.sink.put (pending ++ codec.trailer content)
    if lost.isEmpty then ({ w with sink, stage := .idle }, .ok ())
    else ({ w with sink, stage := .broken }, .error .noSpace)

/-- Writes checksum and sizes into the header of the last entry, which ends at the position. -/
def closeHeader (w : Writer) : Writer × Except SinkError Unit :=
  match w.members with
  | [] => (w, .ok ())
  | last :: earlier =>
    let fileEnd := w.sink.position
    let start := last.offset + Zip.localHeaderSize + last.name.length
    let last := { last with packedSize := fileEnd - start }
    let members := last :: earlier
    let (sink, lost) := (w.sink.seek (last.offset + Zip.checksumOffset)).put (littleEndian 4 last.crc.toNat)
    if !lost.isEmpty then ({ w with sink, members }, .error .noSpace)
    else if fileEnd < start ∨ Zip.max32 < last.packedSize then ({ w with sink, members }, .error .tooLarge)
    else
      let (sink, lost) := sink.put (littleEndian 4 last.packedSize ++ littleEndian 4 last.size)
      if !lost.isEmpty then ({ w with sink, members }, .error .noSpace)
      else ({ w with sink := sink.seek fileEnd, members }, .ok ())

def close (codec : Codec) (w : Writer) : Writer × Except SinkError Unit :=
  match w.closeContent codec with
  | (w, .ok ()) => w.closeHeader
  | failed => failed

/-- Writes the header of a new entry, which closes the entry before it. -/
def start (codec : Codec) (w : Writer) (e : Entry) : Writer × Except SinkError Unit :=
  match w.close codec with
  | (w, .ok ()) =>
    let header : Member :=
      { name := Text.encode e.path, unixMode := e.unixMode, offset := w.sink.position }
    let (sink, lost) := w.sink.put (Zip.localHeader header)
    if lost.isEmpty then
      ({ w with
          sink
          stage := .filling [] []
          members := { header with crc := Crc32.checksum e.content, size := e.content.length } :: w.members },
       .ok ())
    else ({ w with sink }, .error .noSpace)
  | failed => failed

def fill (codec : Codec) (w : Writer) (content : Bytes) : Writer × Except SinkError Unit :=
  if Zip.max32 < content.length then ({ w with stage := .broken }, .error .tooLarge)
  else
    let (sink, lost) := w.sink.put (codec.body content)
    ({ w with sink, stage := .filling content lost }, if lost.isEmpty then .ok () else .error .noSpace)

def write (codec : Codec) (w : Writer) (e : Entry) : Writer × Except WriteError Unit :=
  if e.path ∈ w.attempted then (w, .error (.duplicate e.path))
  else
    let closing := w.openPath
    let w := { w with attempted := e.path :: w.attempted, openPath := none }
    match w.start codec e with
    | (w, .error cause) => (w, .error (.sink (closing.getD e.path) cause))
    | (w, .ok ()) =>
      match { w with openPath := some e.path }.fill codec e.content with
      | (w, .error cause) => (w, .error (.sink e.path cause))
      | (w, .ok ()) => ({ w with accepted := e.path :: w.accepted }, .ok ())

def writeAll (codec : Codec) (w : Writer) : List Entry → Writer × Except WriteError Unit
  | [] => (w, .ok ())
  | e :: rest =>
    match w.write codec e with
    | (w, .ok ()) => writeAll codec w rest
    | failed => failed

/-- What a failure at the end of an archive is charged to when no entry is open. -/
def directoryName : String := "<central directory>"

/-- Closes the last entry, writes the central directory, and gives the bytes of the archive. -/
def finish (codec : Codec) (w : Writer) : Except WriteError Bytes :=
  let charged := w.openPath.getD directoryName
  match w.close codec with
  | (_, .error cause) => .error (.sink charged cause)
  | (w, .ok ()) =>
    let (sink, lost) := w.sink.put (Zip.directory w.members.reverse w.sink.position)
    if lost.isEmpty then .ok sink.bytes else .error (.sink charged .noSpace)

end Writer

end Scaffold
