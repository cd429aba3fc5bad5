import Scaffold.Proofs.Archive.History

/-!
# Chunks of a write

What a write puts into the sink, as chunks that each belong to one entry, and the first of them for which the sink has
no room.
-/

namespace Scaffold

/-- What a write puts into the sink, in order. The first three parts belong to the entry before. -/
inductive Part where
  | trailer
  | checksum
  | sizes
  | header
  | content
  deriving DecidableEq, Repr

/-- The part closes the entry before the one that is written. -/
def Part.closes : Part → Bool
  | .trailer | .checksum | .sizes => true
  | .header | .content => false

theorem Part.closes_or (part : Part) : part.closes = true ∨ part = .header ∨ part = .content := by
  cases part <;> simp [Part.closes]

/-- Bytes of an entry, which is given by its name, and their place in the sink. -/
structure Chunk where
  part : Part
  owner : Bytes
  place : Nat
  data : Bytes
  deriving DecidableEq, Repr

/-- Puts chunks in their places, up to the first of which some bytes are lost. -/
def Sink.putChunks (sink : Sink) : List Chunk → Sink × Option Chunk
  | [] => (sink, none)
  | c :: rest =>
    let (sink, lost) := (sink.seek c.place).put c.data
    if lost.isEmpty then sink.putChunks rest else (sink, some c)

/-- The checksum in the header of an entry. -/
def Member.checksumChunk (m : Member) : Chunk :=
  ⟨.checksum, m.name, m.offset + Zip.checksumOffset, littleEndian 4 m.crc.toNat⟩

/-- The sizes in the header of an entry, right after its checksum. -/
def Member.sizesChunk (m : Member) (packedSize : Nat) : Chunk :=
  ⟨.sizes, m.name, m.offset + Zip.checksumOffset + 4, littleEndian 4 packedSize ++ littleEndian 4 m.size⟩

namespace Writer

/-- What the last entry still lacks of its packed content. -/
def missing (codec : Codec) (w : Writer) : Bytes :=
  match w.stage with
  | .filling content pending => pending ++ codec.trailer content
  | _ => []

/-- The name in the header that was written last. -/
def lastName (w : Writer) : Bytes :=
  (w.members.head?.map Member.name).getD []

/-- The header of a new entry at a place. -/
def headerChunk (e : Entry) (place : Nat) : Chunk :=
  let name := Text.encode e.path
  ⟨.header, name, place, Zip.localHeader { name, unixMode := e.unixMode, offset := place }⟩

/-- The content of a new entry at a place, unless it is too large to be begun. -/
def contentChunks (codec : Codec) (e : Entry) (place : Nat) : List Chunk :=
  if Zip.max32 < e.content.length then [] else [⟨.content, Text.encode e.path, place, codec.body e.content⟩]

/-- Checksum and sizes of the last entry, which ends at `fileEnd`, and what comes next. Sizes that cannot be right
are not written, and nothing after them. -/
def closingChunks (w : Writer) (fileEnd : Nat) (next : List Chunk) : List Chunk :=
  match w.members with
  | [] => next
  | last :: _ =>
    let start := last.offset + Zip.localHeaderSize + last.name.length
    last.checksumChunk ::
      if fileEnd < start ∨ Zip.max32 < fileEnd - start then [] else last.sizesChunk (fileEnd - start) :: next

/-- Where the last entry ends. -/
def fileEnd (codec : Codec) (w : Writer) : Nat :=
  w.sink.position + (w.missing codec).length

/-- The chunks of a write, as they are over a sink that takes them all. -/
def chunks (codec : Codec) (w : Writer) (e : Entry) : List Chunk :=
  if w.stage = .broken then []
  else
    let header := headerChunk e (w.fileEnd codec)
    ⟨.trailer, w.lastName, w.sink.position, w.missing codec⟩ ::
      w.closingChunks (w.fileEnd codec) (header :: contentChunks codec e (header.place + header.data.length))

/-- The first chunk of a write for which the sink has no room. -/
def lost (codec : Codec) (w : Writer) (e : Entry) : Option Chunk :=
  (w.sink.putChunks (w.chunks codec e)).2

end Writer

/-! ## Lost chunks -/

namespace Sink

variable {sink : Sink} {c : Chunk}

theorem putChunks_taken (rest : List Chunk) (h : ((sink.seek c.place).put c.data).2.isEmpty = true) :
    sink.putChunks (c :: rest) = ((sink.seek c.place).put c.data).1.putChunks rest := by
  rw [putChunks]
  exact if_pos h

theorem putChunks_lost (rest : List Chunk) (h : ((sink.seek c.place).put c.data).2.isEmpty ≠ true) :
    sink.putChunks (c :: rest) = (((sink.seek c.place).put c.data).1, some c) := by
  rw [putChunks]
  exact if_neg h

theorem lost_mem {chunks : List Chunk} (h : (sink.putChunks chunks).2 = some c) : c ∈ chunks ∧ c.data ≠ [] := by
  induction chunks generalizing sink with
  | nil => cases h
  | cons first rest ih =>
    by_cases htaken : ((sink.seek first.place).put first.data).2.isEmpty = true
    · rw [putChunks_taken rest htaken] at h
      obtain ⟨hmem, hdata⟩ := ih h
      exact ⟨List.mem_cons_of_mem _ hmem, hdata⟩
    · rw [putChunks_lost rest htaken] at h
      cases h
      refine ⟨List.mem_cons_self, fun hdata => htaken ?_⟩
      rw [hdata]
      simp [put]

end Sink

/-! ## Owners -/

namespace Writer

variable {codec : Codec} {w : Writer} {e : Entry} {c : Chunk} {place : Nat}

theorem mem_chunks {e : Entry} {c : Chunk} (h : c ∈ w.chunks codec e) :
    c = ⟨.trailer, w.lastName, w.sink.position, w.missing codec⟩ ∨
      (∃ last ∈ w.members.head?, c = last.checksumChunk ∨ ∃ packedSize, c = last.sizesChunk packedSize) ∨
      ∃ place, c = headerChunk e place ∨ c ∈ contentChunks codec e place := by
  have hopening {place place' : Nat} (hmem : c ∈ headerChunk e place :: contentChunks codec e place') :
      ∃ place, c = headerChunk e place ∨ c ∈ contentChunks codec e place := by
    rcases List.mem_cons.mp hmem with hheader | hcontent
    · exact ⟨place, .inl hheader⟩
    · exact ⟨place', .inr hcontent⟩
  rw [chunks] at h
  split at h
  · cases h
  · rcases List.mem_cons.mp h with htrailer | h
    · exact .inl htrailer
    · rw [closingChunks] at h
      split at h
      · exact .inr (.inr (hopening h))
      · rename_i last earlier hmembers
        have hlast : last ∈ w.members.head? := by rw [hmembers]; rfl
        rcases List.mem_cons.mp h with hchecksum | h
        · exact .inr (.inl ⟨last, hlast, .inl hchecksum⟩)
        · split at h
          · cases h
          · rcases List.mem_cons.mp h with hsizes | h
            · exact .inr (.inl ⟨last, hlast, .inr ⟨_, hsizes⟩⟩)
            · exact .inr (.inr (hopening h))

theorem mem_contentChunks {e : Entry} {place : Nat} {c : Chunk} (h : c ∈ contentChunks codec e place) :
    c = ⟨.content, Text.encode e.path, place, codec.body e.content⟩ := by
  rw [contentChunks] at h
  split at h
  · cases h
  · exact List.mem_singleton.mp h

/-- The chunks that close an entry belong to the last one, and the others to the new one. -/
theorem chunks_owner {e : Entry} {c : Chunk} (h : c ∈ w.chunks codec e) :
    c.owner = if c.part.closes then w.lastName else Text.encode e.path := by
  rcases mem_chunks h with rfl | ⟨last, hlast, hc⟩ | ⟨place, rfl | hc⟩
  · rfl
  · have hname : last.name = w.lastName := by rw [lastName, Option.mem_def.mp hlast]; rfl
    rcases hc with rfl | ⟨packedSize, rfl⟩
    · exact hname
    · exact hname
  · rfl
  · rw [mem_contentChunks hc]
    rfl

end Writer

end Scaffold
