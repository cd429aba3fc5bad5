import Scaffold.Text.Utf8

/-!
# Sinks

Where an archive is written: bytes with a position, and room for a number of further writes. Every byte
that is written takes room, also one that replaces another; moving the position takes none.
-/

namespace Scaffold

/-- A sink with room for `room` more bytes, or without limit. -/
structure Sink where
  bytes : Bytes := []
  position : Nat := 0
  room : Option Nat := none
  deriving DecidableEq, Repr

namespace Sink

/-- The part of some data that there is room for. -/
def fitting (room : Option Nat) (data : Bytes) : Bytes :=
  match room with
  | none => data
  | some n => data.take n

/-- Puts bytes at the position, over those that are there. -/
def splice (bytes : Bytes) (position : Nat) (data : Bytes) : Bytes :=
  if position = bytes.length then bytes ++ data
  else bytes.take position ++ data ++ bytes.drop (position + data.length)

/-- Writes as much of the data as there is room for. The data that was lost is the second part of the
result; the write failed if there is any. -/
def put (sink : Sink) (data : Bytes) : Sink × Bytes :=
  let taken := fitting sink.room data
  ({ bytes := splice sink.bytes sink.position taken
     position := sink.position + taken.length
     room := sink.room.map (· - taken.length) },
   data.drop taken.length)

theorem put_unlimited (sink : Sink) (data : Bytes) (h : sink.room = none) :
    sink.put data =
      ({ bytes := splice sink.bytes sink.position data, position := sink.position + data.length, room := none },
       []) := by
  simp [put, fitting, h]

/-- What is written and what is lost make up the data. -/
theorem fitting_append_lost (sink : Sink) (data : Bytes) :
    fitting sink.room data ++ (sink.put data).2 = data := by
  cases h : sink.room with
  | none => simp [put, fitting, h]
  | some n =>
    simp only [put, fitting, h, List.length_take]
    rcases Nat.le_total n data.length with hn | hn
    · rw [Nat.min_eq_left hn, List.take_append_drop]
    · rw [Nat.min_eq_right hn, List.take_of_length_le hn, List.drop_length, List.append_nil]

def seek (sink : Sink) (position : Nat) : Sink :=
  { sink with position }

end Sink

end Scaffold
