import RoomSpeaker.Model.TcpSrv

/-!
# The records `_clean` reads (`tcpsrv.cpp`)

`_clean` looks at the socket of one client after the other.  A closed one is
deleted and erased; then a line for the log is made of its `_index`, used twice,
and its address; then the loop starts over.

The reads are listed in order, each with the map as it is at that moment.
-/

namespace RoomSpeaker

open Foundation

/-- A read of a client's record. -/
structure RecordRead where
  ip : Ip
  clis : KeyMap Ip Clictx

/-- The record read is still in the map. -/
def RecordRead.Live (r : RecordRead) : Prop := r.ip ∈ r.clis.keys

/-- One pass of the first loop, as far as a `goto A`: the map it starts over
with.  Without a closed client the loop ends. -/
def restart (m : KeyMap Ip Clictx) : Option (KeyMap Ip Clictx) :=
  (m.entries.find? fun e => !e.2.isopen).map fun e => m.erase e.1

/-- The sockets a pass looks at: those up to the first that is closed. -/
def socketReads (m : KeyMap Ip Clictx) : List (Ip × Clictx) → List RecordRead
  | [] => []
  | e :: es => ⟨e.1, m⟩ :: if e.2.isopen then socketReads m es else []

/-- The arguments of the log line, read after `delete` and `erase`: `_index`,
`_index` and the address. -/
def logReads (ip : Ip) (m : KeyMap Ip Clictx) : List RecordRead :=
  List.replicate 3 ⟨ip, m⟩

/-- The reads of the first loop; the first argument bounds the number of
passes. -/
def cleanReads : Nat → KeyMap Ip Clictx → List RecordRead
  | 0, _ => []
  | n + 1, m =>
      socketReads m m.entries ++
        match m.entries.find? fun e => !e.2.isopen with
        | some e => logReads e.1 (m.erase e.1) ++ cleanReads n (m.erase e.1)
        | none => []

/-- The reads of a `_clean`.  The last pass erases nobody. -/
def TcpSrv.cleanReads (s : TcpSrv) : List RecordRead :=
  RoomSpeaker.cleanReads (s.clis.size + 1) s.clis

end RoomSpeaker
