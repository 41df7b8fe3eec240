import Mathlib.Data.Finset.Insert
import RoomSpeaker.Foundation.CString

/-!
# Finding the server (`udpdisc.cpp`, both sides)

The server answers a request with its host name and its address.  The client
looks for the colon in what it receives and remembers the string that starts two
bytes behind it.

The buffer of a receive is not initialised: what lies behind the terminator,
in the buffer and after it, is an input.  The broadcasts and the waiting are
left out.
-/

namespace RoomSpeaker

open Foundation

/-- `SPK_DISC`. -/
def spkDisc : List Byte := ['X', 'Y', 'Z', 'K'].map ch

/-- `sizeof(buff)-1`, on both sides. -/
def udpRecvSize : Nat := 127

/-- `buff` after `recvfrom` and `buff[n] = 0`; `rest` is what lies behind. -/
def udpBuff (dgram rest : List Byte) : List Byte :=
  dgram.take udpRecvSize ++ 0 :: rest

/-! ## The server -/

/-- What `sprintf` puts between the host name and the address. -/
def replySep : Text := ⟨[':', ' '].map ch, by decide⟩

/-- `out`, printed with `"%s: %s"`. -/
def replyText (hostname ip : Text) : Text := (hostname.append replySep).append ip

/-- `Udper::listen_and_respond` on a readable socket: the datagram sent back.
The request is compared as a string. -/
def listenAndRespond (hostname ip : Text) (request rest : List Byte) :
    Option (List Byte) :=
  if request ≠ [] ∧ (cstr (udpBuff request rest)).chars = spkDisc then
    some (replyText hostname ip).chars
  else none

/-! ## The client -/

/-- One turn of the loop of `discover`: `_is_signaled` gives -1, or there is
nothing to receive, or a datagram. -/
inductive DiscTurn where
  | broken
  | quiet
  | received (dgram rest : List Byte)

/-- A received datagram with the `_remips` it meets. -/
structure Heard where
  remips : Finset Text
  dgram : List Byte
  rest : List Byte

namespace Heard

def buff (r : Heard) : List Byte := udpBuff r.dgram r.rest

/-- `pip`, if it is looked for and found. -/
def pip (r : Heard) : Option Nat :=
  if cstr r.buff ∈ r.remips then none else strchr r.buff (ch ':')

/-- The string at `pip+2`. -/
def inserted (r : Heard) : Option Text :=
  r.pip.map fun p => cstr (r.buff.drop (p + 2))

/-- The index in `buff` at which that string ends: the last byte read. -/
def insertEnd (r : Heard) : Option Nat :=
  r.pip.map fun p => p + 2 + (cstr (r.buff.drop (p + 2))).length

/-- `_remips` afterwards. -/
def next (r : Heard) : Finset Text :=
  match r.inserted with
  | some t => insert t r.remips
  | none => r.remips

end Heard

/-- The turns of the loop: the datagrams that are looked at, and `_remips` in
the end. -/
def discoverLoop : Finset Text → List DiscTurn → List Heard × Finset Text
  | remips, [] => ([], remips)
  | remips, .broken :: _ => ([], remips)
  | remips, .quiet :: ts => discoverLoop remips ts
  | remips, .received dgram rest :: ts =>
      if dgram = [] then discoverLoop remips ts
      else
        let r : Heard := ⟨remips, dgram, rest⟩
        let d := discoverLoop r.next ts
        (r :: d.1, d.2)

/-- `Udper::discover` once its sockets are open. -/
def discover (remips : Finset Text) (turns : List DiscTurn) :
    List Heard × Finset Text :=
  discoverLoop remips (turns.take 64)

end RoomSpeaker
