import Mathlib.Data.Finset.Card
import Mathlib.Data.Finset.Lattice.Basic
import RoomSpeaker.Foundation.KeyMap
import RoomSpeaker.Model.Inet
import RoomSpeaker.Model.Udper

/-!
# Servers and a client on one network (`udpdisc.cpp`, both sides, `main.cpp`)

A server keeps one `Udper` for each of its interfaces and looks at the interfaces
again from time to time; each `Udper` answers with the address it was made with.
The client goes over its own interfaces four times and collects what it is
answered, until it has an address.

A turn of a server is a step, and so is a call of `discover`, taken when it
returns.  What is sent may be lost, doubled and delivered in any order.  A text from
which `strtok` makes no token gives an empty one here; no interface has such a name.
-/

namespace RoomSpeaker

open Foundation

/-! ## The interfaces -/

/-- An `AF_INET` address, byte by byte as it lies in memory. -/
structure InAddr where
  a : Byte
  b : Byte
  c : Byte
  d : Byte
  deriving DecidableEq, Repr

/-- An entry of `getifaddrs`; without an address it is of another family. -/
structure IfAddr where
  name : Text
  addr : Option InAddr
  deriving DecidableEq

/-- `tmp` of `get_local_ifaces`, if the entry is one to list: the address as
`inet_ntop` prints it, a comma, and the name. -/
def IfAddr.listed (i : IfAddr) : Option Text :=
  match i.addr with
  | some x =>
      if i.name.chars.take 2 ≠ ['l', 'o'].map ch then
        some (cstr (dotted x.a x.b x.c x.d ++ ch ',' :: i.name.chars ++ [0]))
      else none
  | none => none

/-- One turn of its loop; a `std::set` is a map to nothing. -/
def listIface (ifaces : KeyMap Text Unit) (i : IfAddr) : KeyMap Text Unit :=
  match i.listed with
  | some tmp => ifaces.insert tmp ()
  | none => ifaces

/-- `Udper::get_local_ifaces`. -/
def getLocalIfaces (l : List IfAddr) : KeyMap Text Unit :=
  l.foldl listIface KeyMap.empty

/-! ## `Udper` -/

/-- `strtok`: the token, and the string behind its end. -/
def strtok (delim : Byte) (s : List Byte) : List Byte × List Byte :=
  let s := s.dropWhile (· == delim)
  (s.takeWhile (· != delim), (s.dropWhile (· != delim)).tail)

/-- The members of `Udper` that are not its sockets. -/
structure Udper where
  iface : Text
  ip : Text
  remips : Finset Text
  deriving DecidableEq

/-- `Udper::Udper`. -/
def Udper.new (iface : Text) : Udper :=
  if (strchr iface.chars (ch ',')).isSome then
    let ip := strtok (ch ',') iface.chars
    ⟨cstr (strtok (ch ',') ip.2).1, cstr ip.1, ∅⟩
  else ⟨cstr [], cstr [], ∅⟩

/-! ## The server -/

/-- The locals of `Udper::tmain`, and `prev.st_mtime` of `re_interface`. -/
structure Beacon where
  udps : List Udper
  ifs : KeyMap Text Unit
  prev : Int
  hmin : BitVec 32

/-- At the start of `tmain`. -/
def Beacon.init : Beacon := ⟨[], KeyMap.empty, 0, 0xFFFF⟩

/-- What the system gives a turn: `st_mtime` of the file `re_interface` looks at,
0 if there is none; the interfaces; the host name; and for each `Udper` the datagram
on its socket, if there is a socket and a datagram. -/
structure BeaconIn where
  mtime : Int
  ifaddrs : List IfAddr
  hostname : Text
  requests : List (Option (List Byte × List Byte))

/-- `Udper::re_interface`. -/
def Beacon.reInterface (b : Beacon) (i : BeaconIn) : Beacon :=
  if i.mtime ≠ b.prev then
    let ifs := getLocalIfaces i.ifaddrs
    { b with ifs := ifs, udps := ifs.keys.map Udper.new, prev := i.mtime }
  else b

/-- The interfaces are looked at in this turn. -/
def Beacon.due (b : Beacon) : Bool := decide (b.hmin &&& 0xFFFF = 0xFFFF)

/-- The turn up to the loop over `udps`. -/
def Beacon.refresh (b : Beacon) (i : BeaconIn) : Beacon :=
  if b.due then b.reInterface i else b

/-- A turn of `Udper::tmain`. -/
def Beacon.step (b : Beacon) (i : BeaconIn) : Beacon :=
  { b.refresh i with hmin := b.hmin + 1 }

/-- What the turn sends. -/
def Beacon.replies (b : Beacon) (i : BeaconIn) : List (List Byte) :=
  ((b.refresh i).udps.zip i.requests).filterMap fun e =>
    e.2.bind fun r => listenAndRespond i.hostname e.1.ip r.1 r.2

/-! ## The client -/

/-- Where `Udper::join` is: the addresses collected, its `Udper`s, and how many
rounds and calls of this round are behind it. -/
structure Join where
  ipis : Finset Text
  udps : List Udper
  k : Nat
  u : Nat
  deriving DecidableEq

/-- A call of `discover`: whether its sockets are there, and its turns. -/
structure DiscCall where
  opened : Bool
  turns : List DiscTurn

namespace Join

/-- Before the first `join`. -/
def init : Join := ⟨∅, [], 4, 0⟩

/-- The names that stand for interfaces where none are found. -/
def fallback : List Text :=
  [['w', 'l', 'a', 'n', '0'], ['w', 'l', 'a', 'n', '1'], ['e', 't', 'h', '0'],
    ['e', 't', 'h', '1']].map fun s => cstr (s.map ch)

/-- The beginning of `Udper::join`, which `main` calls until it has an address. -/
def start (s : Join) (ifaddrs : List IfAddr) : Join :=
  if 4 ≤ s.k ∧ s.ipis = ∅ then
    let ifs := getLocalIfaces ifaddrs
    let ifs := if ifs.size = 0 then
        fallback.foldl (fun ifs name => ifs.insert name ()) ifs
      else ifs
    { s with udps := ifs.keys.map Udper.new, k := 0, u := 0 }
  else s

/-- On to the next `Udper`, or the next round. -/
def next (s : Join) : Join :=
  if s.u + 1 < s.udps.length then { s with u := s.u + 1 }
  else { s with k := s.k + 1, u := 0 }

/-- `pu->discover()`, and `q_consume` if it returns more than 0. -/
def call (s : Join) (c : DiscCall) : Join :=
  match s.udps[s.u]? with
  | some pu =>
      if s.k < 4 then
        if c.opened then
          let remips := (discover pu.remips c.turns).2
          { s with
            ipis := if 0 < remips.card then s.ipis ∪ remips else s.ipis
            udps := s.udps.set s.u { pu with remips := remips } }.next
        else s.next
      else s
  | none => s

/-- The datagrams the call looks at. -/
def hears (s : Join) (c : DiscCall) : List (List Byte) :=
  match s.udps[s.u]? with
  | some pu =>
      if s.k < 4 ∧ c.opened = true then
        (discover pu.remips c.turns).1.map Heard.dgram
      else []
  | none => []

end Join

/-! ## The network -/

/-- The servers by number, what they have sent, and the client. -/
structure Lan where
  servers : Nat → Beacon
  sent : List (List Byte)
  join : Join

def Lan.init : Lan := ⟨fun _ => Beacon.init, [], Join.init⟩

inductive LanOp where
  | server (k : Nat) (i : BeaconIn)
  | start (ifaddrs : List IfAddr)
  | call (c : DiscCall)

def Lan.step (s : Lan) : LanOp → Lan
  | .server k i =>
      { s with
        servers := fun j => if j = k then (s.servers k).step i else s.servers j
        sent := s.sent ++ (s.servers k).replies i }
  | .start ifaddrs => { s with join := s.join.start ifaddrs }
  | .call c => { s with join := s.join.call c }

end RoomSpeaker
