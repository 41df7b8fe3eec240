import RoomSpeaker.Model.Inet

/-!
# Addresses as texts (`sock.h`, `sock.cpp`)

`sip2ip` and `from_string` read an address with its port, `Ip2str` prints one.
`operator>>` writes an address to a file as a line of numbers, `operator<<` reads
such a line.

A text is given by its characters, without the terminator.  The texts are short
enough for the buffers they are copied to.
-/

namespace RoomSpeaker

open Foundation

/-- `0xFFFFFFFF`, the mask of an address without a range. -/
def noMask : BitVec 32 := BitVec.allOnes 32

/-- `"%u.%u.%u.%u:%d"`. -/
def dottedPortFmt : List Directive :=
  dottedFmt ++ [.lit (ch ':'), .conv .int]

/-! ## `sip2ip` -/

/-- `u_int32_t(a<<24|b<<16|c<<8|d)`, after `&=0xff`. -/
def quad (a b c d : BitVec 32) : BitVec 32 :=
  (a &&& 0xff) <<< 24 ||| (b &&& 0xff) <<< 16 ||| (c &&& 0xff) <<< 8 |||
    (d &&& 0xff)

/-- `SADDR_46((u_int32_t)0, 0)`. -/
def Saddr46.zero : Saddr46 := .ofIp 0 0 noMask

/-- `sock::sip2ip`.  With a port in the text, the argument is not used; without
one it is not either. -/
def sip2ip (sip : List Byte) (_port : BitVec 16) : Saddr46 :=
  if sip.head?.any isDigit then
    match decide (ch ':' ∈ sip), sscanf dottedPortFmt sip, sscanf dottedFmt sip with
    | true, [a, b, c, d, e], _ => .ofIp (quad a b c d) (e.setWidth 16) noMask
    | _, _, [a, b, c, d] => .ofIp (quad a b c d) 0 noMask
    | _, _, _ => .zero
  else .zero

/-! ## `from_string` -/

/-- `int(pow(2,n)-1)`.  Below `-53` the difference rounds to -1; from 32 on it is
no `int`, and the result is not defined. -/
def powInt (n : BitVec 32) : Option (BitVec 32) :=
  if n.toInt < -53 then some (-1)
  else if n.toInt ≤ 0 then some 0
  else if n.toInt ≤ 31 then some (BitVec.ofNat 32 (2 ^ n.toNat - 1))
  else none

/-- The mask of a range: `htonl(~msk)`. -/
def rangeMask (bits : BitVec 32) : Option (BitVec 32) :=
  (powInt bits).map fun msk => htonl (~~~msk)

/-- The text before the first `c`, and what follows it. -/
def cutAt (c : Byte) (s : List Byte) : List Byte × Option (List Byte) :=
  (s.takeWhile (· != c),
    if c ∈ s then some (s.dropWhile (· != c)).tail else none)

/-- `SADDR_46::from_string`. -/
def fromString (r : List Byte) (port : BitVec 16) (mask : BitVec 32) :
    Option Saddr46 :=
  let l := cutAt (ch ':') r
  let port := match l.2 with
    | some pp => (atoi pp).setWidth 16
    | none => port
  let host := cutAt (ch '/') l.1
  match host.2 with
  | some pm =>
      (rangeMask (atoi pm)).map fun m => ⟨inetAddr host.1, htons port, m⟩
  | none => some ⟨inetAddr host.1, htons port, mask⟩

/-- `SADDR_46(const char*)`. -/
def Saddr46.ofText (r : List Byte) : Option Saddr46 := fromString r 0 noMask

/-! ## `Ip2str` -/

/-- `Ip2str(const SADDR_46&)`. -/
def ip2str (sa : Saddr46) : List Byte :=
  if sa.sAddr ≠ 0 then
    let dw := htonl sa.sAddr
    sprintf dottedPortFmt
      [(dw >>> 24) &&& 0xff, (dw >>> 16) &&& 0xff, (dw >>> 8) &&& 0xff, dw &&& 0xff,
        (htons sa.sinPort).setWidth 32]
  else ['0', '.', '0', '.', '0', '.', '0', ':', '0'].map ch

/-! ## Lines of a file -/

/-- `"%d:%d"`, without a range. -/
def plainFmt : List Directive := [.conv .int, .lit (ch ':'), .conv .int]

/-- `"%d/%d:%d"`, with one. -/
def rangeFmt : List Directive :=
  [.conv .int, .lit (ch '/'), .conv .int, .lit (ch ':'), .conv .int]

/-- The end of a line. -/
def newline : Byte := 10

/-- `std::getline`. -/
def getline (file : List Byte) : List Byte := file.takeWhile (· != newline)

/-- The loop that counts the low bits of `m` that are set; the first argument
bounds the number of turns. -/
def lowOnes : Nat → BitVec 32 → Nat
  | 0, _ => 0
  | n + 1, m => if m &&& 1 = 1 then lowOnes n (m >>> 1) + 1 else 0

/-- `operator>>`: what is written to the file. -/
def Saddr46.write (s : Saddr46) : List Byte :=
  if s.mask ≠ noMask then
    let bits := BitVec.ofNat 32 (lowOnes 32 (~~~s.mask))
    sprintf (rangeFmt ++ [.lit newline]) [s.ip4, bits, s.port.setWidth 32]
  else sprintf (plainFmt ++ [.lit newline]) [s.ip4, s.port.setWidth 32]

/-- `s.find('/')` as a condition: it holds unless the character comes first.
Where there is none, `npos` is not 0 either. -/
def findsSlash (s : List Byte) : Bool := decide (s.idxOf? (ch '/') ≠ some 0)

/-- `operator<<`.  `bits` is not initialised: its value is an input, as is the
address that is read into. -/
def Saddr46.read (s : Saddr46) (file : List Byte) (bits : BitVec 32) :
    Option Saddr46 :=
  let line := getline file
  if findsSlash line then
    let xs := sscanf rangeFmt line
    let uip := xs.getD 0 0
    let port := xs.getD 2 0
    (rangeMask (xs.getD 1 bits)).map fun m =>
      let s := { s with mask := m }
      if uip ≠ 0 then s.set uip (port.setWidth 16) else s
  else
    let xs := sscanf plainFmt line
    let uip := xs.getD 0 0
    let s := { s with mask := noMask }
    some (if uip ≠ 0 then s.set uip ((xs.getD 1 0).setWidth 16) else s)

end RoomSpeaker
