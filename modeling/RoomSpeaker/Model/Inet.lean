import RoomSpeaker.Foundation.Scanf
import RoomSpeaker.Model.Saddr46

/-!
# Dotted addresses (`inet_addr`, `inet_aton`)

The library's reader of addresses.  There are one to four numbers between dots,
each decimal, octal or hexadecimal; the last one fills the bytes that are left.
White space ends the text.
-/

namespace RoomSpeaker

open Foundation

/-- `strtoul` with base 0, on a text that starts with a digit. -/
def scanAuto (s : List Byte) : Option (Nat × List Byte) :=
  if s.head? = some (ch '0') then
    match s.tail with
    | x :: t =>
        if x = ch 'x' ∨ x = ch 'X' then
          some ((scanDigits 16 t).getD (0, x :: t))
        else scanDigits 8 s
    | [] => scanDigits 8 s
  else scanDigits 10 s

/-- The text is at its end, or white space follows. -/
def atEnd (s : List Byte) : Bool := s.head?.all isSpace

/-- The numbers of an address: how many may come at most, the bytes so far, and
the text. -/
def inetParts : Nat → List Byte → List Byte → Option (BitVec 32)
  | 0, _, _ => none
  | n + 1, bytes, s =>
      if s.head?.any isDigit then
        match scanAuto s with
        | none => none
        | some (val, s) =>
            if s.head? = some (ch '.') then
              if 2 < bytes.length ∨ 255 < val then none
              else inetParts n (bytes ++ [BitVec.ofNat 8 val]) s.tail
            else if atEnd s ∧ val < 256 ^ (4 - bytes.length) then
              some (BitVec.ofNat 32 (ofBytes bytes) ||| htonl (BitVec.ofNat 32 val))
            else none
      else none

/-- `inet_aton`. -/
def inetAton (s : List Byte) : Option (BitVec 32) := inetParts 4 [] s

/-- `inet_addr`. -/
def inetAddr (s : List Byte) : BitVec 32 := (inetAton s).getD (BitVec.allOnes 32)

/-- A byte as an argument of a conversion. -/
def octet (b : Byte) : BitVec 32 := b.setWidth 32

/-- `"%u.%u.%u.%u"`. -/
def dottedFmt : List Directive :=
  [.conv .unsigned, .lit (ch '.'), .conv .unsigned, .lit (ch '.'),
    .conv .unsigned, .lit (ch '.'), .conv .unsigned]

/-- The dotted text of an address. -/
def dotted (a b c d : Byte) : List Byte :=
  sprintf dottedFmt [octet a, octet b, octet c, octet d]

end RoomSpeaker
