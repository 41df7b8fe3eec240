import RoomSpeaker.Foundation.LittleEndian

/-!
# Socket addresses (`sock.h`, `struct SADDR_46`)

An address, a port and a mask, the first two in network order.  The host is
little-endian: in memory the most significant byte of a network number comes
first, so as a host integer it has its bytes reversed.

A port 0 stands for any port.  The text `_sip` that goes with the address is
left out; nothing here reads it.
-/

namespace RoomSpeaker

open Foundation

/-! ## Byte order -/

/-- `::htonl`. -/
def htonl (x : BitVec 32) : BitVec 32 :=
  BitVec.ofNat 32 (ofBytes (toBytes 4 x.toNat).reverse)

/-- `::htons`. -/
def htons (x : BitVec 16) : BitVec 16 :=
  BitVec.ofNat 16 (ofBytes (toBytes 2 x.toNat).reverse)

/-! ## The record -/

/-- `SADDR_46`: `sin_addr.s_addr`, `sin_port` and `_mask`. -/
structure Saddr46 where
  sAddr : BitVec 32
  sinPort : BitVec 16
  mask : BitVec 32
  deriving DecidableEq, Repr

/-- `SADDR_46(u_int32_t, u_int16_t, uint32_t)`: the address is stored as it is
given. -/
def Saddr46.ofIp (r : BitVec 32) (port : BitVec 16) (mask : BitVec 32) :
    Saddr46 := ⟨r, htons port, mask⟩

/-- `SADDR_46::set`. -/
def Saddr46.set (s : Saddr46) (r : BitVec 32) (port : BitVec 16) : Saddr46 :=
  { s with sAddr := htonl r, sinPort := htons port }

/-- `SADDR_46::ip4`. -/
def Saddr46.ip4 (s : Saddr46) : BitVec 32 := htonl s.sAddr

/-- `SADDR_46::port`. -/
def Saddr46.port (s : Saddr46) : BitVec 16 := htons s.sinPort

/-! ## Comparison -/

namespace Saddr46

/-- `_mask & r._mask`, an `int32_t`. -/
def commonMask (s r : Saddr46) : BitVec 32 := s.mask &&& r.mask

/-- `sin_addr.s_addr & m`. -/
def masked (s : Saddr46) (m : BitVec 32) : BitVec 32 := s.sAddr &&& m

/-- `bigint` in `==`, `<` and `>`: the address is widened before the mask, a
signed number, is applied to it. -/
def bigint (s : Saddr46) (m : BitVec 32) : BitVec 64 :=
  ((s.sAddr.setWidth 64 &&& m.signExtend 64) <<< 32) ||| s.sinPort.setWidth 64

/-- `bigint` in `!=`: the address is widened after. -/
def bigintNe (s : Saddr46) (m : BitVec 32) : BitVec 64 :=
  ((s.masked m).setWidth 64 <<< 32) ||| s.sinPort.setWidth 64

/-- `operator ==`. -/
def eq (s r : Saddr46) : Bool :=
  let m := s.commonMask r
  if s.sinPort = 0 ∨ r.sinPort = 0 then s.masked m == r.masked m
  else s.bigint m == r.bigint m

/-- `operator !=`.  The ports are left out only if both are 0. -/
def ne (s r : Saddr46) : Bool :=
  let m := s.commonMask r
  if s.sinPort = 0 ∧ r.sinPort = 0 then s.masked m != r.masked m
  else s.bigintNe m != r.bigintNe m

/-- `operator <`. -/
def lt (s r : Saddr46) : Bool :=
  let m := s.commonMask r
  if s.sinPort = 0 ∨ r.sinPort = 0 then (s.masked m).ult (r.masked m)
  else (s.bigint m).ult (r.bigint m)

/-- `operator >`. -/
def gt (s r : Saddr46) : Bool :=
  let m := s.commonMask r
  if s.sinPort = 0 ∨ r.sinPort = 0 then (r.masked m).ult (s.masked m)
  else (r.bigint m).ult (s.bigint m)

end Saddr46

end RoomSpeaker
