import Talon.Constants
import Mathlib.Algebra.Order.Ring.Int

/-! `sockaddr_in` of netinet/in.h and its bytes on a little-endian machine. -/
namespace Talon.Net

/-- The four bytes of an address as they stand in a packet. -/
abbrev InAddr := Fin 4 → UInt8

/-- `sin_port` holds the port's bytes in network order. -/
structure SockaddrIn where
  sinFamily : BitVec 16 := 0
  sinPort : BitVec 16 := 0
  sinAddr : InAddr := fun _ => 0

/-- The low byte comes first in memory. -/
def bytes16 (v : BitVec 16) : List UInt8 := [⟨v.extractLsb' 0 8⟩, ⟨v.extractLsb' 8 8⟩]

def halfword (content : Nat → UInt8) (i : Nat) : BitVec 16 := (content (i + 1)).toBitVec ++ (content i).toBitVec

def htons (v : BitVec 16) : BitVec 16 := v.extractLsb' 0 8 ++ v.extractLsb' 8 8

def ntohs (v : BitVec 16) : BitVec 16 := v.extractLsb' 0 8 ++ v.extractLsb' 8 8

/-- The last eight bytes are `sin_zero`. -/
def SockaddrIn.bytes (addr : SockaddrIn) : List UInt8 :=
  bytes16 addr.sinFamily ++ bytes16 addr.sinPort ++ List.ofFn addr.sinAddr ++ List.replicate 8 0

/-- `reinterpret_cast<sockaddr_in*>` -/
def SockaddrIn.read (content : Nat → UInt8) : SockaddrIn :=
  ⟨halfword content 0, halfword content 2, fun i => content (4 + i)⟩

theorem bytes_length (addr : SockaddrIn) : addr.bytes.length = sockaddrInSize := by
  simp [SockaddrIn.bytes, bytes16, sockaddrInSize]

theorem ntohs_htons (v : BitVec 16) : ntohs (htons v) = v := by
  have low : (htons v).extractLsb' 0 8 = v.extractLsb' 8 8 := BitVec.extractLsb'_append_eq_right
  have high : (htons v).extractLsb' 8 8 = v.extractLsb' 0 8 := BitVec.extractLsb'_append_eq_left
  rw [ntohs, low, high]
  exact BitVec.extractLsb'_append_extractLsb'

/-- What was written is what is read. -/
theorem read_bytes {content : Nat → UInt8} {addr : SockaddrIn}
    (written : ∀ i < sockaddrInSize, content i = addr.bytes.getD i 0) : SockaddrIn.read content = addr := by
  have family : halfword content 0 = addr.sinFamily := by
    rw [halfword, written 0 (by decide), written 1 (by decide)]
    exact BitVec.extractLsb'_append_extractLsb'
  have port : halfword content 2 = addr.sinPort := by
    rw [halfword, written 2 (by decide), written 3 (by decide)]
    exact BitVec.extractLsb'_append_extractLsb'
  have address : (fun i : Fin 4 => content (4 + i)) = addr.sinAddr := by
    funext i
    rw [written (4 + i) (by rw [sockaddrInSize]; omega)]
    match i with
    | 0 | 1 | 2 | 3 => rfl
  rw [SockaddrIn.read, family, port, address]

/-- An `int` loses its upper half on the way to the network and back. -/
theorem ntohs_htons_ofInt (port : Int) : ((ntohs (htons (BitVec.ofInt 16 port))).toNat : Int) = port % 2 ^ 16 := by
  rw [ntohs_htons, BitVec.toNat_ofInt]
  omega

end Talon.Net
