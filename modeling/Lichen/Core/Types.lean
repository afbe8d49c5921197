import Lichen.Lib.Bits

namespace Lichen.Core

open Lichen.Lib

abbrev PublicKey := List.Vector UInt8 32
abbrev Iid := List.Vector UInt8 8
abbrev Ipv6Addr := List.Vector UInt8 16

instance : LawfulBEq Ipv6Addr := inferInstance

def signatureLen : Nat := 48

abbrev Signature := List.Vector UInt8 signatureLen

structure TooShort where
  expected : Nat
  actual : Nat
  deriving DecidableEq

structure BufferTooSmall where
  needed : Nat
  available : Nat
  deriving DecidableEq

/-- The hash functions and the signature check the code gets from its crypto crates. -/
structure Crypto where
  sha256 : Bytes → List.Vector UInt8 32
  sha512 : Bytes → List.Vector UInt8 64
  verify : PublicKey → Bytes → List.Vector UInt8 48 → Bool

/-- A signature for samples, of the sum of the key and the message. -/
def byteSum (bytes : Bytes) : UInt8 := bytes.foldl (· + ·) 0

def sumSignature (pubkey : PublicKey) (message : Bytes) : List.Vector UInt8 48 :=
  toArray 48 [byteSum (pubkey.toList ++ message)]

def sumVerify (pubkey : PublicKey) (message : Bytes) (signature : List.Vector UInt8 48) : Bool :=
  signature = sumSignature pubkey message

theorem sumVerify_sumSignature (pubkey : PublicKey) (message : Bytes) :
    sumVerify pubkey message (sumSignature pubkey message) = true :=
  decide_eq_true rfl

def iidFromPubkeyBytes (crypto : Crypto) (pubkey : PublicKey) : Iid :=
  let iid := (crypto.sha512 pubkey.toList).toList.take 8
  toArray 8 (iid.modify 0 (· &&& 0b11111101))

def flipUniversalLocal (id : Iid) : Iid :=
  toArray 8 (id.toList.modify 0 (· ^^^ 0x02))

@[simp] theorem flipUniversalLocal_flip : flipUniversalLocal (flipUniversalLocal iid) = iid := by
  have hxor : (fun b : UInt8 => b ^^^ 2) ∘ (· ^^^ 2) = id := by
    funext b
    show (b ^^^ 2) ^^^ 2 = b
    rw [UInt8.xor_assoc, UInt8.xor_self, UInt8.xor_zero]
  rw [flipUniversalLocal, flipUniversalLocal, toList_toArray (by simp), List.modify_modify_eq, hxor,
    List.modify_id, toArray_toList]

/-- The native address of a key: the number of its leading zero bits, then the inverted bits that
follow the first one. -/
def yggAddrFromPubkey (pubkey : PublicKey) : Ipv6Addr :=
  let raw := bits pubkey.toList
  let leadingOnes := (raw.takeWhile (!·)).length
  let packed := packBits ((raw.drop (leadingOnes + 1)).map (!·))
  toArray 16 ([0x02, UInt8.ofNat leadingOnes] ++ packed.take 14)

end Lichen.Core
