import Lichen.Core.Types
import Lichen.Lib.Guard

namespace Lichen.Core

open Lichen.Lib

inductive Ipv6Error where
  | tooShort (error : TooShort)
  | bufferTooSmall (error : BufferTooSmall)
  | invalidExtensionLength
  | fragmentNotSupported
  deriving DecidableEq

def isTlvExtension (nextHeader : UInt8) : Bool :=
  nextHeader = 0 ∨ nextHeader = 43 ∨ nextHeader = 60

structure ExtensionHeader where
  headerType : UInt8
  data : Bytes

def ExtensionHeader.fromBytes (headerType : UInt8) (data : Bytes) :
    Except Ipv6Error (ExtensionHeader × Nat) :=
  if ¬isTlvExtension headerType then .error (.tooShort ⟨2, data.length⟩)
  else if data.length < 2 then .error (.tooShort ⟨2, data.length⟩)
  else
    let totalLen := ((data.getD 1 0).toNat + 1) * 8
    if data.length < totalLen then .error (.tooShort ⟨totalLen, data.length⟩)
    else .ok (⟨headerType, data.take totalLen⟩, totalLen)

def ExtensionHeader.optionsData (header : ExtensionHeader) : Bytes := header.data.drop 2

def writeExtensionHeader (_headerType nextHeader : UInt8) (optionsData out : Bytes) :
    Except Ipv6Error (Nat × Bytes) :=
  let totalLen := optionsData.length + 2
  if totalLen % 8 ≠ 0 then .error .invalidExtensionLength
  else if out.length < totalLen then .error (.bufferTooSmall ⟨totalLen, out.length⟩)
  else
    let hdrExtLen := UInt8.ofNat (totalLen / 8 - 1)
    .ok (totalLen, nextHeader :: hdrExtLen :: optionsData ++ out.drop totalLen)

structure ExtensionChainInfo where
  upperProtocol : UInt8
  upperOffset : Nat
  deriving DecidableEq

def walkFrom (payload : Bytes) (offset : Nat) (nh : UInt8) : Except Ipv6Error ExtensionChainInfo :=
  if isTlvExtension nh then
    if offset + 2 > payload.length then .error (.tooShort ⟨offset + 2, payload.length⟩)
    else
      let total := ((payload.getD (offset + 1) 0).toNat + 1) * 8
      if offset + total > payload.length then .error (.tooShort ⟨offset + total, payload.length⟩)
      else walkFrom payload (offset + total) (payload.getD offset 0)
  else if nh = 44 then .error .fragmentNotSupported
  else .ok ⟨nh, offset⟩
termination_by payload.length - offset

def walkExtensionChain (payload : Bytes) (firstNextHeader : UInt8) :
    Except Ipv6Error ExtensionChainInfo :=
  walkFrom payload 0 firstNextHeader

structure ExtensionWrite where
  headerType : UInt8
  optionsData : Bytes
  out : Bytes

def firstType (upper : UInt8) : List ExtensionWrite → UInt8
  | [] => upper
  | write :: _ => write.headerType

/-- The headers written in turn, each with the type of what follows: their length and bytes. -/
def writeChain (upper : UInt8) : List ExtensionWrite → Except Ipv6Error (Nat × Bytes)
  | [] => .ok (0, [])
  | write :: writes => do
    let (written, out) ← writeExtensionHeader write.headerType (firstType upper writes)
      write.optionsData write.out
    let (total, bytes) ← writeChain upper writes
    return (written + total, out.take written ++ bytes)

def offsetAfter (writes : List ExtensionWrite) : Nat :=
  (writes.map (·.optionsData.length + 2)).sum

theorem writeChain_cons (h : writeChain upper (write :: writes) = .ok (total, bytes))
    (hfits : write.optionsData.length ≤ 2046) :
    ∃ len total' bytes', writeChain upper writes = .ok (total', bytes') ∧
      total = write.optionsData.length + 2 + total' ∧
      bytes = firstType upper writes :: len :: write.optionsData ++ bytes' ∧
      (len.toNat + 1) * 8 = write.optionsData.length + 2 := by
  simp only [writeChain, writeExtensionHeader, bind_eq_ok, ite_error_eq_ok] at h
  obtain ⟨_, ⟨hmultiple, -, ⟨⟩⟩, ⟨total', bytes'⟩, hrest, ⟨⟩⟩ := h
  refine ⟨UInt8.ofNat ((write.optionsData.length + 2) / 8 - 1), total', bytes', hrest, rfl,
    congrArg (· ++ bytes') (List.take_left' rfl), ?_⟩
  rw [UInt8.toNat_ofNat']
  omega

theorem walkFrom_header (htype : isTlvExtension nh = true)
    (hlen : (len.toNat + 1) * 8 = options.length + 2) (front rest : Bytes)
    (hpayload : payload = front ++ (next :: len :: options ++ rest)) :
    walkFrom payload front.length nh = walkFrom payload (front.length + (options.length + 2)) next := by
  have hfollowing : payload.getD front.length 0 = next := by simp [hpayload]
  have hextLen : payload.getD (front.length + 1) 0 = len := by simp [hpayload]
  have hlength : payload.length = front.length + (options.length + 2) + rest.length := by
    simp [hpayload, Nat.add_assoc, Nat.add_comm, Nat.add_left_comm]
  rw [walkFrom, if_pos htype, if_neg (by omega), hextLen, hlen, hfollowing]
  exact if_neg (by omega)

/-- What was written is parsed back at the offset. -/
def FoundAt (payload : Bytes) (offset : Nat) (write : ExtensionWrite) : Prop :=
  (ExtensionHeader.fromBytes write.headerType (payload.drop offset)).map
    (fun found => (found.1.optionsData, found.2)) =
      .ok (write.optionsData, write.optionsData.length + 2)

theorem foundAt_header (htype : isTlvExtension write.headerType = true)
    (hlen : (len.toNat + 1) * 8 = write.optionsData.length + 2) (rest : Bytes) :
    FoundAt (next :: len :: write.optionsData ++ rest) 0 write := by
  have hextLen : (next :: len :: write.optionsData ++ rest).getD 1 0 = len := rfl
  have htake : (next :: len :: write.optionsData ++ rest).take (write.optionsData.length + 2) =
      next :: len :: write.optionsData := List.take_left' rfl
  rw [FoundAt, List.drop_zero, ExtensionHeader.fromBytes, if_neg (not_not.mpr htype),
    if_neg (by simp), hextLen, hlen]
  rw [if_neg (by simp), htake]
  rfl

theorem FoundAt.length_le (h : FoundAt payload offset write) :
    write.optionsData.length ≤ 2046 := by
  rw [FoundAt, map_eq_ok] at h
  obtain ⟨_, hfound, hlength⟩ := h
  simp only [ExtensionHeader.fromBytes, ite_error_eq_ok] at hfound
  obtain ⟨-, -, -, ⟨⟩⟩ := hfound
  have hlt := ((payload.drop offset).getD 1 0).toNat_lt
  have htotal := congrArg Prod.snd hlength
  dsimp only at htotal
  omega

section

variable {writes : List ExtensionWrite}
  (htypes : ∀ write ∈ writes, isTlvExtension write.headerType = true)
  (hfits : ∀ write ∈ writes, write.optionsData.length ≤ 2046)
  (hwrite : writeChain upper writes = .ok (total, bytes))

include htypes hfits hwrite

theorem walkFrom_chain (hupper : isTlvExtension upper = false) (hfragment : upper ≠ 44)
    (front rest : Bytes) : walkFrom (front ++ (bytes ++ rest)) front.length (firstType upper writes) =
      .ok ⟨upper, front.length + total⟩ := by
  induction writes generalizing front total bytes with
  | nil =>
    cases hwrite
    rw [walkFrom, firstType, if_neg (Bool.not_eq_true _ ▸ hupper), if_neg hfragment]
    rfl
  | cons write writes ih =>
    obtain ⟨htype, htypes⟩ := List.forall_mem_cons.mp htypes
    obtain ⟨hfits, hrest⟩ := List.forall_mem_cons.mp hfits
    obtain ⟨len, total, bytes, hwrites, rfl, rfl, hlen⟩ := writeChain_cons hwrite hfits
    have hnext := ih htypes hrest hwrites
      (front ++ firstType upper writes :: len :: write.optionsData)
    rw [firstType, walkFrom_header htype hlen front (bytes ++ rest) (by rw [List.append_assoc])]
    simp only [List.append_assoc, List.length_append, List.length_cons] at hnext ⊢
    rw [hnext, Nat.add_assoc]

theorem foundAt_chain (rest : Bytes) (before : List ExtensionWrite)
    (hwrites : writes = before ++ write :: after) :
    FoundAt (bytes ++ rest) (offsetAfter before) write := by
  induction before generalizing writes total bytes with
  | nil =>
    subst hwrites
    obtain ⟨len, total, bytes, -, -, rfl, hlen⟩ :=
      writeChain_cons hwrite (hfits write List.mem_cons_self)
    rw [List.append_assoc]
    exact foundAt_header (htypes write List.mem_cons_self) hlen (bytes ++ rest)
  | cons first before ih =>
    subst hwrites
    obtain ⟨hfits, hrest⟩ := List.forall_mem_cons.mp hfits
    obtain ⟨len, total, bytes, hwrites, -, rfl, -⟩ := writeChain_cons hwrite hfits
    have hnext := ih (List.forall_mem_cons.mp htypes).2 hrest hwrites rfl
    rw [FoundAt, offsetAfter, List.map_cons, List.sum_cons, ← List.drop_drop]
    simpa only [FoundAt, offsetAfter, List.append_assoc, List.cons_append, List.drop_succ_cons,
      List.drop_left] using hnext

end

/-- Headers are found where they were written exactly if the length of each fits its byte. -/
theorem walk_of_written_iff (upper : UInt8) (writes : List ExtensionWrite) (rest : Bytes)
    (htypes : ∀ write ∈ writes, isTlvExtension write.headerType = true)
    (hupper : isTlvExtension upper = false) (hfragment : upper ≠ 44)
    (hwrite : writeChain upper writes = .ok (total, bytes)) :
    (walkExtensionChain (bytes ++ rest) (firstType upper writes) = .ok ⟨upper, total⟩ ∧
      ∀ before write after, writes = before ++ write :: after →
        FoundAt (bytes ++ rest) (offsetAfter before) write) ↔
    ∀ write ∈ writes, write.optionsData.length ≤ 2046 := by
  constructor
  · rintro ⟨-, hfound⟩ write hmem
    obtain ⟨before, after, hwrites⟩ := List.append_of_mem hmem
    exact (hfound before write after hwrites).length_le
  · intro hfits
    refine ⟨?_, fun before write after => foundAt_chain htypes hfits hwrite rest before⟩
    have hwalk := walkFrom_chain htypes hfits hwrite hupper hfragment [] rest
    rwa [List.length_nil, Nat.zero_add] at hwalk

theorem walk_of_hop_by_hop : walkExtensionChain [17, 0, 1, 4, 0, 0, 0, 0] 0 = .ok ⟨17, 8⟩ :=
  ((walk_of_written_iff 17 [⟨0, [1, 4, 0, 0, 0, 0], List.replicate 8 0⟩] [] (by decide) (by decide)
    (by decide) rfl).mpr (by decide)).1

/-- A header of 2056 bytes is read back as one of 8. -/
theorem walk_of_long_header :
    (writeChain 17 [⟨0, List.replicate 2054 0, List.replicate 2056 0⟩]).map
      (fun written => (written.1, walkExtensionChain written.2 0)) = .ok (2056, .ok ⟨17, 8⟩) := by
  decide +kernel

end Lichen.Core
