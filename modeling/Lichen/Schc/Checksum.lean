import Lichen.Lib.OnesComplement
import Lichen.Schc.Codec

namespace Lichen.Schc

open Lichen.Lib

/-- Add the words of a byte string to a sum; a last single byte is left over. -/
def sumPairs (sum : Nat) : Bytes → Nat × Option UInt8
  | a :: b :: rest => sumPairs (ocAdd sum (a.toNat * 256 + b.toNat)) rest
  | [a] => (sum, some a)
  | [] => (sum, none)

def finishSum : Nat × Option UInt8 → Nat
  | (sum, some last) => ocAdd sum (last.toNat <<< 8)
  | (sum, none) => sum

def checksumBytes (data : Bytes) : Nat := finishSum (sumPairs 0 data)

def addPart (s : Nat × Option UInt8) (part : Bytes) : Nat × Option UInt8 :=
  match s.2, part with
  | some _, [] => s
  | some high, first :: rest => sumPairs (ocAdd s.1 (high.toNat * 256 + first.toNat)) rest
  | none, part => sumPairs s.1 part

def checksumBytesParts (parts : List Bytes) : Nat := finishSum (parts.foldl addPart (0, none))

def pseudoSum (src dst : Bytes) (nextHeader : UInt8) (length : Nat) : Nat :=
  let sum := (sumPairs (sumPairs 0 src).1 dst).1
  ocAdd (ocAdd sum length) nextHeader.toNat

def fold16 (sum : Nat) : Nat :=
  let round (s : Nat) := (s &&& 0xFFFF) + (s >>> 16)
  round (round sum)

def onesComplementSum (sum : Nat) : Nat :=
  let c := 0xFFFF - fold16 sum
  if c = 0 then 0xFFFF else c

def udpChecksumParts (src dst : Bytes) (srcPort dstPort : Nat) (parts : List Bytes) :
    Except SchcError Nat :=
  let udpLen := 8 + (parts.map List.length).sum
  if 0xFFFF < udpLen then .error (.bufferTooSmall udpLen 0xFFFF)
  else
    let sum := ocAdd (ocAdd (ocAdd (pseudoSum src dst 17 udpLen) srcPort) dstPort) udpLen
    .ok (onesComplementSum (ocAdd sum (checksumBytesParts parts)))

def udpChecksum (src dst : Bytes) (srcPort dstPort : Nat) (payload : Bytes) :
    Except SchcError Nat :=
  udpChecksumParts src dst srcPort dstPort [payload]

def icmpv6ChecksumParts (src dst : Bytes) (parts : List Bytes) : Nat :=
  let length := (parts.map List.length).sum
  let sum := pseudoSum src dst 58 (length % 2 ^ 16)
  onesComplementSum (ocAdd sum (checksumBytesParts parts))

def icmpv6ChecksumValid (src dst icmpv6 : Bytes) : Bool :=
  if icmpv6.length < 4 then false
  else
    let sum := pseudoSum src dst 58 (icmpv6.length % 2 ^ 16)
    fold16 (ocAdd sum (checksumBytes icmpv6)) = 0xFFFF

variable {data src dst : Bytes} {sum : Nat}

/-- A partial sum over the bytes that were added, with the byte that is left over. -/
def SumOf (done : Bytes) (s : Nat × Option UInt8) : Prop :=
  ∃ even, done = even ++ s.2.toList ∧ even.length % 2 = 0 ∧ s.1 = ocWord (wordSum even)

theorem ocAdd_pair (even : Bytes) (a b : UInt8) (heven : even.length % 2 = 0) :
    ocAdd (ocWord (wordSum even)) (a.toNat * 256 + b.toNat) = ocWord (wordSum (even ++ [a, b])) := by
  rw [ocAdd_ocWord_of_le _ (word_le a b), wordSum_append _ _ heven, wordSum, wordSum, Nat.add_zero]

theorem sumOf_sumPairs (even data : Bytes) (heven : even.length % 2 = 0) :
    SumOf (even ++ data) (sumPairs (ocWord (wordSum even)) data) := by
  induction data using wordSum.induct generalizing even with
  | case1 a b rest ih =>
    have hstep := ih (even ++ [a, b]) (by simp; omega)
    rw [List.append_assoc] at hstep
    rw [sumPairs, ocAdd_pair even a b heven]
    exact hstep
  | case2 | case3 => exact ⟨even, rfl, heven, rfl⟩

theorem SumOf.addPart (h : SumOf done s) (part : Bytes) :
    SumOf (done ++ part) (addPart s part) := by
  obtain ⟨even, rfl, heven, hsum⟩ := h
  obtain ⟨_, pending⟩ := s
  subst hsum
  cases pending with
  | none =>
    rw [Option.toList_none, List.append_nil]
    exact sumOf_sumPairs even part heven
  | some high =>
    cases part with
    | nil => exact ⟨even, by simp [Schc.addPart], heven, rfl⟩
    | cons first rest =>
      have hrest := sumOf_sumPairs (even ++ [high, first]) rest (by simp; omega)
      rw [List.append_assoc] at hrest
      have hfirst : Schc.addPart (ocWord (wordSum even), some high) (first :: rest) =
          sumPairs (ocAdd (ocWord (wordSum even)) (high.toNat * 256 + first.toNat)) rest := rfl
      rw [hfirst, ocAdd_pair even high first heven, List.append_assoc]
      exact hrest

theorem SumOf.finish (h : SumOf done s) : finishSum s = ocWord (wordSum done) := by
  obtain ⟨_, rfl, heven, hsum⟩ := h
  obtain ⟨_, pending⟩ := s
  subst hsum
  cases pending with
  | none => rw [finishSum, Option.toList_none, List.append_nil]
  | some last =>
    have hlast : last.toNat <<< 8 = last.toNat * 256 := Nat.shiftLeft_eq _ 8
    have hle : last.toNat * 256 ≤ 0xFFFF := by
      have := last.toNat_lt
      omega
    rw [finishSum, hlast, ocAdd_ocWord_of_le _ hle, Option.toList_some, wordSum_append _ _ heven]
    rfl

theorem checksumBytes_eq (data : Bytes) : checksumBytes data = ocWord (wordSum data) :=
  (sumOf_sumPairs [] data rfl).finish

theorem SumOf.foldl (h : SumOf done s) (parts : List Bytes) :
    SumOf (done ++ parts.flatten) (parts.foldl Schc.addPart s) := by
  induction parts generalizing done s with
  | nil => simpa using h
  | cons part parts ih =>
    have hnext := ih (h.addPart part)
    rwa [List.append_assoc] at hnext

theorem sumOf_nil : SumOf [] (0, none) := ⟨[], rfl, rfl, rfl⟩

theorem checksumBytesParts_eq : checksumBytesParts parts = ocWord (wordSum parts.flatten) :=
  (sumOf_nil.foldl parts).finish

/-- The checksum is that of the whole, and no sum exceeds a word: neither the last one nor the one
behind any parts and any bytes of a further part. -/
theorem checksumBytesParts_flatten (parts : List Bytes) :
    checksumBytesParts parts = checksumBytes parts.flatten ∧ checksumBytesParts parts ≤ 0xFFFF ∧
      ∀ (done : List Bytes) (part : Bytes) (n : Nat),
        (addPart (done.foldl addPart (0, none)) (part.take n)).1 ≤ 0xFFFF := by
  rw [checksumBytesParts_eq, checksumBytes_eq]
  refine ⟨rfl, ocWord_le _, fun done part n => ?_⟩
  obtain ⟨_, -, -, hsum⟩ := (sumOf_nil.foldl done).addPart (part.take n)
  rw [hsum]
  exact ocWord_le _

theorem sumPairs_even (even data : Bytes) (heven : even.length % 2 = 0)
    (hdata : data.length % 2 = 0) :
    (sumPairs (ocWord (wordSum even)) data).1 = ocWord (wordSum (even ++ data)) := by
  obtain ⟨even', heq, heven', hsum⟩ := sumOf_sumPairs even data heven
  generalize sumPairs (ocWord (wordSum even)) data = s at heq hsum ⊢
  obtain ⟨sum, pending⟩ := s
  cases pending with
  | none => rw [hsum, heq, Option.toList_none, List.append_nil]
  | some =>
    have hlength := congrArg List.length heq
    simp at hlength
    omega

theorem pseudoSum_eq (hsrc : src.length = 16) (hdst : dst.length = 16) (nextHeader : UInt8)
    (hlength : length ≤ 0xFFFF) : pseudoSum src dst nextHeader length =
      ocWord (wordSum src + wordSum dst + length + nextHeader.toNat) := by
  have hfirst := sumPairs_even [] src rfl (by omega)
  have hnext := nextHeader.toNat_lt
  rw [pseudoSum]
  change ocAdd (ocAdd (sumPairs (sumPairs (ocWord (wordSum [])) src).1 dst).1 length) _ = _
  rw [hfirst, List.nil_append, sumPairs_even src dst (by omega) (by omega),
    wordSum_append _ _ (by omega), ocAdd_ocWord_of_le _ hlength, ocAdd_ocWord_of_le _ (by omega)]

theorem fold16_ocWord : fold16 (ocWord x) = ocWord x := by
  have hle := ocWord_le x
  have hround : ∀ s ≤ 0xFFFF, (s &&& 0xFFFF) + (s >>> 16) = s := by
    intro s hs
    rw [carry_eq]
    omega
  rw [fold16]
  simp only [hround _ hle]

theorem udpChecksumParts_eq : udpChecksumParts src dst srcPort dstPort parts =
      udpChecksum src dst srcPort dstPort parts.flatten := by
  simp only [udpChecksum, udpChecksumParts, checksumBytesParts_eq, List.length_flatten,
    List.map_cons, List.map_nil, List.sum_singleton, List.flatten_singleton]

def icmpv6Sum (src dst message : Bytes) : Nat :=
  wordSum src + wordSum dst + message.length + (58 : UInt8).toNat + wordSum message

theorem icmpv6Sum_pos : 0 < icmpv6Sum src dst message := by
  have hnext : (58 : UInt8).toNat = 58 := rfl
  rw [icmpv6Sum]
  omega

theorem icmpv6Sum_field : icmpv6Sum src dst (icmpType :: code :: high :: low :: body) =
      icmpv6Sum src dst (icmpType :: code :: 0 :: 0 :: body) + (high.toNat * 256 + low.toNat) := by
  have hzero : (0 : UInt8).toNat = 0 := rfl
  simp only [icmpv6Sum, wordSum, List.length_cons]
  omega

theorem icmpv6ChecksumValid_iff (hsrc : src.length = 16) (hdst : dst.length = 16)
    (hle : 4 ≤ message.length) (hlength : message.length ≤ 0xFFFF) :
    icmpv6ChecksumValid src dst message = true ↔ ocWord (icmpv6Sum src dst message) = 0xFFFF := by
  have hmod : message.length % 2 ^ 16 = message.length := by omega
  rw [icmpv6ChecksumValid, if_neg (by omega)]
  simp only [hmod, pseudoSum_eq hsrc hdst 58 hlength, checksumBytes_eq, ocAdd_ocWord, fold16_ocWord,
    decide_eq_true_eq, icmpv6Sum]

theorem icmpv6ChecksumParts_value (hsrc : src.length = 16) (hdst : dst.length = 16)
    (hlength : message.length ≤ 0xFFFF) (hparts : parts.flatten = message) :
    icmpv6ChecksumParts src dst parts =
      if 0xFFFF - ocWord (icmpv6Sum src dst message) = 0 then 0xFFFF
      else 0xFFFF - ocWord (icmpv6Sum src dst message) := by
  have hlen : (parts.map List.length).sum = message.length := by
    rw [← List.length_flatten, hparts]
  have hmod : message.length % 2 ^ 16 = message.length := by omega
  simp only [icmpv6ChecksumParts, hlen, hmod, pseudoSum_eq hsrc hdst 58 hlength,
    checksumBytesParts_eq, hparts, ocAdd_ocWord, onesComplementSum, fold16_ocWord, icmpv6Sum]
  rfl

/-- The checksum of a message with a zeroed checksum field is the field's value, if the message
with that value is valid, except that zero is never computed. -/
theorem icmpv6ChecksumParts_eq (hsrc : src.length = 16) (hdst : dst.length = 16)
    (hlength : 4 + body.length ≤ 0xFFFF)
    (hvalid : icmpv6ChecksumValid src dst (icmpType :: code :: high :: low :: body))
    (hparts : parts.flatten = icmpType :: code :: 0 :: 0 :: body) :
    icmpv6ChecksumParts src dst parts =
      if high.toNat * 256 + low.toNat = 0 then 0xFFFF else high.toNat * 256 + low.toNat := by
  rw [icmpv6ChecksumValid_iff hsrc hdst (by simp only [List.length_cons]; omega)
    (by simp only [List.length_cons]; omega), icmpv6Sum_field] at hvalid
  rw [icmpv6ChecksumParts_value hsrc hdst (by simp only [List.length_cons]; omega) hparts]
  exact complement_of_ocWord (word_le high low) icmpv6Sum_pos hvalid

theorem onesComplementSum_pos : 0 < onesComplementSum sum ∧ onesComplementSum sum < 2 ^ 16 := by
  simp only [onesComplementSum]
  split <;> omega

theorem icmpv6ChecksumValid_parts (hsrc : src.length = 16) (hdst : dst.length = 16)
    (hlength : 4 + body.length ≤ 0xFFFF) : icmpv6ChecksumValid src dst ([icmpType, code] ++
      (beBytes 2 (icmpv6ChecksumParts src dst [icmpType :: code :: 0 :: 0 :: body]) ++ body)) := by
  have hvalue := icmpv6ChecksumParts_value hsrc hdst (by simp only [List.length_cons]; omega)
    (List.flatten_singleton (l := icmpType :: code :: 0 :: 0 :: body))
  generalize hchecksum : icmpv6ChecksumParts src dst [icmpType :: code :: 0 :: 0 :: body] = c
  have hlt : c < 2 ^ 16 := by
    rw [← hchecksum]
    exact onesComplementSum_pos.2
  obtain ⟨high, low, hbytes⟩ : ∃ high low, beBytes 2 c = [high, low] := ⟨_, _, rfl⟩
  have hfield : high.toNat * 256 + low.toNat = c := by
    rw [← beNat_beBytes_of_lt (n := 2) hlt, hbytes]
    simp [beNat]
  rw [hbytes]
  change icmpv6ChecksumValid src dst (icmpType :: code :: high :: low :: body) = true
  rw [icmpv6ChecksumValid_iff hsrc hdst (by simp only [List.length_cons]; omega)
    (by simp only [List.length_cons]; omega), icmpv6Sum_field, hfield, ← hchecksum, hvalue]
  exact ocWord_add_complement icmpv6Sum_pos

end Lichen.Schc
