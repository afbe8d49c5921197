import Lichen.Schc.Ipv6

namespace Lichen.Schc

open Lichen.Lib

def validOscoreOption (value : Bytes) : Bool :=
  if value = [] then true
  else if 255 < value.length then false
  else
    let flags := value.getD 0 0
    let partialIvLen := (flags &&& 0x07).toNat
    if flags &&& 0xe0 ≠ 0 ∨ 5 < partialIvLen ∨ flags = 0 then false
    else
      let offset := 1 + partialIvLen
      if value.length < offset then false
      else if 1 < partialIvLen ∧ value.getD 1 0 = 0 then false
      else if flags &&& 0x10 ≠ 0 then
        if value.length ≤ offset then false
        else
          let stop := offset + 1 + (value.getD offset 0).toNat
          if value.length < stop then false
          else flags &&& 0x08 ≠ 0 ∨ stop = value.length
      else flags &&& 0x08 ≠ 0 ∨ offset = value.length

/-- The number that an option's nibble stands for, with the position behind its extension. -/
def extendedNibble (coap : Bytes) (nibble : UInt8) (pos : Nat) : Option (Nat × Nat) :=
  if nibble ≤ 12 then some (nibble.toNat, pos)
  else if nibble = 13 then
    if coap.length ≤ pos then none else some ((coap.getD pos 0).toNat + 13, pos + 1)
  else if nibble = 14 then
    if coap.length ≤ pos + 1 then none else some (u16At coap pos + 269, pos + 2)
  else none

def oscoreWalk (coap : Bytes) : Nat → Nat → Nat → Bool → Bool
  | 0, _, _, oscoreFound => oscoreFound
  | fuel + 1, pos, optNum, oscoreFound =>
    if coap.length ≤ pos then oscoreFound
    else
      let b := coap.getD pos 0
      if b = 0xFF then oscoreFound && pos + 1 < coap.length
      else
        match extendedNibble coap ((b >>> 4) &&& 0x0F) (pos + 1) with
        | none => false
        | some (delta, pos) =>
          match extendedNibble coap (b &&& 0x0F) pos with
          | none => false
          | some (len, pos) =>
            if coap.length < pos + len then false
            else if optNum + delta = 9 then
              if oscoreFound then false
              else if 255 < len then false
              else if validOscoreOption (coap.extract pos (pos + len)) then
                oscoreWalk coap fuel (pos + len) (optNum + delta) true
              else false
            else oscoreWalk coap fuel (pos + len) (optNum + delta) oscoreFound

/-- Whether the message has exactly one Object-Security option (number 9), and a valid one. -/
def hasOscoreOptionParts (head tail : Bytes) : Bool :=
  let coap := head ++ tail
  let tkl := (coap.getD 0 0 &&& 0x0F).toNat
  if 8 < tkl then false
  else if coap.length < head.length + tkl then false
  -- every option takes a byte or more, so the length is enough fuel
  else oscoreWalk coap (coap.length + 1) (head.length + tkl) 0 false

def hasOscoreOption (coap : Bytes) : Bool :=
  if coap.length < 4 then false else hasOscoreOptionParts (coap.take 4) (coap.drop 4)

theorem hasOscoreOption_append (hhead : head.length = 4) :
    hasOscoreOption (head ++ tail) = hasOscoreOptionParts head tail := by
  rw [hasOscoreOption, if_neg (by rw [List.length_append]; omega), List.take_left' hhead,
    List.drop_left' hhead]

theorem extendedNibble_le (h : extendedNibble coap nibble pos = some (n, pos')) : pos ≤ pos' := by
  simp only [extendedNibble] at h
  repeat' split at h
  all_goals cases h
  all_goals omega

theorem oscoreWalk_fuel (hfuel : coap.length - pos < fuel) (hfuel' : coap.length - pos < fuel')
    (optNum : Nat) (oscoreFound : Bool) :
    oscoreWalk coap fuel pos optNum oscoreFound = oscoreWalk coap fuel' pos optNum oscoreFound := by
  induction fuel generalizing fuel' pos optNum oscoreFound with
  | zero => omega
  | succ fuel ih =>
    obtain ⟨fuel', rfl⟩ : ∃ n, fuel' = n + 1 := ⟨fuel' - 1, by omega⟩
    simp only [oscoreWalk]
    split
    · rfl
    · split
      · rfl
      · split
        · rfl
        · next delta pos₁ hdelta =>
          split
          · rfl
          · next len pos₂ hlen =>
            have hpos₁ := extendedNibble_le hdelta
            have hpos₂ := extendedNibble_le hlen
            have hnext : ∀ oscoreFound,
                oscoreWalk coap fuel (pos₂ + len) (optNum + delta) oscoreFound =
                  oscoreWalk coap fuel' (pos₂ + len) (optNum + delta) oscoreFound :=
              ih (by omega) (by omega) _
            simp only [hnext]

end Lichen.Schc
