import Lichen.Lib.Bits
import Lichen.Schc.Codec

namespace Lichen.Schc

open Lichen.Lib
open List hiding tail

structure BitWriter where
  buf : Bytes
  nbits : Nat

namespace BitWriter

abbrev Writer := EStateM SchcError BitWriter

def new (buf : Bytes) : BitWriter := ⟨List.replicate buf.length 0, 0⟩

def push (w : BitWriter) (bit : Bool) : BitWriter where
  buf := w.buf.modify (w.nbits / 8) (· ||| (bit.toUInt8 <<< UInt8.ofNat (7 - w.nbits % 8)))
  nbits := w.nbits + 1

def writeBit (bit : Bool) : Writer Unit := do
  let w ← get
  check (w.buf.length ≤ w.nbits / 8) (.bufferTooSmall (w.nbits / 8 + 1) w.buf.length)
  set (w.push bit)

def write (value : Nat) : Nat → Writer Unit
  | 0 => pure ()
  | nbits + 1 => do
    writeBit (value.testBit nbits)
    write value nbits

def byteLen (w : BitWriter) : Nat := (w.nbits + 7) / 8

variable {w : BitWriter} {p : Writer Unit} {bs cs done : List Bool}

structure Holds (w : BitWriter) (done : List Bool) : Prop where
  nbits_eq : w.nbits = done.length
  bits_eq : bits w.buf = done ++ List.replicate (8 * w.buf.length - done.length) false

def Writes (p : Writer Unit) (bs : List Bool) : Prop :=
  ∀ w done, Holds w done → done.length + bs.length ≤ 8 * w.buf.length →
    ∃ w', Yields p w () w' ∧ Holds w' (done ++ bs) ∧ w'.buf.length = w.buf.length

theorem bits_replicate_zero : bits (List.replicate n 0) = List.replicate (8 * n) false := by
  induction n with
  | zero => rfl
  | succ n ih => rw [replicate_succ, bits_cons, ih, Nat.mul_succ, Nat.add_comm,
      replicate_add, show byteBits 0 = List.replicate 8 false by decide]

theorem holds_new (buf : Bytes) : Holds (new buf) [] := by
  refine ⟨rfl, ?_⟩
  rw [new, bits_replicate_zero, length_replicate]
  rfl

theorem writes_pure : Writes (pure ()) [] := by
  intro w done h _
  exact ⟨w, yields_pure.mpr ⟨rfl, rfl⟩, by rwa [append_nil], rfl⟩

theorem Writes.bind (hp : Writes p bs) (hq : Writes q cs) :
    Writes (p >>= fun _ => q) (bs ++ cs) := by
  intro w done h hroom
  rw [length_append] at hroom
  obtain ⟨w₁, hy₁, h₁, hlen₁⟩ := hp w done h (by omega)
  obtain ⟨w₂, hy₂, h₂, hlen₂⟩ := hq w₁ (done ++ bs) h₁ (by rw [length_append]; omega)
  refine ⟨w₂, yields_bind.mpr ⟨(), w₁, hy₁, hy₂⟩, ?_, by omega⟩
  rwa [← append_assoc]

theorem writes_writeBit : Writes (writeBit bit) [bit] := by
  intro w done h hroom
  rw [length_singleton] at hroom
  have hn : w.nbits < 8 * w.buf.length := by
    have := h.nbits_eq
    omega
  have hclear : bitAt w.buf w.nbits = false := by
    have hbit := getElem?_bits hn
    rw [h.bits_eq, h.nbits_eq, List.getElem?_append_right le_rfl, Nat.sub_self,
      List.getElem?_replicate_of_lt (by omega)] at hbit
    rw [h.nbits_eq]
    exact (Option.some.inj hbit).symm
  have hlength : (w.push bit).buf.length = w.buf.length := length_modify _ _ _
  refine ⟨w.push bit, ?_, ⟨?_, ?_⟩, hlength⟩
  · exact yields_bind.mpr ⟨w, w, yields_get.mpr ⟨rfl, rfl⟩,
      yields_bind.mpr ⟨(), w, yields_check.mpr ⟨by omega, rfl⟩, yields_set.mpr rfl⟩⟩
  · rw [length_append, length_singleton, ← h.nbits_eq]
    rfl
  · obtain ⟨k, hk⟩ : ∃ k, 8 * w.buf.length - done.length = k + 1 :=
      ⟨8 * w.buf.length - done.length - 1, by omega⟩
    rw [push, bits_modify hn hclear, length_modify, h.bits_eq, h.nbits_eq,
      set_append_right _ _ le_rfl, Nat.sub_self, hk, replicate_succ, set_cons_zero,
      length_append, length_singleton, append_assoc, ← Nat.sub_sub, hk]
    rfl

theorem writes_write (value nbits : Nat) : Writes (write value nbits) (natBits nbits value) := by
  induction nbits with
  | zero => exact writes_pure
  | succ nbits ih =>
    rw [natBits_succ]
    exact writes_writeBit.bind ih

theorem Writes.field {value nbits : Nat} (hq : Writes q cs) :
    Writes (write value nbits >>= fun _ => q) (natBits nbits value ++ cs) :=
  (writes_write value nbits).bind hq

end BitWriter

structure BitReader where
  buf : Bytes
  pos : Nat

namespace BitReader

abbrev Reader := EStateM SchcError BitReader

def shiftBits (buf : Bytes) : Nat → Nat → Nat → Nat
  | 0, _, value => value
  | nbits + 1, pos, value =>
    let bit := (buf.getD (pos / 8) 0 >>> UInt8.ofNat (7 - pos % 8)) &&& 1
    shiftBits buf nbits (pos + 1) ((value <<< 1) ||| bit.toNat)

def read (nbits : Nat) : Reader Nat := do
  check (128 < nbits) (.tooShort 17 16)
  let r ← get
  check (r.buf.length * 8 < r.pos + nbits) (.tooShort ((r.pos + nbits + 7) / 8) r.buf.length)
  set (BitReader.mk r.buf (r.pos + nbits))
  pure (shiftBits r.buf nbits r.pos 0)

def residueByteEnd (r : BitReader) : Nat := (r.pos + 7) / 8

def paddingIsZero (r : BitReader) : Bool :=
  let used := r.pos % 8
  if used = 0 then true
  else r.buf.getD (r.pos / 8) 0 &&& ((1 <<< UInt8.ofNat (8 - used)) - 1) = 0

variable {buf : Bytes} {pos : Nat} {p : Reader α} {bs rest : List Bool} {a : α}

def Reads (p : Reader α) (bs : List Bool) (a : α) : Prop :=
  ∀ buf pos rest, (bits buf).drop pos = bs ++ rest → Yields p ⟨buf, pos⟩ a ⟨buf, pos + bs.length⟩

theorem shifted_bit (hi : i < 8) :
    ((byte >>> UInt8.ofNat i) &&& 1).toNat = (byte.toNat.testBit i).toNat := by
  have hmod : (UInt8.ofNat i).toNat % 8 = i := by
    rw [UInt8.toNat_ofNat']
    omega
  rw [UInt8.toNat_and, UInt8.toNat_shiftRight, hmod, Nat.toNat_testBit, Nat.shiftRight_eq_div_pow]
  exact Nat.and_one_is_mod _

theorem shiftBits_eq (h : (bits buf).drop pos = bs ++ rest) (value : Nat) :
    shiftBits buf bs.length pos value = bs.foldl (fun acc b => acc * 2 + b.toNat) value := by
  induction bs generalizing pos value with
  | nil => rfl
  | cons bit bs ih =>
    have hlt : pos < 8 * buf.length := by
      have hlength := congrArg List.length h
      simp only [length_drop, length_bits, cons_append, length_cons] at hlength
      omega
    have hbit : bitAt buf pos = bit := by
      have hget := congrArg (·[0]?) h
      simp only [List.getElem?_drop, Nat.add_zero, cons_append, List.getElem?_cons_zero,
        getElem?_bits hlt] at hget
      exact Option.some.inj hget
    have hnext : (bits buf).drop (pos + 1) = bs ++ rest := by
      rw [← drop_drop, h]
      rfl
    have hvalue : (value <<< 1) ||| bit.toNat = value * 2 + bit.toNat := by
      rw [← Nat.shiftLeft_add_eq_or_of_lt (by cases bit <;> decide), Nat.shiftLeft_eq, pow_one]
    rw [length_cons, shiftBits, foldl_cons, shifted_bit (by omega)]
    rw [bitAt] at hbit
    rw [hbit, hvalue, ih hnext]

theorem yields_read (h : Yields (read n) ⟨buf, pos⟩ v r) : r = ⟨buf, pos + n⟩ ∧ v < 2 ^ n ∧
      (bits buf).drop pos = natBits n v ++ (bits buf).drop (pos + n) := by
  obtain ⟨_, _, hcheck, h⟩ := yields_bind.mp h
  obtain ⟨-, rfl⟩ := yields_check.mp hcheck
  obtain ⟨_, _, hget, h⟩ := yields_bind.mp h
  obtain ⟨rfl, rfl⟩ := yields_get.mp hget
  obtain ⟨_, _, hcheck, h⟩ := yields_bind.mp h
  obtain ⟨hroom, rfl⟩ := yields_check.mp hcheck
  obtain ⟨_, _, hset, h⟩ := yields_bind.mp h
  rw [yields_set] at hset
  obtain ⟨rfl, rfl⟩ := yields_pure.mp h
  have hlength : (((bits buf).drop pos).take n).length = n := by
    change ¬buf.length * 8 < pos + n at hroom
    rw [length_take, length_drop, length_bits]
    omega
  have hsplit : (bits buf).drop pos =
      ((bits buf).drop pos).take n ++ (bits buf).drop (pos + n) := by
    rw [← drop_drop, take_append_drop]
  have hvalue : shiftBits buf n pos 0 = bitsNat (((bits buf).drop pos).take n) := by
    have hshift := shiftBits_eq hsplit 0
    rwa [hlength] at hshift
  have hlt := bitsNat_lt (((bits buf).drop pos).take n)
  have hbits := natBits_bitsNat (((bits buf).drop pos).take n)
  rw [hlength] at hlt hbits
  rw [hvalue, hbits]
  exact ⟨hset, hlt, hsplit⟩

theorem reads_read (hv : v < 2 ^ n) (hn : 0 < n ∧ n ≤ 128 := by decide) :
    Reads (read n) (natBits n v) v := by
  intro buf pos rest h
  have hroom : pos + n ≤ buf.length * 8 := by
    have hlength := congrArg List.length h
    simp only [length_drop, length_bits, length_append, length_natBits] at hlength
    omega
  have hvalue : v = shiftBits buf n pos 0 := by
    have hbits := shiftBits_eq h 0
    rw [length_natBits] at hbits
    rw [hbits]
    exact (bitsNat_natBits_of_lt hv).symm
  rw [length_natBits]
  exact yields_bind.mpr ⟨(), _, yields_check.mpr ⟨by omega, rfl⟩,
    yields_bind.mpr ⟨_, _, yields_get.mpr ⟨rfl, rfl⟩,
    yields_bind.mpr ⟨(), _, yields_check.mpr ⟨by simpa using hroom, rfl⟩,
    yields_bind.mpr ⟨(), _, yields_set.mpr rfl, yields_pure.mpr ⟨hvalue, rfl⟩⟩⟩⟩⟩

theorem reads_pure : Reads (pure a) [] a := by
  intro buf pos rest _
  exact yields_pure.mpr ⟨rfl, rfl⟩

theorem Reads.bind (hp : Reads p bs a) (hf : Reads (f a) cs b) : Reads (p >>= f) (bs ++ cs) b := by
  intro buf pos rest h
  rw [append_assoc] at h
  have hrest : (bits buf).drop (pos + bs.length) = cs ++ rest := by
    rw [← drop_drop, h, drop_left]
  refine yields_bind.mpr ⟨a, _, hp buf pos (cs ++ rest) h, ?_⟩
  rw [length_append, ← Nat.add_assoc]
  exact hf buf (pos + bs.length) rest hrest

theorem Reads.last (hp : Reads p bs a) (hf : Reads (f a) [] b) : Reads (p >>= f) bs b := by
  have h := hp.bind hf
  rwa [append_nil] at h

theorem reads_check [Decidable c] (h : ¬c) : Reads (check c e) [] () := by
  intro buf pos rest _
  exact yields_check.mpr ⟨h, rfl⟩

theorem reads_ofExcept (h : r = .ok a) : Reads (ofExcept r) [] a := by
  intro buf pos rest _
  exact yields_ofExcept.mpr ⟨h, rfl⟩

def Consumes (p : Reader α) (E : α → List Bool → Prop) : Prop :=
  ∀ buf pos a r, Yields p ⟨buf, pos⟩ a r → ∃ bs, E a bs ∧ r = ⟨buf, pos + bs.length⟩ ∧
    (bits buf).drop pos = bs ++ (bits buf).drop (pos + bs.length)

section Consumes

theorem Consumes.bind (hp : Consumes p E)
    (hf : ∀ a bs, E a bs → Consumes (f a) fun b cs => F b (bs ++ cs)) : Consumes (p >>= f) F := by
  intro buf pos b r h
  obtain ⟨a, r₁, hy, h⟩ := yields_bind.mp h
  obtain ⟨bs, hE, rfl, hbits⟩ := hp buf pos a r₁ hy
  obtain ⟨cs, hF, rfl, hrest⟩ := hf a bs hE buf (pos + bs.length) b r h
  refine ⟨bs ++ cs, hF, ?_, ?_⟩
  · rw [length_append, Nat.add_assoc]
  · rw [hbits, hrest, length_append, append_assoc, Nat.add_assoc]

theorem consumes_read : Consumes (read n) fun v bs => v < 2 ^ n ∧ bs = natBits n v := by
  intro buf pos v r h
  obtain ⟨hr, hlt, hbits⟩ := yields_read h
  exact ⟨natBits n v, ⟨hlt, rfl⟩, by rw [length_natBits, hr], by rw [length_natBits, hbits]⟩

theorem consumes_pure (h : E a []) : Consumes (pure a) E := by
  intro buf pos b r hy
  obtain ⟨rfl, rfl⟩ := yields_pure.mp hy
  exact ⟨[], h, rfl, rfl⟩

theorem consumes_check [Decidable c] : Consumes (check c e) fun _ bs => ¬c ∧ bs = [] := by
  intro buf pos _ r hy
  obtain ⟨hc, rfl⟩ := yields_check.mp hy
  exact ⟨[], ⟨hc, rfl⟩, rfl, rfl⟩

theorem consumes_ofExcept : Consumes (ofExcept r) fun a bs => r = .ok a ∧ bs = [] := by
  intro buf pos a r' hy
  obtain ⟨hr, rfl⟩ := yields_ofExcept.mp hy
  exact ⟨[], ⟨hr, rfl⟩, rfl, rfl⟩

end Consumes

theorem mask_eq_zero (hn : n < 8) (h : ∀ j < n, byte.toNat.testBit j = false) :
    byte &&& ((1 <<< UInt8.ofNat n) - 1) = 0 := by
  have hmask : ∀ n < 8, (((1 : UInt8) <<< UInt8.ofNat n) - 1).toNat = 2 ^ n - 1 := by decide
  apply UInt8.toNat_inj.mp
  rw [UInt8.toNat_and, hmask n hn, Nat.and_two_pow_sub_one_eq_mod]
  apply Nat.eq_of_testBit_eq
  intro j
  rw [Nat.testBit_mod_two_pow, UInt8.toNat_zero, Nat.zero_testBit]
  by_cases hj : j < n
  · rw [h j hj, Bool.and_false]
  · rw [decide_eq_false hj, Bool.false_and]

theorem paddingIsZero_of_bits (h : (bits buf).drop pos = List.replicate k false ++ rest)
    (haligned : (pos + k) % 8 = 0) : paddingIsZero ⟨buf, pos⟩ := by
  simp only [paddingIsZero]
  split
  · rfl
  · next hused =>
    apply decide_eq_true
    apply mask_eq_zero (by omega)
    intro j hj
    -- bit `j` of the last byte stands this far behind the last bit that was read
    obtain ⟨t, ht⟩ : ∃ t, t = 7 - j - pos % 8 := ⟨_, rfl⟩
    have htk : t < k := by omega
    have hlt : pos + t < 8 * buf.length := by
      have hlength := congrArg List.length h
      simp only [length_drop, length_bits, length_append, length_replicate] at hlength
      omega
    have hbit := congrArg (·[t]?) h
    simp only [List.getElem?_drop, getElem?_bits hlt] at hbit
    rw [List.getElem?_append_left (by rwa [length_replicate]),
      List.getElem?_replicate_of_lt htk, Option.some.injEq, bitAt,
      show (pos + t) / 8 = pos / 8 by omega, show 7 - (pos + t) % 8 = j by omega] at hbit
    exact hbit

theorem testBit_of_mask (byte : UInt8) (hn : n < 8) (h : byte &&& ((1 <<< UInt8.ofNat n) - 1) = 0)
    (hk : k < n) : byte.toNat.testBit k = false := by
  have hmask : ∀ n < 8, (((1 : UInt8) <<< UInt8.ofNat n) - 1).toNat = 2 ^ n - 1 := by decide
  have hzero := congrArg UInt8.toNat h
  rw [UInt8.toNat_and, hmask n hn, Nat.and_two_pow_sub_one_eq_mod, UInt8.toNat_zero] at hzero
  have hbit := Nat.testBit_mod_two_pow byte.toNat n k
  rw [hzero, Nat.zero_testBit, decide_eq_true hk, Bool.true_and] at hbit
  exact hbit.symm

theorem bits_of_paddingIsZero (h : paddingIsZero ⟨buf, pos⟩ = true) (hpos : pos ≤ 8 * buf.length) :
    ((bits buf).drop pos).take (8 * ((pos + 7) / 8) - pos) =
      List.replicate (8 * ((pos + 7) / 8) - pos) false := by
  simp only [paddingIsZero] at h
  apply ext_getElem?
  intro t
  by_cases ht : t < 8 * ((pos + 7) / 8) - pos
  · rw [if_neg (by omega)] at h
    have hbit := testBit_of_mask (k := 7 - (pos + t) % 8) _ (by omega) (of_decide_eq_true h)
      (by omega)
    rw [List.getElem?_take_of_lt ht, List.getElem?_drop, getElem?_bits (by omega),
      List.getElem?_replicate_of_lt ht, bitAt, show (pos + t) / 8 = pos / 8 by omega, hbit]
  · rw [List.getElem?_eq_none (by rw [length_take]; omega),
      List.getElem?_eq_none (by rw [length_replicate]; omega)]

end BitReader

/-- The bytes of a residue: the bits of its fields, padded with zeros to whole bytes. -/
structure Residue (residue : Bytes) (bs : List Bool) : Prop where
  length_eq : residue.length = (bs.length + 7) / 8
  bits_eq : bits residue = bs ++ List.replicate (8 * residue.length - bs.length) false

/-- Write the Rule ID and behind it the residue; the number of bytes of the residue. -/
def writeResidue (ruleId : UInt8) (fields : BitWriter.Writer Unit) : Codec Nat := fun out =>
  match fields (BitWriter.new (out.drop 1)) with
  | .ok () w => .ok w.byteLen (ruleId :: w.buf)
  | .error error w => .error error (ruleId :: w.buf)

def readResidue (reason : String) (fields : BitReader.Reader α) (data : Bytes) :
    Except SchcError (α × Bytes) :=
  match fields ⟨data.drop 1, 0⟩ with
  | .error error _ => .error error
  | .ok a r =>
    if r.paddingIsZero then .ok (a, data.drop (1 + r.residueByteEnd))
    else .error (.nonCanonicalResidue reason)

section Residue

theorem yields_writeResidue (hfields : BitWriter.Writes fields bs)
    (hlength : n = (bs.length + 7) / 8) (hroom : 1 + n ≤ out.length) :
    ∃ out' residue, Yields (writeResidue ruleId fields) out n out' ∧ Residue residue bs ∧
      Holding out' (ruleId :: residue) out.length := by
  obtain ⟨w, hy, hholds, hbuf⟩ := hfields (BitWriter.new (out.drop 1)) [] (BitWriter.holds_new _)
    (by simp [BitWriter.new]; omega)
  have hdrop : w.buf.length = out.length - 1 := by
    rw [hbuf, BitWriter.new, length_replicate, length_drop]
  rw [nil_append] at hholds
  have hresidue : (w.buf.take n).length = n := by
    rw [length_take]
    omega
  refine ⟨ruleId :: w.buf, w.buf.take n, ?_, ⟨?_, ?_⟩, ?_, ?_⟩
  · rw [Yields] at hy
    rw [Yields, writeResidue, hy]
    simp only [BitWriter.byteLen, hholds.nbits_eq, hlength]
  · rw [hresidue, hlength]
  · rw [bits_take, hholds.bits_eq, take_append, take_of_length_le (by omega),
      take_replicate, hresidue]
    congr 2
    omega
  · rw [length_cons, hresidue, take_succ_cons]
  · rw [length_cons]
    omega

theorem returns_writeResidue (hfields : BitWriter.Writes fields bs)
    (hlength : n = (bs.length + 7) / 8) (hroom : 1 + n + tail.length ≤ out.length)
    (hk : k n = store (1 + n) tail >>= fun _ => pure (1 + n + tail.length)) :
    ∃ residue, Residue residue bs ∧
      Returns (writeResidue ruleId fields >>= k) out (ruleId :: (residue ++ tail)) := by
  have hresidueRoom : 1 + n ≤ out.length := by omega
  obtain ⟨out', residue, hy, hresidue, hholding⟩ :=
    yields_writeResidue hfields hlength hresidueRoom
  have hn : residue.length = n := by rw [hresidue.length_eq, hlength]
  refine ⟨residue, hresidue, returns_bind.mpr ⟨n, out', hy, ?_⟩⟩
  rw [hk]
  refine hholding.store ?_ ?_ ?_
  · rw [length_cons]
    omega
  · omega
  · intro out'' h
    refine h.pure ?_
    simp only [length_cons, length_append]
    omega

theorem readResidue_eq (hreads : BitReader.Reads reads bs a) (hresidue : Residue residue bs) :
    readResidue reason reads (ruleId :: (residue ++ tail)) = .ok (a, tail) := by
  have hbits : (bits (residue ++ tail)).drop 0 = bs ++
      (List.replicate (8 * residue.length - bs.length) false ++ bits tail) := by
    rw [drop_zero, bits_append, hresidue.bits_eq, append_assoc]
  have hrun := hreads (residue ++ tail) 0 _ hbits
  have hlength := hresidue.length_eq
  rw [Nat.zero_add, Yields] at hrun
  have hpadding : BitReader.paddingIsZero ⟨residue ++ tail, bs.length⟩ := by
    apply BitReader.paddingIsZero_of_bits
    · rw [drop_zero] at hbits
      rw [hbits, drop_left]
    · omega
  have htail : (ruleId :: (residue ++ tail)).drop (1 + (bs.length + 7) / 8) = tail := by
    rw [Nat.add_comm, drop_succ_cons, ← hlength, drop_left]
  have hdrop : (ruleId :: (residue ++ tail)).drop 1 = residue ++ tail := rfl
  rw [readResidue, hdrop, hrun]
  simp only [hpadding, if_true, BitReader.residueByteEnd, htail]

theorem Residue.unique (h : Residue residue bs) (h' : Residue residue' bs) :
    residue = residue' := by
  apply bits_injective
  rw [h.bits_eq, h'.bits_eq, h.length_eq, h'.length_eq]

theorem readResidue_ok (hreads : BitReader.Consumes reads E)
    (h : readResidue reason reads (ruleId :: rest) = .ok (a, tail)) :
    ∃ bs residue, E a bs ∧ Residue residue bs ∧ rest = residue ++ tail := by
  have hdrop : (ruleId :: rest).drop 1 = rest := rfl
  rw [readResidue, hdrop] at h
  split at h
  · cases h
  rename_i a' r hrun
  split at h
  · rename_i hpadding
    cases h
    obtain ⟨bs, hE, rfl, hbits⟩ := hreads rest 0 a r hrun
    rw [Nat.zero_add] at hbits hpadding
    have hle : bs.length ≤ 8 * rest.length := by
      have hlength := congrArg List.length hbits
      rw [length_drop, length_append, length_bits] at hlength
      omega
    have hresidue : (rest.take ((bs.length + 7) / 8)).length = (bs.length + 7) / 8 := by
      rw [length_take]
      omega
    refine ⟨bs, rest.take ((bs.length + 7) / 8), hE, ⟨hresidue, ?_⟩, ?_⟩
    · rw [hresidue, ← BitReader.bits_of_paddingIsZero hpadding hle, bits_take]
      rw [drop_zero] at hbits
      nth_rewrite 1 [hbits]
      rw [take_append, take_of_length_le (by omega)]
    · rw [BitReader.residueByteEnd, Nat.zero_add, Nat.add_comm 1, drop_succ_cons,
        take_append_drop]
  · cases h

end Residue

end Lichen.Schc
