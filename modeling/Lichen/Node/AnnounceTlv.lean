import Lichen.Lib.Bytes

namespace Lichen.Node

open Lichen.Lib

def positionTlv : UInt8 := 0x01

def congestionTlv : UInt8 := 0x02

def txSfTlv : UInt8 := 0x06

def txSfAbsentDefault : UInt8 := 10

/-- The loop of the parsers: it looks at each byte that `len` further ones follow. -/
def scanTlv (type : UInt8) (len : Nat) : Bytes → Option Bytes
  | [] => none
  | byte :: rest =>
    if len ≤ rest.length ∧ byte = type then some (rest.take len) else scanTlv type len rest

def parseCongestion (appData : Bytes) : Option UInt8 :=
  (scanTlv congestionTlv 1 appData).map (·.getD 0 0)

def parseTxSf (appData : Bytes) : UInt8 :=
  match scanTlv txSfTlv 1 appData with
  | some value =>
    let sf := value.getD 0 0
    if 7 ≤ sf ∧ sf ≤ 12 then sf else txSfAbsentDefault
  | none => txSfAbsentDefault

structure GeoCoords (F : Type) where
  lat : F
  lon : F

def i32FromBeBytes (bytes : Bytes) : Int := (BitVec.ofNat 32 (beNat bytes)).toInt

/-- `degrees` is the division of the `i32` by 1e7 in `f32`. -/
def GeoCoords.fromAppData (degrees : Int → F) (data : Bytes) : Option (GeoCoords F) :=
  (scanTlv positionTlv 8 data).map fun value =>
    ⟨degrees (i32FromBeBytes (value.take 4)), degrees (i32FromBeBytes (value.drop 4))⟩

/-- What stands after the first byte that is the type. -/
def afterType (type : UInt8) : Bytes → Option Bytes
  | [] => none
  | byte :: rest => if byte = type then some rest else afterType type rest

theorem scanTlv_append (hlen : value.length = len) :
    scanTlv type len (front ++ type :: (value ++ back)) =
      match afterType type front with
      | some after => some ((after ++ type :: value).take len)
      | none => some value := by
  induction front with
  | nil => simp [scanTlv, afterType, ← hlen]
  | cons byte front ih =>
    rw [List.cons_append, scanTlv, afterType]
    by_cases hbyte : byte = type
    · have htake : (front ++ type :: (value ++ back)).take len = (front ++ type :: value).take len := by
        rw [← List.cons_append, ← List.append_assoc, List.take_append_of_le_length]
        simp
        omega
      rw [if_pos ⟨by simp; omega, hbyte⟩, if_pos hbyte, htake]
    · rw [if_neg fun h => hbyte h.2, ih, if_neg hbyte]

theorem scanTlv_one : scanTlv type 1 data = (afterType type data).bind fun after =>
    after.head?.map ([·]) := by
  induction data with
  | nil => rfl
  | cons byte data ih =>
    rw [scanTlv, afterType]
    by_cases hbyte : byte = type
    · rw [if_pos hbyte]
      cases data with
      | nil => simp [scanTlv]
      | cons => simp [hbyte]
    · rw [if_neg fun h => hbyte h.2, ih, if_neg hbyte]

theorem i32FromBeBytes_beBytes (v : BitVec 32) : i32FromBeBytes (beBytes 4 v.toNat) = v.toInt := by
  rw [i32FromBeBytes, beNat_beBytes_of_lt v.isLt, BitVec.ofNat_toNat, BitVec.setWidth_eq]

theorem i32FromBeBytes_eq_iff {v : BitVec 32} (h : bytes.length = 4) :
    i32FromBeBytes bytes = v.toInt ↔ bytes = beBytes 4 v.toNat := by
  constructor
  · intro heq
    have hlt := beNat_lt bytes
    rw [i32FromBeBytes, BitVec.toInt_inj] at heq
    rw [← heq, BitVec.toNat_ofNat, Nat.mod_eq_of_lt (by rw [h] at hlt; exact hlt), ← h,
      beBytes_beNat]
  · rintro rfl
    exact i32FromBeBytes_beBytes v

theorem coords_iff {lat lon : BitVec 32} (h : bytes.length = 8) :
    (∀ (F : Type) (degrees : Int → F), (some bytes).map (fun value => GeoCoords.mk
        (degrees (i32FromBeBytes (value.take 4))) (degrees (i32FromBeBytes (value.drop 4)))) =
      some ⟨degrees lat.toInt, degrees lon.toInt⟩) ↔
    bytes = beBytes 4 lat.toNat ++ beBytes 4 lon.toNat := by
  have hsplit : bytes = beBytes 4 lat.toNat ++ beBytes 4 lon.toNat ↔
      i32FromBeBytes (bytes.take 4) = lat.toInt ∧ i32FromBeBytes (bytes.drop 4) = lon.toInt := by
    rw [i32FromBeBytes_eq_iff (by simp [h]), i32FromBeBytes_eq_iff (by simp [h])]
    constructor
    · rintro rfl
      simp
    · rintro ⟨htake, hdrop⟩
      rw [← htake, ← hdrop, List.take_append_drop]
  rw [hsplit]
  constructor
  · intro hread
    have hcoords := hread Int id
    simpa using hcoords
  · rintro ⟨hlat, hlon⟩ F degrees
    simp [hlat, hlon]

theorem sf_eq_iff (hsf : 7 ≤ sf ∧ sf ≤ 12) : (if 7 ≤ x ∧ x ≤ 12 then x else txSfAbsentDefault) = sf ↔
    x = sf ∨ sf = 10 ∧ ¬(7 ≤ x ∧ x ≤ 12) := by
  split
  · next h => simp [h]
  · next h =>
    have hne : x ≠ sf := fun heq => h (heq ▸ hsf)
    simp only [hne, false_or, h, not_false_eq_true, and_true, txSfAbsentDefault]
    exact eq_comm

inductive AnnounceTlv
  | position (lat lon : BitVec 32)
  | congestion (level : UInt8)
  | txSf (sf : UInt8)

namespace AnnounceTlv

def type : AnnounceTlv → UInt8
  | position _ _ => positionTlv
  | congestion _ => congestionTlv
  | txSf _ => txSfTlv

def value : AnnounceTlv → Bytes
  | position lat lon => beBytes 4 lat.toNat ++ beBytes 4 lon.toNat
  | congestion level => [level]
  | txSf sf => [sf]

def appData (tlvs : List AnnounceTlv) : Bytes := tlvs.flatMap fun tlv => tlv.type :: tlv.value

theorem scanTlv_appData (tlv : AnnounceTlv) (htype : tlv.type = t)
    (hlen : tlv.value.length = len) : scanTlv t len (appData (front ++ tlv :: back)) =
      match afterType t (appData front) with
      | some after => some ((after ++ t :: tlv.value).take len)
      | none => some tlv.value := by
  rw [appData, List.flatMap_append, List.flatMap_cons, htype]
  exact scanTlv_append hlen

/-- A field is read as sent, or as absent, exactly if no byte of the records before it is its type,
or what follows the first such byte stands for the same value. -/
theorem fields_undisturbed_iff (front back : List AnnounceTlv) :
    (∀ level, parseCongestion (appData (front ++ congestion level :: back)) = some level ↔
      ∀ after ∈ afterType congestionTlv (appData front),
        (after ++ [congestionTlv]).head? = some level) ∧
    (parseCongestion (appData front) = none ↔
      ∀ after ∈ afterType congestionTlv (appData front), after = []) ∧
    (∀ sf, 7 ≤ sf → sf ≤ 12 → (parseTxSf (appData (front ++ txSf sf :: back)) = sf ↔
      ∀ after ∈ afterType txSfTlv (appData front), ∀ x ∈ (after ++ [txSfTlv]).head?,
        x = sf ∨ sf = 10 ∧ ¬(7 ≤ x ∧ x ≤ 12))) ∧
    (parseTxSf (appData front) = 10 ↔
      ∀ after ∈ afterType txSfTlv (appData front), ∀ x ∈ after.head?,
        x = 10 ∨ ¬(7 ≤ x ∧ x ≤ 12)) ∧
    ∀ lat lon, (∀ (F : Type) (degrees : Int → F),
        GeoCoords.fromAppData degrees (appData (front ++ position lat lon :: back)) =
          some ⟨degrees lat.toInt, degrees lon.toInt⟩) ↔
      ∀ after ∈ afterType positionTlv (appData front),
        (after ++ positionTlv :: (position lat lon).value).take 8 = (position lat lon).value := by
  refine ⟨fun level => ?_, ?_, fun sf hlow hhigh => ?_, ?_, fun lat lon => ?_⟩
  · have hscan : scanTlv congestionTlv 1 (appData (front ++ congestion level :: back)) = _ :=
      scanTlv_appData (congestion level) rfl rfl
    rw [parseCongestion, hscan]
    cases afterType congestionTlv (appData front) with
    | none => simp [value]
    | some after => cases after <;> simp
  · rw [parseCongestion, scanTlv_one]
    cases afterType congestionTlv (appData front) with
    | none => simp
    | some after => cases after <;> simp
  · have hscan : scanTlv txSfTlv 1 (appData (front ++ txSf sf :: back)) = _ :=
      scanTlv_appData (txSf sf) rfl rfl
    rw [parseTxSf, hscan]
    cases afterType txSfTlv (appData front) with
    | none => simp [value, hlow, hhigh]
    | some after => cases after <;> simpa using sf_eq_iff ⟨hlow, hhigh⟩
  · rw [parseTxSf, scanTlv_one]
    cases afterType txSfTlv (appData front) with
    | none => simp [txSfAbsentDefault]
    | some after =>
      cases after with
      | nil => simp [txSfAbsentDefault]
      | cons x =>
        have hsf := sf_eq_iff (x := x) (by decide : 7 ≤ txSfAbsentDefault ∧ txSfAbsentDefault ≤ 12)
        simpa [txSfAbsentDefault] using hsf
  · have hscan : scanTlv positionTlv 8 (appData (front ++ position lat lon :: back)) = _ :=
      scanTlv_appData (position lat lon) rfl rfl
    simp only [GeoCoords.fromAppData, hscan]
    cases afterType positionTlv (appData front) with
    | none => exact iff_of_true ((coords_iff rfl).mpr rfl) nofun
    | some after =>
      simp only [Option.mem_some_iff, forall_eq']
      exact coords_iff (by simp [value])

/-- A congestion level of 6 is taken for the type of the spreading factor, a byte of the latitude
for that of the congestion, a level of 1 for that of the position. -/
theorem fields_disturbed :
    parseTxSf (appData [congestion 6, txSf 7]) = 10 ∧
    parseCongestion (appData [position 2 0, congestion 3]) = some 0 ∧
    (GeoCoords.fromAppData id (appData [congestion 1, position 0 0])).map GeoCoords.lat =
      some 16777216 := by
  decide

end AnnounceTlv

end Lichen.Node
