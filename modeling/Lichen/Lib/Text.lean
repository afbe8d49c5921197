import Lichen.Lib.Bytes

namespace Lichen.Lib

def hexByte (b : UInt8) : List Char := [Nat.digitChar (b.toNat / 16), Nat.digitChar (b.toNat % 16)]

def hexEncode (bs : Bytes) : String := String.ofList (bs.flatMap hexByte)

theorem digitChar_inj (hm : m < 16) (hn : n < 16)
    (h : Nat.digitChar m = Nat.digitChar n) : m = n := by
  have hall : ∀ a b : Fin 16, Nat.digitChar a = Nat.digitChar b → a = b := by decide
  exact congrArg Fin.val (hall ⟨m, hm⟩ ⟨n, hn⟩ h)

theorem hexByte_inj (h : hexByte a = hexByte b) : a = b := by
  have ha := a.toNat_lt
  have hb := b.toNat_lt
  simp only [hexByte, List.cons.injEq, and_true] at h
  have hhigh := digitChar_inj (by omega) (by omega) h.1
  have hlow := digitChar_inj (by omega) (by omega) h.2
  exact UInt8.toNat_inj.mp (by omega)

theorem flatMap_hexByte_inj {as bs : Bytes} (h : as.flatMap hexByte = bs.flatMap hexByte) :
    as = bs := by
  induction as generalizing bs with
  | nil =>
    cases bs with
    | nil => rfl
    | cons => exact nomatch h
  | cons a as ih =>
    cases bs with
    | nil => exact nomatch h
    | cons =>
      obtain ⟨hhead, htail⟩ := List.append_inj h rfl
      rw [hexByte_inj hhead, ih htail]

theorem hexEncode_inj (h : hexEncode as = hexEncode bs) : as = bs :=
  flatMap_hexByte_inj (String.ofList_injective h)

theorem toList_loop (b : ByteArray) (i : Nat) (r : List UInt8) :
    ByteArray.toList.loop b i r = r.reverse ++ b.data.toList.drop i := by
  fun_induction ByteArray.toList.loop b i r with
  | case1 i r hi ih =>
    have hlt : i < b.data.toList.length := hi
    have hget : b.get! i = b.data.toList.get ⟨i, hlt⟩ := getElem!_pos b.data i hi
    rw [ih, List.reverse_cons, List.append_assoc, hget, List.drop_eq_getElem_cons hlt]
    rfl
  | case2 i r hi =>
    have hle : b.data.toList.length ≤ i := not_lt.mp hi
    rw [List.drop_eq_nil_of_le hle, List.append_nil]

theorem toList_eq_data (b : ByteArray) : b.toList = b.data.toList := toList_loop b 0 []

def decodeUtf8 (bytes : Bytes) : Option String := String.fromUTF8? bytes.toByteArray

theorem decodeUtf8_toUTF8 (s : String) : decodeUtf8 s.toUTF8.toList = some s := by
  have hbytes : s.toUTF8.toList.toByteArray = s.toUTF8 := by
    apply ByteArray.ext
    apply Array.toList_inj.mp
    rw [List.toList_data_toByteArray, toList_eq_data]
  have hvalid : s.toUTF8.IsValidUTF8 := s.isValidUTF8
  rw [decodeUtf8, hbytes, String.fromUTF8?, dif_pos hvalid]
  rfl

theorem length_toUTF8 (s : String) : s.toUTF8.toList.length = s.utf8ByteSize := by
  rw [toList_eq_data]
  rfl

end Lichen.Lib
