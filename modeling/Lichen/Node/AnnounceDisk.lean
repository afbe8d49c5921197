import Lichen.Node.AnnounceStore

namespace Lichen.Node

open Lichen.Core Lichen.Hal Lichen.Lib List

open Lichen.Gateway (Schnorr48 Seed)

/-- The states that the two directories of a store hold for each originator. -/
structure AnnounceView where
  get : Bool → Iid → Option AnnounceTrustState

namespace AnnounceView

def put (view : AnnounceView) (floor : Bool) (iid : Iid) (state : AnnounceTrustState) :
    AnnounceView :=
  ⟨fun floor' other => if floor' = floor ∧ other = iid then some state else view.get floor' other⟩

variable {view : AnnounceView} {iid other : Iid} {state : AnnounceTrustState} {floor floor' : Bool}

@[simp] theorem get_put_self : (view.put floor iid state).get floor iid = some state :=
  if_pos ⟨rfl, rfl⟩

theorem get_put_of_ne (h : floor' ≠ floor) :
    (view.put floor iid state).get floor' other = view.get floor' other :=
  if_neg fun heq => h heq.1

theorem get_put_other (h : other ≠ iid) :
    (view.put floor iid state).get floor' other = view.get floor' other :=
  if_neg fun heq => h heq.2

def Valid (view : AnnounceView) : Prop :=
  ∀ iid floor, view.get true iid = some floor →
    ∃ state, view.get false iid = some state ∧ AnnounceTrustStore.precedes state floor = false

end AnnounceView

namespace AnnounceTrustStore

variable {schnorr : Schnorr48} {seed : Seed} {io : AnnounceIo} {store : AnnounceTrustStore}
  {view : AnnounceView} {iid other : Iid} {state : AnnounceTrustState} {floor : Bool}
  {dir : Directory}

theorem length_encode : (encode state).length = stateBytes := by
  rw [encode, length_append, List.Vector.toList_length, length_beBytes]
  rfl

theorem decode_encode : decode (encode state) = .ok state := by
  have hseq : beNat (beBytes 2 state.seq.toNat) = state.seq.toNat :=
    beNat_beBytes_of_lt state.seq.toNat_lt
  rw [decode, if_neg (not_not.mpr length_encode), encode,
    take_left' state.pubkey.toList_length, drop_left' state.pubkey.toList_length,
    toArray_toList, hseq, UInt16.ofNat_toNat]

theorem precedes_self : precedes state state = false := by
  simp [precedes]

def sealRecord (schnorr : Schnorr48) (seed : Seed) (floor : Bool) (iid : Iid)
    (state : AnnounceTrustState) : Bytes :=
  encode state ++ (schnorr.sign (schnorr.deriveKeypair seed).1 (schnorr.deriveKeypair seed).2
    (transcript (announceDomain floor) iid (encode state))).toList

theorem length_sealRecord : (sealRecord schnorr seed floor iid state).length = recordBytes := by
  rw [sealRecord, length_append, length_encode, List.Vector.toList_length]
  rfl

theorem toList_key (iid : Iid) (floor : Bool) : (key iid floor).toList =
    "announce-pin-".toList ++ (iid.toList.flatMap hexByte ++
      (if floor then "-floor" else "").toList) := by
  have hhex : (hexEncode iid.toList).toList = iid.toList.flatMap hexByte := String.toList_ofList
  rw [key, String.toList_append, String.toList_append, hhex, append_assoc]

theorem key_inj (h : key iid floor = key other floor) : iid = other := by
  have hlist := congrArg String.toList h
  rw [toList_key, toList_key] at hlist
  have hhex := append_cancel_right (append_cancel_left hlist)
  exact Subtype.ext (flatMap_hexByte_inj hhex)

/-- The directory holds the sealed records of the view and nothing else. -/
structure Holds (schnorr : Schnorr48) (seed : Seed) (floor : Bool) (view : AnnounceView)
    (dir : Directory) : Prop where
  record : ∀ iid, dir.files.get (key iid floor) =
    (view.get floor iid).map (sealRecord schnorr seed floor iid)
  named : ∀ name data, dir.files.get name = some data → ∃ iid, name = key iid floor

theorem holds_empty : Holds schnorr seed floor ⟨fun _ _ => none⟩ .empty :=
  ⟨fun _ => rfl, nofun⟩

theorem Holds.rename (h : Holds schnorr seed floor view dir) :
    Holds schnorr seed floor (view.put floor iid state)
      (dir.rename (key iid floor) (sealRecord schnorr seed floor iid state)) := by
  constructor
  · intro other
    rw [Directory.rename, HashMap.get_insert]
    by_cases hother : other = iid
    · rw [hother, if_pos rfl, AnnounceView.get_put_self, Option.map_some]
    · rw [if_neg fun heq => hother (key_inj heq), h.record, AnnounceView.get_put_other hother]
  · intro name data hget
    obtain ⟨heq, -⟩ | ⟨-, hget⟩ := HashMap.get_of_get_insert hget
    · exact ⟨iid, heq⟩
    · exact h.named name data hget

theorem Holds.put_of_ne (h : Holds schnorr seed floor view dir) (hne : floor ≠ floor') :
    Holds schnorr seed floor (view.put floor' iid state) dir :=
  ⟨fun other => by rw [AnnounceView.get_put_of_ne hne, h.record], h.named⟩

theorem not_mem_hex (bs : Bytes) : 'r' ∉ bs.flatMap hexByte := by
  have hdigit : ∀ n : Fin 16, Nat.digitChar n ≠ 'r' := by decide
  intro hmem
  obtain ⟨b, -, hb⟩ := mem_flatMap.mp hmem
  have hlt := b.toNat_lt
  rw [hexByte, mem_cons, mem_singleton] at hb
  obtain hb | hb := hb
  · exact hdigit ⟨b.toNat / 16, by omega⟩ hb.symm
  · exact hdigit ⟨b.toNat % 16, by omega⟩ hb.symm

theorem isStateName_key (iid : Iid) : ("announce-pin-".toList.isPrefixOf (key iid false).toList &&
      !"-floor".toList.isSuffixOf (key iid false).toList) = true := by
  have hkey : (key iid false).toList = "announce-pin-".toList ++ iid.toList.flatMap hexByte := by
    rw [toList_key, if_neg Bool.false_ne_true, String.toList_empty, append_nil]
  rw [hkey, Bool.and_eq_true, Bool.not_eq_true', isPrefixOf_iff_prefix, Bool.eq_false_iff,
    ne_eq, isSuffixOf_iff_suffix]
  refine ⟨prefix_append _ _, fun hsuffix => not_mem_hex iid.toList ?_⟩
  have hlength : 1 ≤ (iid.toList.flatMap hexByte).length := by
    rw [length_flatMap]
    obtain ⟨_, _, hbs⟩ := exists_cons_of_length_eq_add_one iid.toList_length
    rw [hbs, map_cons, sum_cons]
    exact Nat.le_add_right_of_le (Nat.le_succ 1)
  have hlast : ['r'] <:+ iid.toList.flatMap hexByte := by
    refine suffix_of_suffix_length_le ?_ (suffix_append "announce-pin-".toList _) hlength
    exact List.IsSuffix.trans (by decide) hsuffix
  exact hlast.subset mem_cons_self

theorem Holds.count (h : Holds schnorr seed false view dir) :
    countDurableStateRecords dir = dir.files.len := by
  rw [countDurableStateRecords, HashMap.len_eq_toPairs, countP_eq_length]
  rintro ⟨name, data⟩ hmem
  obtain ⟨iid, rfl⟩ := h.named name data (HashMap.mem_toPairs.mp hmem)
  exact isStateName_key iid

structure OnDisk (schnorr : Schnorr48) (seed : Seed) (store : AnnounceTrustStore)
    (view : AnnounceView) : Prop where
  sealingSeed : store.sealingSeed = some seed
  directory : ∀ floor, ∃ dir, store.directory floor = some dir ∧ Holds schnorr seed floor view dir

section

variable (h : OnDisk schnorr seed store view)

include h

theorem OnDisk.isSome_storage : store.storage.isSome = true := by
  obtain ⟨dir, hdir, -⟩ := h.directory false
  exact Option.isSome_iff_exists.mpr ⟨dir, hdir⟩

theorem OnDisk.of_eq (hseed : store'.sealingSeed = store.sealingSeed)
    (hdirectory : ∀ floor, store'.directory floor = store.directory floor) :
    OnDisk schnorr seed store' view :=
  ⟨hseed.trans h.sealingSeed, fun floor => hdirectory floor ▸ h.directory floor⟩

theorem OnDisk.cache (records : HashMap Iid CacheEntry)
    (clock : UInt64) : OnDisk schnorr seed { store with records, clock } view :=
  h.of_eq rfl fun floor => by cases floor <;> rfl

end

theorem directory_withDirectory :
    (store.withDirectory floor dir).directory floor' =
      if floor' = floor then some dir else store.directory floor' := by
  cases floor <;> cases floor' <;> rfl

def put (schnorr : Schnorr48) (seed : Seed) (store : AnnounceTrustStore) (dir : Directory)
    (floor : Bool) (iid : Iid) (state : AnnounceTrustState) : AnnounceTrustStore :=
  store.withDirectory floor
    (dir.rename (key iid floor) (sealRecord schnorr seed floor iid state))

theorem withDirectory_directory (h : store.directory floor = some dir) :
    store.withDirectory floor dir = store := by
  obtain ⟨_, _, _, _, _, _⟩ := store
  cases floor
  · cases h
    rfl
  · cases h
    rfl

theorem OnDisk.put (h : OnDisk schnorr seed store view) (hdir : store.directory floor = some dir)
    (iid : Iid) (state : AnnounceTrustState) :
    OnDisk schnorr seed (put schnorr seed store dir floor iid state)
      (view.put floor iid state) := by
  constructor
  · cases floor <;> exact h.sealingSeed
  · intro floor'
    obtain ⟨old, hold, hholds⟩ := h.directory floor'
    rw [AnnounceTrustStore.put, directory_withDirectory]
    split
    · subst floor'
      cases hold.symm.trans hdir
      exact ⟨_, rfl, hholds.rename⟩
    · exact ⟨old, hold, hholds.put_of_ne ‹_›⟩

theorem ensures_read (h : OnDisk schnorr seed store view) :
    Ensures (read schnorr io iid floor) store fun result store' =>
      (result = .ok (view.get floor iid) ∨ result = .error (.error .io)) ∧ store' = store := by
  obtain ⟨_, hdir, hholds⟩ := h.directory floor
  rw [read, ensures_bind, ensures_get]
  dsimp only
  rw [hdir]
  simp only [Directory.read]
  split
  · exact ensures_throw.mpr ⟨.inr rfl, rfl⟩
  · rename_i hread
    rw [ite_eq_iff] at hread
    obtain ⟨-, hread⟩ | ⟨-, hread⟩ := hread
    · cases hread
    rw [hholds.record] at hread
    cases hview : view.get floor iid with
    | none => exact ensures_pure.mpr ⟨.inl rfl, rfl⟩
    | some =>
      rw [hview] at hread
      cases hread
  · rename_i length encoded hread
    rw [ite_eq_iff] at hread
    obtain ⟨-, hread⟩ | ⟨-, hread⟩ := hread
    · cases hread
    rw [hholds.record] at hread
    cases hview : view.get floor iid with
    | none =>
      rw [hview] at hread
      cases hread
    | some state =>
      have hlength := @length_sealRecord schnorr seed iid state floor
      rw [hview] at hread
      simp only [Option.map_some, Except.ok.injEq, Option.some.injEq, Prod.mk.injEq] at hread
      obtain ⟨rfl, rfl⟩ := hread
      rw [take_of_length_le hlength.le, hlength, h.sealingSeed, ensures_bind, ensures_check]
      refine ⟨fun hbad => absurd (Nat.min_eq_left (Nat.le_succ recordBytes)) hbad, fun _ => ?_⟩
      rw [sealRecord, take_left' length_encode, drop_left' length_encode,
        toArray_toList, ensures_bind, ensures_check, schnorr.verify_sign]
      refine ⟨fun hbad => Bool.noConfusion hbad, fun _ => ?_⟩
      rw [decode_encode, ensures_bind, ensures_ofExcept]
      exact ensures_pure.mpr ⟨.inl rfl, rfl⟩

theorem ensures_read_bind (h : OnDisk schnorr seed store view) (hio : R (.error (.error .io)) store)
    (hok : Ensures (k (view.get floor iid)) store R) :
    Ensures (read schnorr io iid floor >>= k) store R := by
  refine (ensures_read h).bind ?_ ?_
  · rintro _ store' ⟨hresult | hresult, rfl⟩
    · cases hresult
    · cases hresult
      exact hio
  · rintro _ store' ⟨hresult | hresult, rfl⟩
    · cases hresult
      exact hok
    · cases hresult

inductive Wrote (store written : AnnounceTrustStore) :
    Except AnnounceStop Unit → AnnounceTrustStore → Prop
  | ok : Wrote store written (.ok ()) written
  | io : Wrote store written (.error (.error .io)) store
  | lost : Wrote store written (.error .crash) store
  | kept : Wrote store written (.error .crash) written

theorem ensures_write (h : OnDisk schnorr seed store view) (hdir : store.directory floor = some dir) :
    Ensures (write schnorr io iid floor state) store
      (Wrote store (put schnorr seed store dir floor iid state)) := by
  rw [write, ensures_bind, ensures_get]
  simp only [h.sealingSeed, hdir]
  rw [ensures_bind, ensures_set]
  rw [ensures_ofExcept, ← sealRecord]
  obtain hwrite | hwrite | hwrite | hwrite := dir.write_cases
  · rw [hwrite]
    exact .ok
  · rw [hwrite, withDirectory_directory hdir]
    exact .io
  · rw [hwrite]
    exact .kept
  · rw [hwrite, withDirectory_directory hdir]
    exact .lost

end AnnounceTrustStore

end Lichen.Node
