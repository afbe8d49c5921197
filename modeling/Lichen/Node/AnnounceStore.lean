import Lichen.Gateway.RecipientStore
import Lichen.Hal.FileStorage

namespace Lichen.Node

open Lichen.Core Lichen.Hal Lichen.Lib

open Lichen.Gateway (Schnorr48 Seed)

def maxTrackedOriginators : Nat := 64

def seqGt (a b : UInt16) : Bool := a ≠ b && a - b < 32768

structure AnnounceTrustState where
  pubkey : PublicKey
  seq : UInt16
  deriving DecidableEq

inductive AnnounceStoreError
  | io
  | corrupt
  | full
  deriving DecidableEq

inductive AnnounceStop
  | error (error : AnnounceStoreError)
  | crash
  deriving DecidableEq

def AnnounceStop.ofFileError : FileError → AnnounceStop
  | .io => .error .io
  | .crash => .crash

/-- What the storage does during a call: whether its reads fail, how its writes end, and the order
in which the cache is listed. -/
structure AnnounceIo where
  readFails : Bool → Bool
  write : Bool → FileFate
  order : HashOrder

def announceDomain (floor : Bool) : Bytes :=
  (if floor then "LICHEN-NODE-ANNOUNCE-FLOOR-v1" else
    "LICHEN-NODE-ANNOUNCE-STATE-v1").toUTF8.toList ++ [0]

def stateBytes : Nat := 34

def recordBytes : Nat := stateBytes + signatureLen

structure CacheEntry where
  state : AnnounceTrustState
  lastUse : UInt64

structure AnnounceTrustStore where
  records : HashMap Iid CacheEntry
  clock : UInt64
  durableCount : Nat
  storage : Option Directory
  floorStorage : Option Directory
  sealingSeed : Option Seed

def countDurableStateRecords (stateDir : Directory) : Nat :=
  stateDir.files.toPairs.countP fun file =>
    "announce-pin-".toList.isPrefixOf file.1.toList && !"-floor".toList.isSuffixOf file.1.toList

namespace AnnounceTrustStore

abbrev StoreM := EStateM AnnounceStop AnnounceTrustStore

def persistent (fails : Bool) (storage floorStorage : Directory) (sealingSeed : Seed) :
    Except AnnounceStoreError AnnounceTrustStore :=
  if fails then .error .io
  else .ok ⟨.new, 0, countDurableStateRecords storage, some storage, some floorStorage,
    some sealingSeed⟩

def key (iid : Iid) (floor : Bool) : String :=
  let suffix := if floor then "-floor" else ""
  "announce-pin-" ++ hexEncode iid.toList ++ suffix

def encode (state : AnnounceTrustState) : Bytes := state.pubkey.toList ++ beBytes 2 state.seq.toNat

def decode (encoded : Bytes) : Except AnnounceStoreError AnnounceTrustState :=
  if encoded.length ≠ stateBytes then .error .corrupt
  else .ok ⟨toArray 32 (encoded.take 32), UInt16.ofNat (beNat (encoded.drop 32))⟩

def transcript (domain : Bytes) (iid : Iid) (state : Bytes) : Bytes := domain ++ iid.toList ++ state

def directory (store : AnnounceTrustStore) (floor : Bool) : Option Directory :=
  if floor then store.floorStorage else store.storage

def withDirectory (store : AnnounceTrustStore) (floor : Bool) (dir : Directory) :
    AnnounceTrustStore :=
  if floor then { store with floorStorage := some dir } else { store with storage := some dir }

section

variable (schnorr : Schnorr48) (io : AnnounceIo)

def read (iid : Iid) (floor : Bool) : StoreM (Option AnnounceTrustState) := do
  let store ← get
  match store.directory floor with
  | none => return none
  | some dir =>
    match dir.read (io.readFails floor) (key iid floor) recordBytes with
    | .error _ => throw (.error .io)
    | .ok none => return none
    | .ok (some (length, encoded)) =>
      check (length ≠ recordBytes) (.error .corrupt)
      let state := encoded.take stateBytes
      let signature := toArray signatureLen (encoded.drop stateBytes)
      match store.sealingSeed with
      | none => throw (.error .io)
      | some seed =>
        check (schnorr.verify (schnorr.deriveKeypair seed).2
          (transcript (announceDomain floor) iid state) signature = false) (.error .corrupt)
        let state ← ofExcept ((decode state).mapError .error)
        return some state

def write (iid : Iid) (floor : Bool) (state : AnnounceTrustState) : StoreM Unit := do
  let store ← get
  match store.sealingSeed with
  | none => throw (.error .io)
  | some seed =>
    let keypair := schnorr.deriveKeypair seed
    let signature := schnorr.sign keypair.1 keypair.2
      (transcript (announceDomain floor) iid (encode state))
    match store.directory floor with
    | none => throw (.error .io)
    | some dir =>
      let written := dir.write (io.write floor) (key iid floor) (encode state ++ signature.toList)
      set (store.withDirectory floor written.2)
      ofExcept (written.1.mapError .ofFileError)

def precedes (current floor : AnnounceTrustState) : Bool :=
  current.pubkey ≠ floor.pubkey || (!seqGt current.seq floor.seq && current.seq ≠ floor.seq)

/-- The state that the two records stand for; the floor record follows the state record. -/
def reconcile (iid : Iid) :
    Option AnnounceTrustState → Option AnnounceTrustState → StoreM (Option AnnounceTrustState)
  | none, none => return none
  | none, some _ => throw (.error .corrupt)
  | some state, none => do
    write schnorr io iid true state
    return some state
  | some state, some floor =>
    if precedes state floor then throw (.error .corrupt)
    else if state ≠ floor then do
      write schnorr io iid true state
      return some state
    else return some state

def evictColdest (store : AnnounceTrustStore) (iid : Iid) : HashMap Iid CacheEntry :=
  if !store.records.containsKey iid && store.records.len ≥ maxTrackedOriginators then
    match store.records.minByKey io.order (·.lastUse.toNat) with
    | some victim => store.records.remove victim
    | none => store.records
  else store.records

def remember (iid : Iid) (state : AnnounceTrustState) : StoreM Unit :=
  modify fun store =>
    let clock := store.clock + 1
    { store with
      clock
      records := (evictColdest io store iid).insert iid ⟨state, clock⟩ }

def load (iid : Iid) : StoreM (Option AnnounceTrustState) := do
  let store ← get
  match store.records.get iid with
  | some entry =>
    let clock := store.clock + 1
    set { store with clock, records := store.records.insert iid { entry with lastUse := clock } }
    return some entry.state
  | none =>
    if store.storage.isNone then return none
    else
      let state ← read schnorr io iid false
      let floor ← read schnorr io iid true
      match ← reconcile schnorr io iid state floor with
      | none => return none
      | some state =>
        let store ← get
        if store.records.len < maxTrackedOriginators then remember io iid state
        return some state

def readDurableCurrent (iid : Iid) : StoreM (Option AnnounceTrustState) := do
  let state ← read schnorr io iid false
  let floor ← read schnorr io iid true
  match state, floor with
  | none, none => return none
  | none, some _ => throw (.error .corrupt)
  | some state, none => return some state
  | some state, some floor =>
    check (precedes state floor = true) (.error .corrupt)
    return some state

/-- A new sequence must advance what is there, and a new originator needs room. -/
def checkAdmission (store : AnnounceTrustStore) (existing : Option AnnounceTrustState)
    (next : AnnounceTrustState) : Except AnnounceStop Unit :=
  match existing with
  | some current =>
    if next.pubkey ≠ current.pubkey then .error (.error .corrupt)
    else if !seqGt next.seq current.seq then .error (.error .corrupt)
    else .ok ()
  | none =>
    if store.storage.isSome then
      if store.durableCount ≥ maxTrackedOriginators then .error (.error .full) else .ok ()
    else if store.records.len ≥ maxTrackedOriginators then .error (.error .full)
    else .ok ()

def writeFloor (iid : Iid) (next : AnnounceTrustState) : StoreM Unit :=
  tryCatch (write schnorr io iid true next) fun
    | .error error => do
      modify fun store => { store with records := store.records.remove iid }
      throw (.error error)
    | .crash => throw .crash

def commit (iid : Iid) (existing : Option AnnounceTrustState) (next : AnnounceTrustState) :
    StoreM Unit := do
  write schnorr io iid false next
  modify fun store =>
    if existing.isNone then { store with durableCount := store.durableCount + 1 } else store
  writeFloor schnorr io iid next

def accept (iid : Iid) (next : AnnounceTrustState) : StoreM Unit := do
  let store ← get
  let existing ←
    if store.storage.isSome then readDurableCurrent schnorr io iid else load schnorr io iid
  let store ← get
  ofExcept (checkAdmission store existing next)
  if store.storage.isSome then commit schnorr io iid existing next
  remember io iid next

end

end AnnounceTrustStore

end Lichen.Node
