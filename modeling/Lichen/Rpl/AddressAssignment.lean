import Lichen.Hal.Storage
import Lichen.Lib.BTreeMap
import Lichen.Lib.HashMap
import Lichen.Lib.Stateful

namespace Lichen.Core

open Lichen.Lib Lichen.Hal

abbrev Eui64 := List.Vector UInt8 8

def lichenCrc32Initial : UInt32 := 0x4348454e

def crc32Ieee (data : Bytes) (initial : UInt32) : UInt32 :=
  data.foldl crc32Byte (initial ^^^ 0xffffffff) ^^^ 0xffffffff

def deriveShortAddr (eui64 : Eui64) : Nat :=
  (crc32Ieee eui64.toList lichenCrc32Initial).toNat % 2 ^ 16

def deriveShortAddrWithSeed (eui64 : Eui64) (seed : Nat) : Nat :=
  let seedBytes := (beBytes 4 seed).reverse
  let mixed := eui64.toList.take 4 ++ List.zipWith (· ^^^ ·) (eui64.toList.drop 4) seedBytes
  deriveShortAddr (toArray 8 mixed)

example : deriveShortAddr ⟨[0x00, 0x11, 0x22, 0x33, 0x44, 0x55, 0x66, 0x77], rfl⟩ = 0x056e := by
  decide +kernel

example : deriveShortAddrWithSeed ⟨[0x00, 0x11, 0x22, 0x33, 0x44, 0x55, 0x66, 0x77], rfl⟩ 1 =
    0x620b := by
  decide +kernel

end Lichen.Core

namespace Lichen.Rpl

open Lichen.Lib Lichen.Core

inductive AssignmentError where
  | protocol (message : String)
  | persistence (message : String)
  deriving DecidableEq

inductive AssignmentOperation where
  | allocate
  | release
  deriving DecidableEq

inductive AssignmentStatus where
  | success
  | exhausted
  | invalid
  deriving DecidableEq

def firstShort : Nat := 1
def lastShort : Nat := 0xFFFD
def shortPoolSize : Nat := lastShort

def checkShort (short : Nat) : Except AssignmentError Unit :=
  if firstShort ≤ short ∧ short ≤ lastShort then .ok ()
  else .error (.protocol "short address must be in 0x0001..0xfffd")

def daoSeqIsNewer (newSeq oldSeq : UInt8) : Bool :=
  if (newSeq < 128) = (oldSeq < 128) then
    let diff := (newSeq - oldSeq) &&& 0x7F
    1 ≤ diff && diff ≤ 16
  else if newSeq < 128 then 256 + newSeq.toNat - oldSeq.toNat ≤ 16
  else 16 < 256 + oldSeq.toNat - newSeq.toNat

structure AddressAssignmentRequest where
  eui64 : Eui64
  operation : AssignmentOperation
  requestedShort : Option Nat

structure AddressAssignmentAck where
  eui64 : Eui64
  operation : AssignmentOperation
  status : AssignmentStatus
  assignedShort : Option Nat
  daoSequence : UInt8
  deriving DecidableEq

def AddressAssignmentAck.new (eui64 : Eui64) (operation : AssignmentOperation)
    (status : AssignmentStatus) (assignedShort : Option Nat) (daoSequence : UInt8) :
    Except AssignmentError AddressAssignmentAck := do
  assignedShort.elim (.ok ()) checkShort
  let shouldAssign := operation = .allocate ∧ status = .success
  if decide shouldAssign ≠ assignedShort.isSome then
    .error (.protocol "ACK address is inconsistent with operation/status")
  else
    .ok ⟨eui64, operation, status, assignedShort, daoSequence⟩

structure TableSnapshot where
  assignments : BTreeMap Eui64
  expiries : HashMap Eui64 Nat
  sequences : HashMap Eui64 UInt8

def stateMagic : Bytes := "SAA1".toUTF8.toList
def stateRecordLength : Nat := 10
def tableStateMagic : Bytes := "SAT2".toUTF8.toList
def tableStateRecordLength : Nat := 20
def noExpiry : Nat := 2 ^ 64 - 1
def noSequence : Nat := 256

def crc32Be (data : Bytes) : Bytes := beBytes 4 (crc32Ieee data 0).toNat

def checksumOk (state : Bytes) : Bool :=
  4 ≤ state.length &&
    crc32Be (state.take (state.length - 4)) = state.drop (state.length - 4)

def writeRecords (record : Nat → Eui64 → Bytes) :
    List (Nat × Eui64) → List Eui64 → Except AssignmentError Bytes
  | [], _ => .ok []
  | (short, eui64) :: rest, seen => do
    checkShort short
    if eui64 ∈ seen then
      .error (.protocol "one EUI-64 cannot own multiple short addresses")
    else
      let records ← writeRecords record rest (eui64 :: seen)
      return record short eui64 ++ records

def encodeRecords (magic : Bytes) (assignments : BTreeMap Eui64) (record : Nat → Eui64 → Bytes) :
    Except AssignmentError Bytes := do
  if shortPoolSize < assignments.len then
    .error (.protocol "too many short-address assignments")
  else
    let records ← writeRecords record assignments.entries []
    let body := magic ++ beBytes 2 assignments.len ++ records
    return body ++ crc32Be body

def encodeAssignmentState (assignments : BTreeMap Eui64) : Except AssignmentError Bytes :=
  encodeRecords stateMagic assignments fun short eui64 => beBytes 2 short ++ eui64.toList

def encodeTableState (table : TableSnapshot) : Except AssignmentError Bytes :=
  encodeRecords tableStateMagic table.assignments fun short eui64 =>
    let expiry := (table.expiries.get eui64).getD noExpiry
    let sequence := ((table.sequences.get eui64).map UInt8.toNat).getD noSequence
    beBytes 2 short ++ eui64.toList ++ beBytes 8 expiry ++ beBytes 2 sequence

structure StateErrors where
  header : String
  length : String
  checksum : String
  unsorted : String
  duplicate : String

/-- The records at the front of `state`, each with what `extra` reads behind its EUI-64. -/
def readRecords {α : Type} (errors : StateErrors) (recordLength : Nat)
    (extra : Bytes → Except AssignmentError α) :
    Nat → Bytes → Nat → List Eui64 → Except AssignmentError (List (Nat × Eui64 × α))
  | 0, _, _, _ => .ok []
  | count + 1, state, previous, seen => do
    let short := beNat (state.extract 0 2)
    let eui64 := toArray 8 (state.extract 2 10)
    checkShort short
    if short ≤ previous then .error (.protocol errors.unsorted)
    else if eui64 ∈ seen then .error (.protocol errors.duplicate)
    else
      let value ← extra (state.extract 10 recordLength)
      let rest ← readRecords errors recordLength extra count (state.drop recordLength) short
        (eui64 :: seen)
      return (short, eui64, value) :: rest

def decodeRecords {α : Type} (errors : StateErrors) (recordLength : Nat)
    (extra : Bytes → Except AssignmentError α) (state : Bytes) :
    Except AssignmentError (List (Nat × Eui64 × α)) :=
  let count := beNat (state.extract 4 6)
  if state.length ≠ 6 + count * recordLength + 4 then .error (.protocol errors.length)
  else if ¬checksumOk state then .error (.protocol errors.checksum)
  else readRecords errors recordLength extra count (state.drop 6) 0 []

def stateErrors : StateErrors where
  header := "invalid assignment state header"
  length := "assignment state length does not match record count"
  checksum := "assignment state checksum mismatch"
  unsorted := "assignment state records are not strictly sorted"
  duplicate := "assignment state contains duplicate EUI-64"

def decodeAssignmentState (state : Bytes) : Except AssignmentError (BTreeMap Eui64) := do
  if state.length < 10 ∨ ¬stateMagic <+: state then .error (.protocol stateErrors.header)
  else
    let records ← decodeRecords stateErrors stateRecordLength (fun _ => .ok ()) state
    return .collect (records.map fun r => (r.1, r.2.1))

def tableStateErrors : StateErrors where
  header := "invalid coordinator table state header"
  length := "coordinator table state length mismatch"
  checksum := "coordinator table state checksum mismatch"
  unsorted := "coordinator table records are not strictly sorted"
  duplicate := "coordinator table contains duplicate EUI-64"

def readLease (bytes : Bytes) : Except AssignmentError (Option Nat × Option UInt8) :=
  let expiry := beNat (bytes.extract 0 8)
  let sequence := beNat (bytes.extract 8 10)
  if noSequence < sequence then .error (.protocol "persisted DAO sequence is invalid")
  else .ok (if expiry = noExpiry then none else some expiry,
    if sequence = noSequence then none else some (UInt8.ofNat sequence))

def TableSnapshot.ofRecords (records : List (Nat × Eui64 × Option Nat × Option UInt8)) :
    TableSnapshot where
  assignments := .collect (records.map fun r => (r.1, r.2.1))
  expiries := .collect (records.filterMap fun r => r.2.2.1.map fun expiry => (r.2.1, expiry))
  sequences := .collect (records.filterMap fun r => r.2.2.2.map fun sequence => (r.2.1, sequence))

def decodeTableState (state : Bytes) : Except AssignmentError TableSnapshot := do
  if ¬tableStateMagic <+: state then
    let assignments ← decodeAssignmentState state
    return ⟨assignments, .new, .new⟩
  else if state.length < 10 then .error (.protocol tableStateErrors.header)
  else
    let records ← decodeRecords tableStateErrors tableStateRecordLength readLease state
    return .ofRecords records

/-- The store of the snapshots: whether it keeps what it saves, whether it can be read, and how the
saves to come turn out (well, once none is foretold). -/
structure AddressAssignmentStore where
  persistent : Bool
  state : Option Bytes
  readable : Bool
  saves : List Bool

namespace AddressAssignmentStore

section

variable (store : AddressAssignmentStore)

def load : Except AssignmentError (Option Bytes) :=
  if store.readable then .ok (if store.persistent then store.state else none)
  else .error (.persistence "could not load assignment state")

def save (state : Bytes) : Bool × AddressAssignmentStore :=
  if store.saves.headD true then
    (true, { store with
      state := if store.persistent then some state else store.state
      saves := store.saves.tail })
  else (false, { store with saves := store.saves.tail })

end

end AddressAssignmentStore

structure ShortAddressCoordinator where
  store : AddressAssignmentStore
  capacity : Nat
  leaseSeconds : Option Nat
  byShort : BTreeMap Eui64
  byEui : HashMap Eui64 Nat
  expiresByEui : HashMap Eui64 Nat
  lastSequenceByEui : HashMap Eui64 UInt8

abbrev CoordinatorM := EStateM AssignmentError ShortAddressCoordinator

namespace ShortAddressCoordinator

section

variable (c : ShortAddressCoordinator)

def lookupByShort (short : Nat) : Option Eui64 := c.byShort.get short

def lookupByEui (eui64 : Eui64) : Option Nat := c.byEui.get eui64

def len : Nat := c.byShort.len

end

def euiMap (assignments : BTreeMap Eui64) : HashMap Eui64 Nat :=
  .collect (assignments.entries.map Prod.swap)

def commit (table : TableSnapshot) : CoordinatorM Unit := do
  let blob ← ofExcept (encodeTableState table)
  let c ← get
  let saved := c.store.save blob
  set { c with store := saved.2 }
  check (saved.1 = false) (.persistence "could not commit assignment state")
  modify fun c => { c with
    byEui := euiMap table.assignments
    byShort := table.assignments
    expiresByEui := table.expiries
    lastSequenceByEui := table.sequences }

def isExpired (c : ShortAddressCoordinator) (now : Nat) (eui64 : Eui64) : Bool :=
  (c.expiresByEui.get eui64).any (· ≤ now)

def unexpired (c : ShortAddressCoordinator) (now : Nat) : TableSnapshot where
  assignments := c.byShort.filter fun _ eui64 => !c.isExpired now eui64
  expiries := c.expiresByEui.retain fun eui64 _ => !c.isExpired now eui64
  sequences := c.lastSequenceByEui.retain fun eui64 _ => !c.isExpired now eui64

/-- `now` is the time that the caller gives or, if it gives none, that the clock shows. -/
def pruneExpired (now : Nat) : CoordinatorM Nat := do
  let c ← get
  let expired := c.expiresByEui.toPairs.filter fun e => e.2 ≤ now
  if expired = [] then
    return 0
  else
    commit (c.unexpired now)
    return expired.length

def fallbackFrom (occupied : BTreeMap Eui64) (start : Nat) : Nat → Nat → Option Nat
  | 0, _ => none
  | remaining + 1, offset =>
    let candidate := firstShort + (start - firstShort + offset) % shortPoolSize
    if occupied.containsKey candidate then fallbackFrom occupied start remaining (offset + 1)
    else some candidate

def fallback (start : Nat) (occupied : BTreeMap Eui64) : Option Nat :=
  if shortPoolSize ≤ occupied.len then none
  else fallbackFrom occupied (max start firstShort) shortPoolSize 0

def isFree (c : ShortAddressCoordinator) (short : Nat) : Bool :=
  firstShort ≤ short && short ≤ lastShort && !c.byShort.containsKey short

def seededFrom (c : ShortAddressCoordinator) (eui64 : Eui64) : Nat → Nat → Option Nat
  | 0, _ => none
  | remaining + 1, seed =>
    let candidate := deriveShortAddrWithSeed eui64 seed
    if c.isFree candidate then some candidate else seededFrom c eui64 remaining (seed + 1)

def candidate (c : ShortAddressCoordinator) (eui64 : Eui64) (preferred : Option Nat) :
    Option Nat :=
  let derived := deriveShortAddr eui64
  (preferred.filter fun short => !c.byShort.containsKey short).or <|
    if c.isFree derived then some derived
    else (c.seededFrom eui64 255 1).or <|
      fallback (preferred.getD (max derived firstShort)) c.byShort

def isStale (c : ShortAddressCoordinator) (eui64 : Eui64) (daoSequence : UInt8) : Bool :=
  (c.lastSequenceByEui.get eui64).any fun last => !daoSeqIsNewer daoSequence last

def renewed (c : ShortAddressCoordinator) (eui64 : Eui64) (now : Nat) :
    Except AssignmentError (HashMap Eui64 Nat) :=
  match c.leaseSeconds with
  | none => .ok c.expiresByEui
  | some lease =>
    if now + lease < 2 ^ 64 then .ok (c.expiresByEui.insert eui64 (now + lease))
    else .error (.protocol "lease expiry overflow")

section process

variable (request : AddressAssignmentRequest) (daoSequence : UInt8)

def answerStale (current : Option Nat) : CoordinatorM AddressAssignmentAck :=
  let alreadyMatches : Bool := match request.operation with
    | .release => current.isNone
    | .allocate => current.isSome
  ofExcept (AddressAssignmentAck.new request.eui64 request.operation
    (if alreadyMatches then .success else .invalid)
    (if alreadyMatches ∧ request.operation = .allocate then current else none) daoSequence)

def releaseCurrent (current : Option Nat) : CoordinatorM Unit := do
  let c ← get
  let sequences := c.lastSequenceByEui.insert request.eui64 daoSequence
  match current with
  | some current =>
    commit ⟨c.byShort.remove current, c.expiresByEui.remove request.eui64, sequences⟩
  | none => set { c with lastSequenceByEui := sequences }

def processRelease (current : Option Nat) : CoordinatorM AddressAssignmentAck := do
  releaseCurrent request daoSequence current
  ofExcept (AddressAssignmentAck.new request.eui64 request.operation .success none daoSequence)

/-- Give `request` the address `short`, with `assignments` as the table to commit. -/
def assign (assignments : BTreeMap Eui64) (short now : Nat) :
    CoordinatorM AddressAssignmentAck := do
  let c ← get
  let expiries ← ofExcept (c.renewed request.eui64 now)
  commit ⟨assignments, expiries, c.lastSequenceByEui.insert request.eui64 daoSequence⟩
  ofExcept (AddressAssignmentAck.new request.eui64 request.operation .success (some short) daoSequence)

def processAllocate (current : Option Nat) (now : Nat) : CoordinatorM AddressAssignmentAck := do
  let c ← get
  let exhausted := AddressAssignmentAck.new request.eui64 request.operation .exhausted none
    daoSequence
  match current with
  | some current => assign request daoSequence c.byShort current now
  | none =>
    if c.capacity ≤ c.byShort.len then ofExcept exhausted
    else match c.candidate request.eui64 request.requestedShort with
    | none => ofExcept exhausted
    | some current => assign request daoSequence (c.byShort.insert current request.eui64) current now

def process (authenticatedEui64 : Eui64) (now : Nat) : CoordinatorM AddressAssignmentAck := do
  check (request.eui64 ≠ authenticatedEui64)
    (.protocol "assignment option EUI-64 does not match authenticated origin")
  let _ ← pruneExpired now
  let c ← get
  let current := c.byEui.get request.eui64
  if c.isStale request.eui64 daoSequence then answerStale request daoSequence current
  else match request.operation with
  | .release => processRelease request daoSequence current
  | .allocate => processAllocate request daoSequence current now

end process

def checkCapacity (capacity : Nat) : Except AssignmentError Unit :=
  if 1 ≤ capacity ∧ capacity ≤ shortPoolSize then .ok ()
  else .error (.protocol "capacity must be in 1..65533")

def startTable (stored : Option Bytes) (initial : Option (BTreeMap Eui64)) :
    Except AssignmentError TableSnapshot :=
  match stored, initial with
  | some _, some _ => .error (.protocol "store and initial_assignments are mutually exclusive")
  | some blob, none => decodeTableState blob
  | none, some initial => do
    let blob ← encodeAssignmentState initial
    let assignments ← decodeAssignmentState blob
    return ⟨assignments, .new, .new⟩
  | none, none => .ok ⟨.new, .new, .new⟩

def build (store : AddressAssignmentStore) (initial : Option (BTreeMap Eui64)) (capacity : Nat)
    (leaseSeconds : Option Nat) (now : Nat) : Except AssignmentError ShortAddressCoordinator := do
  checkCapacity capacity
  if leaseSeconds = some 0 then .error (.protocol "lease_seconds must be positive")
  else
    let stored ← store.load
    let table ← startTable stored initial
    if capacity < table.assignments.len then
      .error (.protocol "persisted assignments exceed coordinator capacity")
    else
      let started := execute (pruneExpired now) {
        store, capacity, leaseSeconds
        byShort := table.assignments
        byEui := euiMap table.assignments
        expiresByEui := table.expiries
        lastSequenceByEui := table.sequences }
      let _ ← started.1
      return started.2

end ShortAddressCoordinator

/-- What a request's run can meet: a coordinator, or the store it left. -/
inductive AssignmentSite where
  | up (coordinator : ShortAddressCoordinator)
  | down (store : AddressAssignmentStore)

inductive AssignmentEvent where
  | process (request : AddressAssignmentRequest) (daoSequence : UInt8) (authenticatedEui64 : Eui64)
      (now : Nat) (saves : List Bool)
  | pruneExpired (now : Nat) (saves : List Bool)
  | restart (initial : Option (BTreeMap Eui64)) (capacity : Nat) (leaseSeconds : Option Nat)
      (now : Nat) (readable : Bool) (saves : List Bool)

namespace AssignmentSite

def store : AssignmentSite → AddressAssignmentStore
  | .up c => c.store
  | .down store => store

def lookupByEui : AssignmentSite → Eui64 → Option Nat
  | .up c, eui64 => c.lookupByEui eui64
  | .down _, _ => none

def step : AssignmentSite → AssignmentEvent → AssignmentSite
  | .up c, .process request daoSequence authenticatedEui64 now saves =>
    .up (execute (ShortAddressCoordinator.process request daoSequence authenticatedEui64 now)
      { c with store := { c.store with saves } }).2
  | .up c, .pruneExpired now saves =>
    .up (execute (ShortAddressCoordinator.pruneExpired now)
      { c with store := { c.store with saves } }).2
  | site, .restart initial capacity leaseSeconds now readable saves =>
    let store := { site.store with readable, saves }
    match ShortAddressCoordinator.build store initial capacity leaseSeconds now with
    | .ok c => .up c
    | .error _ => .down store
  | .down store, _ => .down store

end AssignmentSite

end Lichen.Rpl
