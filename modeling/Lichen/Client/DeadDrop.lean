import Lichen.Client.Senml
import Lichen.Lib.HashMap
import Lichen.Lib.Text
import Lichen.Lib.Stateful

namespace Lichen.Client

open Lichen.Lib

def postsPerHour : Nat := 6
def maxDropSize : Nat := 1536
def maxRecordsPerPack : Nat := 32
def defaultTtl : Nat := 24 * 3600
def maxTtl : Nat := 7 * 24 * 3600
def dropIdHexLen : Nat := 6
def maxIdAttempts : Nat := 32

def isDropId (value : String) : Bool :=
  value.utf8ByteSize == dropIdHexLen &&
    value.toList.all fun c => c.isDigit || (decide ('a' ≤ c) && decide (c ≤ 'f'))

inductive Privacy where
  | «public»
  | «private»
  | group
  deriving DecidableEq

def Privacy.parse (value : String) : Option Privacy :=
  if value = "public" then some .public
  else if value = "private" then some .private
  else if value = "group" then some .group
  else none

section Records

variable {F : Type} [F64 F]

section

variable (records : List (SenmlRecord F))

def privacyFromRecords : Except Unit (Option Privacy) :=
  match senmlText records "privacy" with
  | none => .ok none
  | some token =>
    match Privacy.parse token with
    | some privacy => .ok (some privacy)
    | none => .error ()

def ttlRecords : Option F × Option F :=
  records.foldl (fun found record =>
    match record.value with
    | none => found
    | some value =>
      if record.name = some "ttl" then (some value, found.2)
      else if record.name = some "expires" then (found.1, some value)
      else found) (none, none)

end

def clampTtl (ttl : Int) : Nat := (min (max ttl 0) maxTtl).toNat

def extractTtl (records : List (SenmlRecord F)) (now : F) : Nat :=
  match ttlRecords records with
  | (some ttl, _) =>
    if F64.isFinite ttl then clampTtl (F64.toI64 ttl)
    else if F64.lt (F64.ofInt 0) ttl then maxTtl else 0
  | (none, some expires) =>
    let remaining := F64.sub expires now
    if F64.lt (F64.ofInt 0) remaining then clampTtl (F64.toI64 remaining) else 0
  | (none, none) => defaultTtl

end Records

structure DropView (F : Type) where
  id : String
  records : List (SenmlRecord F)
  created : F
  ttl : Nat
  ageS : Nat
  size : Nat
  privacy : Privacy
  recipient : Option String
  context : String

def dropVisible (privacy : Privacy) (context : String) (recipient viewer : Option String) : Bool :=
  match privacy with
  | .public => true
  | .private => viewer == some context
  | .group => viewer == some context || viewer == recipient

structure StoredDrop (F : Type) where
  id : String
  records : List (SenmlRecord F)
  created : F
  ttl : Nat
  context : String
  size : Nat
  privacy : Privacy
  recipient : Option String

namespace StoredDrop

variable {F : Type} [F64 F]

section

variable (drop : StoredDrop F)

def visibleTo (viewer : Option String) : Bool :=
  dropVisible drop.privacy drop.context drop.recipient viewer

def age (now : F) : Nat :=
  F64.toU64 (F64.max (F64.sub now drop.created) (F64.ofInt 0))

def view (now : F) : DropView F where
  id := drop.id
  records := drop.records
  created := drop.created
  ttl := drop.ttl
  ageS := drop.age now
  size := drop.size
  privacy := drop.privacy
  recipient := drop.recipient
  context := drop.context

end

end StoredDrop

inductive PostOutcome (F : Type) where
  | created (dropId locationPath : String) (maxAge : Nat)
  | badRequest
  | unauthorized
  | entityTooLarge
  | tooManyRequests (retryAfter : Nat)
  | serviceUnavailable (retryAfter : Nat) (availableKb : F)
  deriving DecidableEq

inductive PickupOutcome where
  | content (payload : Bytes) (contentFormat : Nat) (maxAge : Option Nat)
  | forbidden
  | notFound
  | internalError
  deriving DecidableEq

structure GetResponse where
  payload : Bytes
  contentFormat : Nat
  observe : Option Nat

structure DropFilter (F : Type) where
  dropType : Option String
  after : Option F
  node : Option String

structure AddDropParams where
  ttl : Option Nat
  dropId : Option String
  privacy : Privacy
  recipient : Option String

structure PostRequest where
  body : Bytes
  identity : Option String

/-- The store with the readings of its clock and the draws of the random source, and how many of
them were used. -/
structure DeadDropStore (F : Type) where
  storageLimit : Nat
  clock : Nat → F
  random : Nat → Option (List.Vector UInt8 3)
  drops : List (StoredDrop F)
  requestTimes : HashMap String (List F)
  currentStorage : Nat
  version : Nat
  readings : Nat
  draws : Nat

namespace DeadDropStore

variable {F ε : Type} [F64 F]

def withClock (storageLimit : Nat) (clock : Nat → F)
    (random : Nat → Option (List.Vector UInt8 3)) : Except Error (DeadDropStore F) :=
  if storageLimit = 0 then .error (.config "storage_limit must be a positive integer")
  else .ok ⟨storageLimit, clock, random, [], .new, 0, 0, 0, 0⟩

def now : EStateM ε (DeadDropStore F) F := do
  let store ← get
  set { store with readings := store.readings + 1 }
  return store.clock store.readings

def fillRandom : EStateM ε (DeadDropStore F) (Option (List.Vector UInt8 3)) := do
  let store ← get
  set { store with draws := store.draws + 1 }
  return store.random store.draws

def pruned (store : DeadDropStore F) (now : F) : DeadDropStore F :=
  let drops := store.drops.filter fun drop =>
    F64.lt (F64.sub now drop.created) (F64.ofInt drop.ttl)
  if drops.length ≠ store.drops.length then
    { store with drops, currentStorage := (drops.map (·.size)).sum }
  else { store with drops }

def pruneExpired : EStateM ε (DeadDropStore F) Unit := do
  let now ← now
  modify (·.pruned now)

def evictOldest (storageLimit needed : Nat) :
    List (StoredDrop F) → Nat → List (StoredDrop F) × Nat
  | [], currentStorage => ([], currentStorage)
  | oldest :: drops, currentStorage =>
    if storageLimit < currentStorage + needed then
      evictOldest storageLimit needed drops (currentStorage - oldest.size)
    else (oldest :: drops, currentStorage)

def evictForSpace (needed : Nat) : EStateM ε (DeadDropStore F) Bool := do
  let store ← get
  if store.storageLimit < needed then return false
  else
    pruneExpired
    let store ← get
    let left := evictOldest store.storageLimit needed store.drops store.currentStorage
    set { store with drops := left.1, currentStorage := left.2 }
    return decide (left.2 + needed ≤ store.storageLimit)

def findIndex (store : DeadDropStore F) (dropId : String) : Option Nat :=
  store.drops.findIdx? fun drop => drop.id == dropId

def generateDropId : Nat → EStateM ε (DeadDropStore F) (Option String)
  | 0 => return none
  | attempts + 1 => do
    match ← fillRandom with
    | none => return none
    | some bytes =>
      let store ← get
      let id := hexEncode bytes.toList
      if (store.findIndex id).isNone then return some id
      else generateDropId attempts

def reapStaleBuckets : EStateM ε (DeadDropStore F) Unit := do
  let cutoff := F64.sub (← now) (F64.ofInt 3600)
  modify fun store => { store with
    requestTimes := store.requestTimes.retainMut fun _ times =>
      let times := times.filter fun t => F64.lt cutoff t
      if times = [] then none else some times }

def checkRateLimit (contextId : String) : EStateM ε (DeadDropStore F) (Bool × Nat) := do
  reapStaleBuckets
  let now ← now
  let store ← get
  match store.requestTimes.get contextId with
  | none => return (true, 0)
  | some timestamps =>
    if timestamps.length < postsPerHour then return (true, 0)
    else
      let oldest := timestamps.foldl F64.min F64.infinity
      let retryAfter := F64.ceil (F64.sub (F64.ofInt 3600) (F64.sub now oldest))
      return (false, (max (F64.toI64 retryAfter) 1).toNat)

def recordRequest (contextId : String) : EStateM ε (DeadDropStore F) Unit := do
  reapStaleBuckets
  let now ← now
  modify fun store => { store with
    requestTimes := store.requestTimes.insert contextId
      ((store.requestTimes.get contextId).getD [] ++ [now]) }

def availableKb (store : DeadDropStore F) : F :=
  F64.div (F64.ofInt (store.storageLimit - store.currentStorage : Nat)) (F64.ofInt 1024)

def pushDrop (drop : StoredDrop F) : EStateM ε (DeadDropStore F) Unit :=
  modify fun store => { store with
    drops := store.drops ++ [drop]
    currentStorage := store.currentStorage + drop.size
    version := store.version + 1 }

def chooseDropId : Option String → EStateM Unit (DeadDropStore F) String
  | some id => do
    let store ← get
    check (isDropId id = false ∨ (store.findIndex id).isSome) ()
    return id
  | none => do
    match ← generateDropId maxIdAttempts with
    | none => throw ()
    | some id => return id

section

variable (payload : List (SenmlRecord F))

def effectiveTtl : Option Nat → EStateM ε (DeadDropStore F) Nat
  | some ttl => return min ttl maxTtl
  | none => extractTtl payload <$> now

def addDrop (contextId : String) (params : AddDropParams) :
    EStateM Unit (DeadDropStore F) String := do
  let encoded ← ofExcept ((encodeSenmlPack payload).mapError fun _ => ())
  let size := encoded.length
  check (maxDropSize < size ∨ maxRecordsPerPack < payload.length) ()
  let ttl ← effectiveTtl payload params.ttl
  let privacy ← ofExcept (privacyFromRecords payload)
  let recipient := params.recipient <|> senmlText payload "recipient" <|> senmlText payload "node"
  let dropId ← chooseDropId params.dropId
  let fits ← evictForSpace size
  check (fits = false) ()
  let now ← now
  pushDrop
    { id := dropId, records := payload, created := now, ttl, context := contextId, size,
      privacy := privacy.getD params.privacy, recipient }
  return dropId

end

def post (ciborium : Ciborium F) (request : PostRequest) :
    EStateM (PostOutcome F) (DeadDropStore F) (PostOutcome F) := do
  match request.identity with
  | none => throw .unauthorized
  | some contextId =>
    check (request.body = []) .badRequest
    check (maxDropSize < request.body.length) .entityTooLarge
    let records ← ofExcept ((decodeSenmlPack ciborium request.body).mapError fun _ => .badRequest)
    check (maxRecordsPerPack < records.length) .badRequest
    let (allowed, retryAfter) ← checkRateLimit contextId
    check (allowed = false) (.tooManyRequests retryAfter)
    let now ← now
    let ttl := extractTtl records now
    let privacy ← ofExcept ((privacyFromRecords records).mapError fun _ => .badRequest)
    let size := request.body.length
    match ← generateDropId maxIdAttempts with
    | none => throw (.serviceUnavailable 3600 (← get).availableKb)
    | some dropId =>
      let fits ← evictForSpace size
      check (fits = false) (.serviceUnavailable 3600 (← get).availableKb)
      let recipient := senmlText records "recipient" <|> senmlText records "node"
      pushDrop
        { id := dropId, records, created := now, ttl, context := contextId, size,
          privacy := privacy.getD .public, recipient }
      recordRequest contextId
      return .created dropId ("/deaddrop/" ++ dropId) ttl

def DropFilter.admits (filter : DropFilter F) (drop : StoredDrop F) : Bool :=
  (filter.after.all fun after => !F64.le drop.created after) &&
    (filter.dropType.all fun want => senmlText drop.records "type" == some want) &&
    (filter.node.all fun node =>
      (drop.recipient <|> senmlText drop.records "recipient") == some node ||
        senmlText drop.records "node" == some node)

def listDrops (contextId : Option String) (filter : DropFilter F) :
    EStateM ε (DeadDropStore F) (List (DropView F)) := do
  pruneExpired
  let now ← now
  let store ← get
  return (store.drops.filter fun drop =>
    drop.visibleTo contextId && DropFilter.admits filter drop).map (·.view now)

def wrapped (view : DropView F) : List (SenmlRecord F) :=
  [.text "id" view.id, .number "age_s" "s" (F64.ofInt view.ageS),
    .number "ttl" "s" (F64.ofInt view.ttl), .number "size" "B" (F64.ofInt view.size)] ++
    view.records

def renderGet (contextId : Option String) (filter : DropFilter F) (observe : Bool) :
    EStateM Error (DeadDropStore F) GetResponse := do
  let views ← listDrops contextId filter
  let payload ← ofExcept (encodeSenmlPack (views.flatMap wrapped))
  let store ← get
  return ⟨payload, 112, if observe then some store.version else none⟩

def getById (dropId : String) (contextId : Option String) :
    EStateM PickupOutcome (DeadDropStore F) PickupOutcome := do
  check (isDropId dropId = false) .notFound
  pruneExpired
  let store ← get
  match store.drops.find? fun drop => drop.id == dropId with
  | none => throw .notFound
  | some drop =>
    let now ← now
    check (drop.visibleTo contextId = false)
      (if drop.privacy = .private then .notFound else .forbidden)
    let payload ← ofExcept ((encodeSenmlPack drop.records).mapError fun _ => .internalError)
    let remaining := drop.ttl - drop.age now
    return .content payload 112 (if 0 < remaining then some remaining else none)

end DeadDropStore

end Lichen.Client
