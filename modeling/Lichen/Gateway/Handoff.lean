import Lichen.Client.SenmlRoundTrip
import Lichen.Gateway.CapabilityAnnounce

namespace Lichen.Gateway

open Lichen.Client Lichen.Core Lichen.Lib

inductive HandoffRejectReason
  | success
  | nodeNotFound
  | nodeBusy
  | authFailed
  | malformedRequest
  | internalError
  | rateLimited
  deriving DecidableEq

namespace HandoffRejectReason

def asU8 : HandoffRejectReason → UInt8
  | success => 0
  | nodeNotFound => 1
  | nodeBusy => 2
  | authFailed => 3
  | malformedRequest => 4
  | internalError => 5
  | rateLimited => 6

def tryFrom (value : UInt8) : Option HandoffRejectReason :=
  match value.toNat with
  | 0 => some success
  | 1 => some nodeNotFound
  | 2 => some nodeBusy
  | 3 => some authFailed
  | 4 => some malformedRequest
  | 5 => some internalError
  | 6 => some rateLimited
  | _ => none

theorem asU8_of_tryFrom (h : tryFrom value = some reason) : reason.asU8 = value := by
  unfold tryFrom at h
  split at h <;> simp_all [asU8, ← UInt8.toNat_inj]
  all_goals subst h; rfl

theorem tryFrom_of_lt (h : 6 < value.toNat) : tryFrom value = none := by
  unfold tryFrom
  split <;> simp_all

end HandoffRejectReason

inductive HandoffError
  | invalidCbor
  | expectedMap
  | missingField (name : String)
  | invalidFieldType (name : String)
  | invalidAddress
  | malformedOscoreState (message : String)
  | malformedFreshnessState (message : String)
  | handoffFailed (status : HandoffRejectReason)
  | missingSuccessField (name : String)
  | sequenceExhausted (name : String)

def keyNodeAddr : Int := 1
def keyDaoSeq : Int := 2
def keyPathSeq : Int := 3
def keyOscoreParams : Int := 4
def keyOscoreSenderSeq : Int := 5
def keyOscoreReplay : Int := 6
def keyFreshness : Int := 7
def keyParents : Int := 8
def keyStatus : Int := 100
def keyMessage : Int := 101

def keyOscoreSecret : Int := 1
def keyOscoreSalt : Int := 2
def keyOscoreSenderId : Int := 3
def keyOscoreRecipientId : Int := 4
def keyOscoreAlg : Int := 5
def keyOscoreHashfun : Int := 6
def keyOscoreWindow : Int := 7
def keyOscoreIdCtx : Int := 8

structure OscoreState where
  masterSecret : Bytes
  masterSalt : Bytes
  senderId : Bytes
  recipientId : Bytes
  /-- As the value of an `i64`. -/
  algorithm : Int
  hashfun : String
  windowSize : UInt32
  idContext : Option Bytes
  senderSequence : UInt64
  replayIndex : UInt64
  replayBitfield : UInt64

structure FreshnessState (F : Type) where
  sequence : UInt32
  activeUntil : Option F
  retainUntil : F
  updatedAt : F

structure HandoffResponse (F : Type) where
  status : HandoffRejectReason
  message : String
  nodeAddress : Option Ipv6Addr := none
  daoSequence : Option UInt32 := none
  pathSequence : Option UInt32 := none
  oscoreState : Option OscoreState := none
  freshness : Option (FreshnessState F) := none
  parents : List Ipv6Addr := []

section Decode

variable {F : Type}

/-- The value of an entry with an integer key, where it is of the wanted kind. -/
def entryAt {α : Type} (kind : Value F → Option α) (key : Int) (entry : Value F × Value F) :
    Option α :=
  match entry.1 with
  | .integer i => if i = key then kind entry.2 else none
  | _ => none

def cborGet {α : Type} (kind : Value F → Option α) (map : List (Value F × Value F)) (key : Int) :
    Option α :=
  map.findSome? (entryAt kind key)

def cborGetNamed {α : Type} (kind : Value F → Option α) (map : List (Value F × Value F))
    (key : String) : Option α :=
  map.findSome? fun entry =>
    match entry.1 with
    | .text t => if t = key then kind entry.2 else none
    | _ => none

def asFloat : Value F → Option F
  | .float f => some f
  | _ => none

def asText : Value F → Option String
  | .text t => some t
  | _ => none

def asItems : Value F → Option (List (Value F))
  | .array items => some items
  | _ => none

def asEntries : Value F → Option (List (Value F × Value F))
  | .map entries => some entries
  | _ => none

section

variable (map : List (Value F × Value F))

def getInt (key : Int) : Option Int := cborGet asInt map key

def cborGetInt (key : Int) : Option Int :=
  (getInt map key).map fun i => i.bmod (2 ^ 64)

def cborGetBytes (key : Int) : Option Bytes :=
  cborGet asBytes map key

def cborGetText (key : Int) : Option String :=
  cborGet asText map key

def cborGetMap (key : Int) : Option (List (Value F × Value F)) :=
  cborGet asEntries map key

def cborGetArray (key : Int) : Option (List (Value F)) :=
  cborGet asItems map key

end

def need {α : Type} (error : HandoffError) : Option α → Except HandoffError α
  | some a => .ok a
  | none => .error error

section

variable (map : List (Value F × Value F))

def OscoreState.fromCborMap :
    Except HandoffError OscoreState := do
  let params ← need (.malformedOscoreState "missing params") (cborGetMap map keyOscoreParams)
  let masterSecret ← need (.malformedOscoreState "missing master_secret")
    (cborGetBytes params keyOscoreSecret)
  let masterSalt ← need (.malformedOscoreState "missing master_salt")
    (cborGetBytes params keyOscoreSalt)
  let senderId ← need (.malformedOscoreState "missing sender_id")
    (cborGetBytes params keyOscoreSenderId)
  let recipientId ← need (.malformedOscoreState "missing recipient_id")
    (cborGetBytes params keyOscoreRecipientId)
  let algorithm ← need (.malformedOscoreState "missing algorithm")
    (cborGetInt params keyOscoreAlg)
  let hashfun ← need (.malformedOscoreState "missing hashfun")
    (cborGetText params keyOscoreHashfun)
  let windowSize ← need (.malformedOscoreState "missing window_size")
    (cborGetInt params keyOscoreWindow)
  let senderSequence ← need (.malformedOscoreState "missing sender_sequence")
    (cborGetInt map keyOscoreSenderSeq)
  match ← need (.malformedOscoreState "missing replay") (cborGetArray map keyOscoreReplay) with
  | [index, bitfield] =>
    let replayIndex ← need (.malformedOscoreState "replay_index must be integer") (asInt index)
    let replayBitfield ←
      need (.malformedOscoreState "replay_bitfield must be integer") (asInt bitfield)
    return {
      masterSecret, masterSalt, senderId, recipientId, algorithm, hashfun
      windowSize := UInt32.ofInt windowSize
      idContext := cborGetBytes params keyOscoreIdCtx
      senderSequence := UInt64.ofInt senderSequence
      replayIndex := UInt64.ofInt replayIndex
      replayBitfield := UInt64.ofInt replayBitfield }
  | _ => throw (.malformedOscoreState "replay must be [index, bitfield]")

def FreshnessState.fromCborMap :
    Except HandoffError (FreshnessState F) := do
  let sequence ← need (.malformedFreshnessState "missing seq") (cborGetNamed asInt map "seq")
  let retainUntil ← need (.malformedFreshnessState "missing retain")
    (cborGetNamed asFloat map "retain")
  let updatedAt ← need (.malformedFreshnessState "missing updated")
    (cborGetNamed asFloat map "updated")
  return ⟨UInt32.ofInt sequence, cborGetNamed asFloat map "active", retainUntil, updatedAt⟩

def hasKey (key : Int) : Bool :=
  (cborGet (fun _ => some ()) map key).isSome

end

namespace HandoffResponse

section

variable (map : List (Value F × Value F))

def nodeAddressOf : Except HandoffError (Option Ipv6Addr) :=
  match cborGetBytes map keyNodeAddr with
  | some b => (need .invalidAddress (asArray 16 b)).map some
  | none => .ok none

def oscoreStateOf : Except HandoffError (Option OscoreState) :=
  if hasKey map keyOscoreParams then (OscoreState.fromCborMap map).map some else .ok none

def freshnessOf :
    Except HandoffError (Option (FreshnessState F)) :=
  match cborGetMap map.reverse keyFreshness with
  | some entries => (FreshnessState.fromCborMap entries).map some
  | none => .ok none

/-- The addresses of every array under the parents key; other items are passed. -/
def parentsOf : List Ipv6Addr :=
  map.flatMap fun entry =>
    ((cborGetArray [entry] keyParents).getD []).filterMap fun item =>
      (asBytes item).bind (asArray 16)

def decodeMap : Except HandoffError (HandoffResponse F) := do
  let statusRaw ← need (.missingField "status") (getInt map keyStatus)
  let status ← need (.invalidFieldType "status")
    (HandoffRejectReason.tryFrom (UInt8.ofInt statusRaw))
  let message := (cborGetText map keyMessage).getD ""
  if status ≠ .success then return { status, message }
  else
    let nodeAddress ← nodeAddressOf map
    let oscoreState ← oscoreStateOf map
    let freshness ← freshnessOf map
    return {
      status, message, nodeAddress, oscoreState, freshness
      daoSequence := (getInt map keyDaoSeq).map UInt32.ofInt
      pathSequence := (getInt map keyPathSeq).map UInt32.ofInt
      parents := parentsOf map }

end

def decode (ciborium : Ciborium F) (payload : Bytes) : Except HandoffError (HandoffResponse F) :=
  match ciborium.fromReader payload with
  | .error _ => .error .invalidCbor
  | .ok (value, _) => (need .expectedMap (asEntries value)).bind decodeMap

def entries (ciborium : Ciborium F) (payload : Bytes) : List (Value F × Value F) :=
  match ciborium.fromReader payload with
  | .ok (.map entries, _) => entries
  | _ => []

end HandoffResponse

def Carries (map : List (Value F × Value F)) (key i : Int) : Prop :=
  ∃ front back, map = front ++ (.integer key, .integer i) :: back ∧
    ∀ j, (.integer key, .integer j) ∉ front

theorem entryAt_asInt : entryAt asInt key entry = some i ↔ entry = (.integer key, .integer i) := by
  obtain ⟨k, v⟩ := entry
  cases k <;> cases v <;> simp [entryAt, asInt]

theorem getInt_eq_some : getInt map key = some i ↔ Carries map key i := by
  simp only [getInt, cborGet, List.findSome?_eq_some_iff, entryAt_asInt,
    Option.eq_none_iff_forall_ne_some, Carries]
  constructor
  · rintro ⟨front, _, back, rfl, rfl, hfront⟩
    exact ⟨front, back, rfl, fun j hj => hfront _ hj j (entryAt_asInt.mpr rfl)⟩
  · rintro ⟨front, back, rfl, hfront⟩
    exact ⟨front, _, back, rfl, rfl, fun x hx j hj => hfront j (entryAt_asInt.mp hj ▸ hx)⟩

theorem Carries.unique (h : Carries map key i) (h' : Carries map key j) : i = j :=
  Option.some.inj ((getInt_eq_some.mpr h).symm.trans (getInt_eq_some.mpr h'))

/-- The integers that are read lie in the range of their fields; a rejection has only a status. -/
structure InRange (map : List (Value F × Value F)) : Prop where
  status : ∀ i, Carries map keyStatus i → 0 ≤ i ∧ i < 2 ^ 8
  daoSequence : Carries map keyStatus 0 → ∀ i, Carries map keyDaoSeq i → 0 ≤ i ∧ i < 2 ^ 32
  pathSequence : Carries map keyStatus 0 → ∀ i, Carries map keyPathSeq i → 0 ≤ i ∧ i < 2 ^ 32

/-- The sequence is that on the wire, and there is none if there is none on the wire. -/
def ReadsBack (map : List (Value F × Value F)) (key : Int) (sequence : Option UInt32) : Prop :=
  ∀ i, Carries map key i ↔ sequence.map (fun seq => (seq.toNat : Int)) = some i

structure HandoffResponse.Exact (map : List (Value F × Value F)) (response : HandoffResponse F) :
    Prop where
  status : Carries map keyStatus response.status.asU8.toNat
  daoSequence : response.status = .success → ReadsBack map keyDaoSeq response.daoSequence
  pathSequence : response.status = .success → ReadsBack map keyPathSeq response.pathSequence

theorem toNat_ofInt_u8 (i : Int) : ((UInt8.ofInt i).toNat : Int) = i % 2 ^ 8 := by
  simp [UInt8.ofInt]
  omega

theorem toNat_ofInt_u32 (i : Int) : ((UInt32.ofInt i).toNat : Int) = i % 2 ^ 32 := by
  simp [UInt32.ofInt]
  omega

theorem readsBack_iff : ReadsBack map key ((getInt map key).map UInt32.ofInt) ↔
    ∀ i, Carries map key i → 0 ≤ i ∧ i < 2 ^ 32 := by
  rw [ReadsBack, Option.map_map]
  simp only [← getInt_eq_some]
  cases getInt map key with
  | none => simp
  | some j =>
    simp [toNat_ofInt_u32]
    omega

theorem need_eq_ok : need error x = .ok a ↔ x = some a := by
  cases x <;> simp [need]

namespace HandoffResponse

theorem decode_eq_ok (h : decode ciborium payload = .ok response) :
    decodeMap (entries ciborium payload) = .ok response := by
  unfold decode at h
  unfold entries
  split at h
  · cases h
  · next value n hread =>
    rw [hread]
    cases value <;> first | exact h | cases h

variable {response : HandoffResponse F}

theorem decodeMap_eq_ok (h : decodeMap map = .ok response) : (∃ i, Carries map keyStatus i ∧
      HandoffRejectReason.tryFrom (UInt8.ofInt i) = some response.status) ∧
    (response.status = .success →
      response.daoSequence = (getInt map keyDaoSeq).map UInt32.ofInt ∧
      response.pathSequence = (getInt map keyPathSeq).map UInt32.ofInt) := by
  simp only [decodeMap, bind_eq_ok, need_eq_ok, getInt_eq_some] at h
  obtain ⟨i, hi, status, hstatus, h⟩ := h
  split at h
  · next hrejected =>
    cases h
    exact ⟨⟨i, hi, hstatus⟩, fun hsuccess => absurd hsuccess hrejected⟩
  · simp only [bind_eq_ok, pure_eq_ok] at h
    obtain ⟨_, _, _, _, _, _, rfl⟩ := h
    exact ⟨⟨i, hi, hstatus⟩, fun _ => ⟨rfl, rfl⟩⟩

/-- An accepted response has the values on the wire exactly if no integer that is read exceeds its
field, and a status is refused if what is left of it names no reason. -/
theorem decode_exact_iff (ciborium : Ciborium F) (payload : Bytes) :
    (∀ response, decode ciborium payload = .ok response →
      (response.Exact (entries ciborium payload) ↔ InRange (entries ciborium payload))) ∧
    ∀ i, Carries (entries ciborium payload) keyStatus i → 6 < i % 2 ^ 8 →
      ∃ error, decode ciborium payload = .error error := by
  constructor
  · intro response h
    obtain ⟨⟨i, hi, hstatus⟩, hsequences⟩ := decodeMap_eq_ok (decode_eq_ok h)
    have hvalue : (response.status.asU8.toNat : Int) = i % 2 ^ 8 := by
      rw [HandoffRejectReason.asU8_of_tryFrom hstatus, toNat_ofInt_u8]
    have hsuccess : response.status = .success ↔ i % 2 ^ 8 = 0 := by
      rw [← hvalue]
      cases response.status <;> simp [HandoffRejectReason.asU8]
    constructor
    · intro hexact
      have hlt := response.status.asU8.toNat_lt
      cases hexact.status.unique hi
      refine ⟨fun j hj => ?_, fun hzero => ?_, fun hzero => ?_⟩
      · cases hj.unique hi
        omega
      · have hsuccess := hsuccess.mpr (by rw [hi.unique hzero]; rfl)
        exact readsBack_iff.mp ((hsequences hsuccess).1 ▸ hexact.daoSequence hsuccess)
      · have hsuccess := hsuccess.mpr (by rw [hi.unique hzero]; rfl)
        exact readsBack_iff.mp ((hsequences hsuccess).2 ▸ hexact.pathSequence hsuccess)
    · intro hrange
      have hstatus : Carries (entries ciborium payload) keyStatus (i % 2 ^ 8) := by
        rwa [Int.emod_eq_of_lt (hrange.status i hi).1 (hrange.status i hi).2]
      refine ⟨hvalue ▸ hstatus, fun h => ?_, fun h => ?_⟩
      · rw [(hsequences h).1, readsBack_iff]
        exact hrange.daoSequence (hsuccess.mp h ▸ hstatus)
      · rw [(hsequences h).2, readsBack_iff]
        exact hrange.pathSequence (hsuccess.mp h ▸ hstatus)
  · intro i hi hlt
    cases h : decode ciborium payload with
    | error error => exact ⟨error, rfl⟩
    | ok =>
      obtain ⟨⟨j, hj, hstatus⟩, -⟩ := decodeMap_eq_ok (decode_eq_ok h)
      cases hi.unique hj
      have hnat := toNat_ofInt_u8 i
      rw [HandoffRejectReason.tryFrom_of_lt (by omega)] at hstatus
      cases hstatus

/-- A rejection with status 256 is read as a success, and the sequence `-1` as the largest one. -/
theorem decode_reduces :
    ∃ payload, Carries (entries (grammarReader : Ciborium Unit) payload) keyStatus 256 ∧
      Carries (entries (grammarReader : Ciborium Unit) payload) keyDaoSeq (-1) ∧
      ∃ response, decode (grammarReader : Ciborium Unit) payload = .ok response ∧
        response.status = .success ∧ response.daoSequence = some 0xFFFFFFFF :=
  ⟨[0xA2, 0x18, 0x64, 0x19, 0x01, 0x00, 0x02, 0x20], getInt_eq_some.mp rfl,
    getInt_eq_some.mp rfl, _, rfl, rfl, rfl⟩

end HandoffResponse

end Decode

structure NodeRegistryEntry (F : Type) where
  address : Ipv6Addr
  daoSequence : UInt32 := 0
  pathSequence : UInt32 := 0
  oscoreState : Option OscoreState := none
  freshness : Option (FreshnessState F) := none
  parents : List Ipv6Addr := []
  busy : Bool := false

structure NodeRegistry (F : Type) where
  nodes : HashMap Ipv6Addr (NodeRegistryEntry F)

/-- `checked_add(1)` of an unsigned sequence. -/
def increment {α : Type} [DecidableEq α] [Neg α] [Add α] [OfNat α 1] (name : String) (seq : α) :
    Except HandoffError α :=
  if seq = -1 then .error (.sequenceExhausted name) else .ok (seq + 1)

def OscoreState.advance : Option OscoreState → Except HandoffError (Option OscoreState)
  | some state => do
    let senderSequence ← increment "oscore_sender_sequence" state.senderSequence
    return some { state with senderSequence }
  | none => return none

namespace NodeRegistry

variable {F : Type} (registry : NodeRegistry F) (response : HandoffResponse F)

def register (entry : NodeRegistryEntry F) : NodeRegistry F :=
  ⟨registry.nodes.insert entry.address entry⟩

/-- The entry that a response makes. -/
def handedOver : Except HandoffError (NodeRegistryEntry F) :=
  if response.status ≠ .success then .error (.handoffFailed response.status)
  else do
    let address ← need (.missingSuccessField "node_address") response.nodeAddress
    let daoSequence ← need (.missingSuccessField "dao_sequence") response.daoSequence
    let pathSequence ← need (.missingSuccessField "path_sequence") response.pathSequence
    let daoSequence ← increment "dao_sequence" daoSequence
    let pathSequence ← increment "path_sequence" pathSequence
    let oscoreState ← OscoreState.advance response.oscoreState
    return { address, daoSequence, pathSequence, oscoreState, freshness := response.freshness
             parents := response.parents }

def acceptHandoff : Except HandoffError Unit × NodeRegistry F :=
  match handedOver response with
  | .ok entry => (.ok (), registry.register entry)
  | .error error => (.error error, registry)

end NodeRegistry

inductive Counter
  | dao
  | path
  | oscore

section Sequences

variable {F : Type} {response : HandoffResponse F} {entry : NodeRegistryEntry F}

def NodeRegistryEntry.sequence (entry : NodeRegistryEntry F) : Counter → Option Nat
  | .dao => entry.daoSequence.toNat
  | .path => entry.pathSequence.toNat
  | .oscore => entry.oscoreState.map (·.senderSequence.toNat)

def HandoffResponse.sequence (response : HandoffResponse F) : Counter → Option Nat
  | .dao => response.daoSequence.map UInt32.toNat
  | .path => response.pathSequence.map UInt32.toNat
  | .oscore => response.oscoreState.map (·.senderSequence.toNat)

theorem increment_u32 {seq next : UInt32} (h : increment name seq = .ok next) :
    next.toNat = seq.toNat + 1 := by
  obtain ⟨hne, ⟨⟩⟩ := ite_error_eq_ok.mp h
  have hmax : seq.toNat ≠ 2 ^ 32 - 1 := fun hmax => hne (UInt32.toNat_inj.mp hmax)
  have hlt := seq.toNat_lt
  exact Nat.mod_eq_of_lt (show seq.toNat + 1 < 2 ^ 32 by omega)

theorem increment_u64 {seq next : UInt64} (h : increment name seq = .ok next) :
    next.toNat = seq.toNat + 1 := by
  obtain ⟨hne, ⟨⟩⟩ := ite_error_eq_ok.mp h
  have hmax : seq.toNat ≠ 2 ^ 64 - 1 := fun hmax => hne (UInt64.toNat_inj.mp hmax)
  have hlt := seq.toNat_lt
  exact Nat.mod_eq_of_lt (show seq.toNat + 1 < 2 ^ 64 by omega)

theorem advance_eq_ok (h : OscoreState.advance state = .ok next) :
    next.map (·.senderSequence.toNat) = (state.map (·.senderSequence.toNat)).map (· + 1) := by
  cases state with
  | none =>
    cases h
    rfl
  | some =>
    obtain ⟨_, hseq, ⟨⟩⟩ := bind_eq_ok.mp h
    exact congrArg some (increment_u64 hseq)

theorem handedOver_eq_ok (h : NodeRegistry.handedOver response = .ok entry) :
    response.nodeAddress = some entry.address ∧
      ∀ counter, entry.sequence counter = (response.sequence counter).map (· + 1) := by
  simp only [NodeRegistry.handedOver, ite_error_eq_ok, bind_eq_ok, need_eq_ok, pure_eq_ok] at h
  obtain ⟨-, _, haddress, _, hdao, _, hpath, _, hdao', _, hpath', _, hoscore, rfl⟩ := h
  refine ⟨haddress, fun counter => ?_⟩
  cases counter with
  | dao =>
    rw [HandoffResponse.sequence, hdao]
    exact congrArg some (increment_u32 hdao')
  | path =>
    rw [HandoffResponse.sequence, hpath]
    exact congrArg some (increment_u32 hpath')
  | oscore => exact advance_eq_ok hoscore

/-- An accepted response sets every sequence past the one it carries, and none back exactly if the
registry holds none further ahead than that. -/
theorem accepted_sequences_advance_iff (registry : NodeRegistry F) (response : HandoffResponse F) :
    match registry.acceptHandoff response with
    | (.ok (), next) => ∃ address entry, response.nodeAddress = some address ∧
        next.nodes.get address = some entry ∧
        (∀ counter sent, response.sequence counter = some sent →
          ∃ seq, entry.sequence counter = some seq ∧ sent < seq) ∧
        ∀ counter sent held old, response.sequence counter = some sent →
          registry.nodes.get address = some held → held.sequence counter = some old →
          ((∃ seq, entry.sequence counter = some seq ∧ old ≤ seq) ↔ old ≤ sent + 1)
    | (.error _, next) => next = registry := by
  rw [NodeRegistry.acceptHandoff]
  cases hover : NodeRegistry.handedOver response with
  | error => rfl
  | ok entry =>
    obtain ⟨haddress, hsequence⟩ := handedOver_eq_ok hover
    have hnext : ∀ counter sent, response.sequence counter = some sent →
        entry.sequence counter = some (sent + 1) :=
      fun counter sent hsent => by rw [hsequence, hsent]; rfl
    refine ⟨entry.address, entry, haddress, HashMap.get_insert_self _ _ _,
      fun counter sent hsent => ⟨sent + 1, hnext counter sent hsent, Nat.lt_succ_self sent⟩, ?_⟩
    intro counter sent held old hsent _ _
    rw [hnext counter sent hsent]
    simp

def sampleNode : Ipv6Addr := ⟨List.replicate 16 0, rfl⟩

def sampleHandoff : HandoffResponse Unit where
  status := .success
  message := ""
  nodeAddress := sampleNode
  daoSequence := some 3
  pathSequence := some 0

/-- A late response sets the DAO sequence of a registered node back from 9 to 4. -/
theorem late_handoff_sets_back :
    let held : NodeRegistryEntry Unit := { address := sampleNode, daoSequence := 9 }
    let (result, next) :=
      (⟨HashMap.new⟩ : NodeRegistry Unit).register held |>.acceptHandoff sampleHandoff
    result = .ok () ∧ (next.nodes.get sampleNode).map (·.daoSequence) = some 4 :=
  ⟨rfl, rfl⟩

end Sequences

end Lichen.Gateway
