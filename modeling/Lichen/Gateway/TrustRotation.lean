import Lichen.Gateway.TrustFile
import Lichen.Lib.Run

namespace Lichen.Gateway

open Lichen.Core Lichen.Lib TrustStore List

structure RotationMessage where
  oldPubkey : PublicKey
  newPubkey : PublicKey
  rotationSequence : UInt64
  signature : Signature
  deriving DecidableEq

def RotationMessage.Signed (crypto : Crypto) (message : RotationMessage) : Prop :=
  verifyKeyRotation crypto message.oldPubkey message.newPubkey message.rotationSequence
    message.signature = true

namespace TrustStore

variable {crypto : Crypto} {store store' : TrustStore} {iid : Iid} {now : SystemTime}

structure Advances (store store' : TrustStore) : Prop where
  generation : store.generation < store'.generation
  maxEntries : store'.maxEntries = store.maxEntries
  len : store.entries.len ≤ store.maxEntries → store'.entries.len ≤ store.maxEntries

/-- No key is new but `key`, for an IID that had none. -/
structure Settles (crypto : Crypto) (key : PublicKey) (store store' : TrustStore) : Prop
    extends Advances store store' where
  keyAt : ∀ iid known sequence, store'.keyAt iid = some (known, sequence) →
    store.keyAt iid = some (known, sequence) ∨
      known = key ∧ iidFromPubkeyBytes crypto key = iid ∧ store.get iid = none

structure Rotates (crypto : Crypto) (oldIid : Iid) (message : RotationMessage)
    (store store' : TrustStore) : Prop extends Advances store store' where
  pinned : ∃ floor, store.keyAt oldIid = some (message.oldPubkey, floor) ∧
    floor < message.rotationSequence
  changed : message.newPubkey ≠ message.oldPubkey
  signed : message.Signed crypto
  keyAt : ∀ iid known sequence, store'.keyAt iid = some (known, sequence) →
    store.keyAt iid = some (known, sequence) ∧ iid ≠ oldIid ∨
      known = message.newPubkey ∧ sequence = message.rotationSequence ∧
        iidFromPubkeyBytes crypto message.newPubkey = iid

theorem keyAt_pin :
    (store.pin iid entry).keyAt other =
      if other = iid then some entry.keyState else store.keyAt other := by
  rw [keyAt, get, pin, HashMap.get_insert]
  split
  · rfl
  · rfl

theorem keyAt_of_get (h : store.get iid = some entry) :
    store.keyAt iid = some entry.keyState := by
  rw [keyAt, h]
  rfl

theorem WellFormed.advances (hwf : store.WellFormed crypto) (h : store.Advances store')
    (hkey : ∀ iid known sequence, store'.keyAt iid = some (known, sequence) →
      store.keyAt iid = some (known, sequence) ∨ iidFromPubkeyBytes crypto known = iid) :
    store'.WellFormed crypto where
  capacity := h.maxEntries ▸ hwf.capacity
  len := h.maxEntries ▸ h.len hwf.len
  bound iid known sequence h := (hkey iid known sequence h).elim (hwf.bound iid known sequence) id

theorem bumpGeneration_eq_ok (h : store.bumpGeneration = .ok store') :
    store.generation < store'.generation ∧ store'.maxEntries = store.maxEntries ∧
      store'.entries = store.entries := by
  rw [bumpGeneration, ite_error_eq_ok] at h
  obtain ⟨hlast, h⟩ := h
  cases h
  refine ⟨?_, rfl, rfl⟩
  have hne : store.generation.toNat ≠ 2 ^ 64 - 1 := fun heq => hlast (UInt64.toNat_inj.mp heq)
  have hlt := store.generation.toNat_lt
  rw [UInt64.lt_iff_toNat_lt, UInt64.toNat_add]
  change _ < (store.generation.toNat + 1) % 2 ^ 64
  omega

theorem settles_pin (hbump : store.bumpGeneration = .ok bumped)
    (hlen : store.entries.len ≤ store.maxEntries →
      (store.entries.insert iid entry).len ≤ store.maxEntries)
    (hentry : store.keyAt iid = some entry.keyState ∨
      entry.pubkey = key ∧ iidFromPubkeyBytes crypto key = iid ∧ store.get iid = none) :
    store.Settles crypto key (bumped.pin iid entry) := by
  obtain ⟨hgeneration, hmax, hentries⟩ := bumpGeneration_eq_ok hbump
  refine ⟨⟨hgeneration, hmax, fun hle => ?_⟩, fun other known sequence hkey => ?_⟩
  · rw [pin, hentries]
    exact hlen hle
  · rw [keyAt_pin, keyAt, get, hentries] at hkey
    split at hkey
    · rename_i heq
      cases hkey
      rw [heq]
      exact hentry
    · exact .inl hkey

theorem settles_pin_known (hbump : store.bumpGeneration = .ok bumped)
    (hget : store.get iid = some old) (hstate : entry.keyState = old.keyState) :
    store.Settles crypto key (bumped.pin iid entry) :=
  settles_pin hbump (HashMap.len_insert_of_get hget).trans_le
    (.inl (hstate ▸ keyAt_of_get hget))

theorem settles_pin_new (hbump : store.bumpGeneration = .ok bumped) (hget : store.get iid = none)
    (hroom : ¬store.entries.len ≥ store.maxEntries) (hiid : iidFromPubkeyBytes crypto key = iid)
    (hkey : entry.pubkey = key) : store.Settles crypto key (bumped.pin iid entry) :=
  settles_pin hbump (fun _ => (HashMap.len_insert_le _ _ _).trans (Nat.not_le.mp hroom))
    (.inr ⟨hkey, hiid, hget⟩)

theorem verifyTofu_eq_ok {identity : VerifiedGatewayIdentity crypto}
    (h : store.verifyTofu identity now = .ok (result, store')) :
    store.Settles crypto identity.pubkey store' := by
  rw [verifyTofu] at h
  split at h
  · rename_i hget
    rw [ite_eq_iff] at h
    obtain ⟨-, h⟩ | ⟨-, h⟩ := h
    · rw [bind_eq_ok] at h
      obtain ⟨_, hbump, h⟩ := h
      cases h
      exact settles_pin_known hbump hget rfl
    · cases h
  · rename_i hget
    rw [ite_error_eq_ok, bind_eq_ok] at h
    obtain ⟨hroom, _, hbump, h⟩ := h
    cases h
    exact settles_pin_new hbump hget hroom identity.bound rfl

theorem provisionConfiguredPeer_eq_ok
    (h : store.provisionConfiguredPeer crypto key now = .ok (changed, store')) :
    store' = store ∨ store.Settles crypto key store' := by
  rw [provisionConfiguredPeer] at h
  split at h
  · rename_i hget
    rw [ite_error_eq_ok, ite_eq_iff] at h
    obtain ⟨-, ⟨-, h⟩ | ⟨-, h⟩⟩ := h
    · cases h
      exact .inl rfl
    · rw [bind_eq_ok] at h
      obtain ⟨_, hbump, h⟩ := h
      cases h
      exact .inr (settles_pin_known hbump hget rfl)
  · rename_i hget
    rw [ite_error_eq_ok, bind_eq_ok] at h
    obtain ⟨hroom, _, hbump, h⟩ := h
    cases h
    exact .inr (settles_pin_new hbump hget hroom rfl rfl)

theorem upgradeTrust_eq_ok (h : store.upgradeTrust iid level = .ok (changed, store')) :
    store' = store ∨ ∃ entry, store.get iid = some entry ∧
      store.Settles crypto entry.pubkey store' := by
  rw [upgradeTrust] at h
  split at h
  · rename_i entry hget
    rw [ite_eq_iff] at h
    obtain ⟨-, h⟩ | ⟨-, h⟩ := h
    · rw [bind_eq_ok] at h
      obtain ⟨_, hbump, h⟩ := h
      cases h
      exact .inr ⟨entry, hget, settles_pin_known hbump hget rfl⟩
    · cases h
      exact .inl rfl
  · cases h
    exact .inl rfl

theorem processKeyRotation_eq_ok
    (h : store.processKeyRotation crypto oldIid newPubkey rotationSequence signature now =
      .ok (result, store')) :
    ∃ oldPubkey, result = .acceptRotation oldPubkey newPubkey ∧
      store.Rotates crypto oldIid ⟨oldPubkey, newPubkey, rotationSequence, signature⟩ store' := by
  rw [processKeyRotation] at h
  split at h
  · cases h
  · rename_i old hget
    rw [ite_error_eq_ok, ite_error_eq_ok, ite_error_eq_ok] at h
    obtain ⟨hchanged, hsequence, hsigned, h⟩ := h
    simp only [bind_eq_ok] at h
    obtain ⟨_, -, _, hbump, h⟩ := h
    cases h
    obtain ⟨hgeneration, hmax, hentries⟩ := bumpGeneration_eq_ok hbump
    rw [not_or] at hsequence
    rw [Bool.not_eq_true', Bool.not_eq_false] at hsigned
    refine ⟨old.pubkey, rfl, ⟨hgeneration, hmax, fun hle => ?_⟩, ?_, hchanged, hsigned, ?_⟩
    · have hremove := HashMap.len_remove_of_get hget
      rw [pin, hentries]
      exact (HashMap.len_insert_le _ _ _).trans (hremove.trans_le hle)
    · exact ⟨old.rotationSequence, keyAt_of_get hget, UInt64.not_le.mp hsequence.2⟩
    · intro other known sequence hkey
      rw [keyAt_pin, keyAt, get, hentries, HashMap.get_remove] at hkey
      split at hkey
      · rename_i heq
        cases hkey
        exact .inr ⟨rfl, rfl, heq.symm⟩
      split at hkey
      · cases hkey
      · exact .inl ⟨hkey, ‹_›⟩

end TrustStore

inductive TrustCall (crypto : Crypto)
  | verifyTofu (identity : VerifiedGatewayIdentity crypto) (now : SystemTime)
  | processKeyRotation (oldIid : Iid) (newPubkey : PublicKey) (rotationSequence : UInt64)
      (rotationSignature : Signature) (now : SystemTime)
  | provisionConfiguredPeer (pubkey : PublicKey) (now : SystemTime)
  | upgradeTrust (iid : Iid) (newLevel : TrustLevel)
  | save (fate : SaveFate)
  | load (minimumGeneration : UInt64) (configuredCapacity : Nat) (io : Option String)

/-- A store with its file and the rotations it has accepted, oldest first. -/
structure TrustWatch where
  store : TrustStore
  file : Option Bytes
  accepted : List RotationMessage

namespace TrustWatch

variable (crypto : Crypto) (storeSeal : StoreSeal)

def Opened (watch : TrustWatch) : Prop :=
  watch.accepted = [] ∧
    ((watch.file = none ∧ ∃ maxEntries, newEphemeral maxEntries = .ok watch.store) ∨
      ∃ minimumGeneration configuredCapacity, load crypto storeSeal minimumGeneration
        configuredCapacity none watch.file = .ok watch.store)

def keep (watch : TrustWatch) : Except TrustError (α × TrustStore) → TrustWatch
  | .ok (_, store) => { watch with store }
  | .error _ => watch

def step (watch : TrustWatch) : TrustCall crypto → TrustWatch
  | .verifyTofu identity now => watch.keep (watch.store.verifyTofu identity now)
  | .processKeyRotation oldIid newPubkey rotationSequence rotationSignature now =>
    match watch.store.processKeyRotation crypto oldIid newPubkey rotationSequence
        rotationSignature now with
    | .ok (.acceptRotation oldPubkey newPubkey, store) =>
      { watch with
        store
        accepted := watch.accepted ++ [⟨oldPubkey, newPubkey, rotationSequence, rotationSignature⟩] }
    | .ok (_, store) => { watch with store }
    | .error _ => watch
  | .provisionConfiguredPeer pubkey now =>
    watch.keep (watch.store.provisionConfiguredPeer crypto pubkey now)
  | .upgradeTrust iid newLevel => watch.keep (watch.store.upgradeTrust iid newLevel)
  | .save fate => { watch with file := (watch.store.saveAtomic storeSeal fate watch.file).2 }
  | .load minimumGeneration configuredCapacity io =>
    match load crypto storeSeal minimumGeneration configuredCapacity io watch.file with
    | .ok store => { watch with store }
    | .error _ => watch

/-- No key that was rotated out is presented or provisioned again while it is not pinned, a
rotation back to it has a sequence that is not behind, and no load goes back to an earlier
generation. -/
def Careful (watch : TrustWatch) : TrustCall crypto → Prop
  | .verifyTofu identity _ => watch.store.get identity.iid = none →
    ∀ message ∈ watch.accepted, message.oldPubkey ≠ identity.pubkey
  | .provisionConfiguredPeer pubkey _ =>
    watch.store.get (iidFromPubkeyBytes crypto pubkey) = none →
      ∀ message ∈ watch.accepted, message.oldPubkey ≠ pubkey
  | .processKeyRotation _ newPubkey rotationSequence _ _ =>
    ∀ message ∈ watch.accepted, message.oldPubkey = newPubkey →
      message.rotationSequence ≤ rotationSequence
  | .load minimumGeneration _ _ => watch.store.generation ≤ minimumGeneration
  | .upgradeTrust _ _ => True
  | .save _ => True

/-- What can be loaded from the file is an earlier generation of the store or has its keys. -/
def OnDisk (store : TrustStore) (file : Option Bytes) : Prop :=
  ∀ minimumGeneration configuredCapacity io loaded,
    load crypto storeSeal minimumGeneration configuredCapacity io file = .ok loaded →
      loaded.generation ≤ store.generation ∧
        (loaded.generation = store.generation → loaded.SameKeys store)

structure Binding (accepted : List RotationMessage) (store : TrustStore) : Prop where
  floor : ∀ iid key sequence, store.keyAt iid = some (key, sequence) → ∀ message ∈ accepted,
    message.oldPubkey = key → message.rotationSequence ≤ sequence
  back : ∀ iid key sequence, store.keyAt iid = some (key, sequence) → ∀ before message after,
    accepted = before ++ message :: after → message.oldPubkey = key →
      ∃ later ∈ after, later.newPubkey = key

structure Inv (watch : TrustWatch) : Prop where
  wellFormed : watch.store.WellFormed crypto
  onDisk : OnDisk crypto storeSeal watch.store watch.file
  signed : ∀ message ∈ watch.accepted, message.Signed crypto
  binding : Binding watch.accepted watch.store
  nodup : watch.accepted.Nodup

variable {crypto storeSeal} {store : TrustStore} {file : Option Bytes}
  {accepted : List RotationMessage} {watch : TrustWatch}

theorem onDisk_of_load
    (hload : load crypto storeSeal minimumGeneration configuredCapacity io file = .ok store) :
    OnDisk crypto storeSeal store file := by
  intro _ _ _ loaded hloaded
  rw [load_unique hload hloaded]
  exact ⟨UInt64.le_refl _, fun _ => ⟨rfl, fun _ => rfl⟩⟩

section

variable (h : OnDisk crypto storeSeal store file)

include h

theorem OnDisk.advance (hlater : store.Advances store') : OnDisk crypto storeSeal store' file := by
  intro minimumGeneration configuredCapacity io loaded hload
  have hlt := UInt64.lt_of_le_of_lt (h _ _ _ _ hload).1 hlater.generation
  exact ⟨UInt64.le_of_lt hlt, fun heq => absurd (heq ▸ hlt) (UInt64.lt_irrefl _)⟩

theorem OnDisk.load (hminimum : store.generation ≤ minimumGeneration)
    (hload : load crypto storeSeal minimumGeneration configuredCapacity io file =
      .ok store') : store'.SameKeys store ∧ OnDisk crypto storeSeal store' file := by
  obtain ⟨hle, hsame⟩ := h _ _ _ _ hload
  have hgeneration : store'.generation = store.generation :=
    UInt64.le_antisymm hle (UInt64.le_trans hminimum (load_wellFormed hload).1)
  exact ⟨hsame hgeneration, onDisk_of_load hload⟩

theorem OnDisk.save (hwf : store.WellFormed crypto) :
    OnDisk crypto storeSeal store (store.saveAtomic storeSeal fate file).2 := by
  obtain hfile | hfile := saveAtomic_file hwf
  · rw [hfile]
    exact h
  · intro minimumGeneration configuredCapacity io loaded hload
    have hsame := hfile _ _ _ _ hload
    exact ⟨UInt64.le_of_eq hsame.generation, fun _ => hsame⟩

end

theorem Binding.mono (h : Binding accepted store)
    (hkey : ∀ iid known sequence, store'.keyAt iid = some (known, sequence) →
      store.keyAt iid = some (known, sequence) ∨ ∀ message ∈ accepted, message.oldPubkey ≠ known) :
    Binding accepted store' := by
  constructor
  · intro iid known sequence hknown message hmem hold
    obtain hknown | hfresh := hkey iid known sequence hknown
    · exact h.floor iid known sequence hknown message hmem hold
    · exact absurd hold (hfresh message hmem)
  · intro iid known sequence hknown before message after heq hold
    obtain hknown | hfresh := hkey iid known sequence hknown
    · exact h.back iid known sequence hknown before message after heq hold
    · exact absurd hold (hfresh message (by simp [heq]))

section Rotation

variable {iid : Iid} {message : RotationMessage} {key : PublicKey} {sequence : UInt64}

theorem key_of_rotates (hwf : store.WellFormed crypto)
    (hrotates : store.Rotates crypto oldIid message store')
    (hkey : store'.keyAt iid = some (key, sequence)) :
    (key = message.newPubkey ∧ sequence = message.rotationSequence) ∨
      (store.keyAt iid = some (key, sequence) ∧ key ≠ message.oldPubkey) := by
  obtain ⟨hkey, hother⟩ | ⟨hnew, hsequence, -⟩ := hrotates.keyAt iid key sequence hkey
  · refine .inr ⟨hkey, fun heq => ?_⟩
    obtain ⟨floor, hfloor, -⟩ := hrotates.pinned
    -- one key derives one IID
    have hiid := hwf.bound iid key sequence hkey
    have holdIid := hwf.bound oldIid message.oldPubkey floor hfloor
    rw [heq, holdIid] at hiid
    exact hother hiid.symm
  · exact .inl ⟨hnew, hsequence⟩

theorem Binding.rotates (h : Binding accepted store) (hwf : store.WellFormed crypto)
    (hrotates : store.Rotates crypto oldIid message store')
    (hahead : ∀ earlier ∈ accepted, earlier.oldPubkey = message.newPubkey →
      earlier.rotationSequence ≤ message.rotationSequence) :
    Binding (accepted ++ [message]) store' := by
  constructor
  · intro iid key sequence hkey earlier hmem hold
    rw [mem_append, mem_singleton] at hmem
    obtain ⟨rfl, rfl⟩ | ⟨hkey, hne⟩ := key_of_rotates hwf hrotates hkey
    · obtain hmem | rfl := hmem
      · exact hahead earlier hmem hold
      · exact UInt64.le_refl _
    · obtain hmem | rfl := hmem
      · exact h.floor iid key sequence hkey earlier hmem hold
      · exact absurd hold.symm hne
  · intro iid key sequence hkey before earlier after heq hold
    obtain rfl | ⟨after, _, rfl⟩ := eq_nil_or_concat' after
    · obtain ⟨-, hlast⟩ := append_inj' heq rfl
      cases hlast
      obtain ⟨rfl, -⟩ | ⟨-, hne⟩ := key_of_rotates hwf hrotates hkey
      · exact absurd hold.symm hrotates.changed
      · exact absurd hold.symm hne
    · rw [← cons_append, ← append_assoc] at heq
      obtain ⟨hinit, hlast⟩ := append_inj' heq rfl
      cases hlast
      obtain ⟨rfl, -⟩ | ⟨hkey, -⟩ := key_of_rotates hwf hrotates hkey
      · exact ⟨message, mem_append_right after mem_cons_self, rfl⟩
      · obtain ⟨later, hlater, hnew⟩ := h.back iid key sequence hkey before earlier after hinit hold
        exact ⟨later, mem_append_left [message] hlater, hnew⟩

end Rotation

section

variable (h : Inv crypto storeSeal watch)

include h

theorem Inv.keep {result : Except TrustError (α × TrustStore)}
    (hok : ∀ a store, result = .ok (a, store) → Inv crypto storeSeal { watch with store }) :
    Inv crypto storeSeal (watch.keep result) := by
  cases result with
  | error => exact h
  | ok result => exact hok result.1 result.2 rfl

theorem Inv.settles (hsettles : watch.store.Settles crypto key store)
    (hfresh : watch.store.get (iidFromPubkeyBytes crypto key) = none →
      ∀ message ∈ watch.accepted, message.oldPubkey ≠ key) :
    Inv crypto storeSeal { watch with store } where
  wellFormed := by
    refine h.wellFormed.advances hsettles.toAdvances fun iid known sequence hknown => ?_
    exact (hsettles.keyAt iid known sequence hknown).imp_right fun ⟨hnew, hiid, _⟩ => hnew ▸ hiid
  onDisk := h.onDisk.advance hsettles.toAdvances
  signed := h.signed
  binding := by
    refine h.binding.mono fun iid known sequence hknown => ?_
    exact (hsettles.keyAt iid known sequence hknown).imp_right fun ⟨hnew, hiid, hnone⟩ =>
      hnew ▸ hfresh (hiid ▸ hnone)
  nodup := h.nodup

theorem Inv.rotates (hrotates : watch.store.Rotates crypto oldIid message store)
    (hahead : ∀ earlier ∈ watch.accepted, earlier.oldPubkey = message.newPubkey →
      earlier.rotationSequence ≤ message.rotationSequence) :
    Inv crypto storeSeal { watch with store, accepted := watch.accepted ++ [message] } where
  wellFormed := by
    refine h.wellFormed.advances hrotates.toAdvances fun iid known sequence hknown => ?_
    exact (hrotates.keyAt iid known sequence hknown).imp And.left fun ⟨hnew, _, hiid⟩ => hnew ▸ hiid
  onDisk := h.onDisk.advance hrotates.toAdvances
  signed := by
    intro earlier hmem
    rw [mem_append, mem_singleton] at hmem
    obtain hmem | rfl := hmem
    · exact h.signed earlier hmem
    · exact hrotates.signed
  binding := h.binding.rotates h.wellFormed hrotates hahead
  nodup := by
    obtain ⟨floor, hpinned, hlt⟩ := hrotates.pinned
    have hnew : message ∉ watch.accepted := fun hmem =>
      UInt64.not_le.mpr hlt (h.binding.floor _ _ _ hpinned message hmem rfl)
    exact concat_eq_append ▸ h.nodup.concat hnew

end

@[simp] theorem accepted_load :
    (watch.step crypto storeSeal (.load minimumGeneration configuredCapacity io)).accepted =
      watch.accepted := by
  rw [step]
  split
  · rfl
  · rfl

theorem inv_of_opened (h : Opened crypto storeSeal watch) : Inv crypto storeSeal watch := by
  obtain ⟨haccepted, hopened⟩ := h
  have hnone : ∀ message, message ∉ watch.accepted := by
    rw [haccepted]
    exact fun _ => not_mem_nil
  have hbinding : Binding watch.accepted watch.store := by
    refine ⟨fun _ _ _ _ message hmem => absurd hmem (hnone message), ?_⟩
    intro _ _ _ _ before message after heq
    refine absurd ?_ (hnone message)
    rw [heq]
    exact mem_append_right before mem_cons_self
  have hdisk : watch.store.WellFormed crypto ∧ OnDisk crypto storeSeal watch.store watch.file := by
    obtain ⟨hfile, _, hnew⟩ | ⟨_, _, hload⟩ := hopened
    · refine ⟨wellFormed_newEphemeral hnew, fun _ _ _ loaded hloaded => ?_⟩
      obtain ⟨-, _, hbytes, -⟩ := load_eq_ok hloaded
      rw [hfile] at hbytes
      cases hbytes
    · exact ⟨(load_wellFormed hload).2, onDisk_of_load hload⟩
  exact ⟨hdisk.1, hdisk.2, fun message hmem => absurd hmem (hnone message), hbinding,
    haccepted ▸ .nil⟩

theorem inv_step (h : Inv crypto storeSeal watch) (hcareful : watch.Careful crypto call) :
    Inv crypto storeSeal (watch.step crypto storeSeal call) := by
  cases call with
  | verifyTofu identity now =>
    exact h.keep fun _ _ hcall => h.settles (verifyTofu_eq_ok hcall) (identity.bound ▸ hcareful)
  | processKeyRotation oldIid newPubkey rotationSequence rotationSignature now =>
    rw [step]
    cases hcall : watch.store.processKeyRotation crypto oldIid newPubkey rotationSequence
        rotationSignature now with
    | error error => exact h
    | ok result =>
      obtain ⟨result, store⟩ := result
      obtain ⟨_, rfl, hrotates⟩ := processKeyRotation_eq_ok hcall
      exact h.rotates hrotates hcareful
  | provisionConfiguredPeer pubkey now =>
    refine h.keep fun _ _ hcall => ?_
    obtain rfl | hsettles := provisionConfiguredPeer_eq_ok hcall
    · exact h
    · exact h.settles hsettles hcareful
  | upgradeTrust iid newLevel =>
    refine h.keep fun _ _ hcall => ?_
    obtain rfl | ⟨entry, hget, hsettles⟩ := upgradeTrust_eq_ok hcall
    · exact h
    · refine h.settles hsettles fun hnone => ?_
      rw [h.wellFormed.bound _ _ _ (keyAt_of_get hget), hget] at hnone
      cases hnone
  | save => exact { h with onDisk := h.onDisk.save h.wellFormed }
  | load minimumGeneration configuredCapacity io =>
    rw [step]
    cases hload : load crypto storeSeal minimumGeneration configuredCapacity io watch.file with
    | error => exact h
    | ok =>
      obtain ⟨hsame, hdisk⟩ := h.onDisk.load hcareful hload
      exact ⟨(load_wellFormed hload).2, hdisk, h.signed, h.binding.mono fun _ _ _ hkey =>
        .inl (hsame.keyAt _ ▸ hkey), h.nodup⟩

/-- Over careful calls a key that was rotated out is pinned again only after a later signed
rotation to it, and no rotation is accepted twice. -/
theorem rotated_out_stays_out (crypto : Crypto) (storeSeal : StoreSeal) (start : TrustWatch)
    (hopened : start.Opened crypto storeSeal) (calls : List (TrustCall crypto))
    (hcalls : Steps (Careful crypto) (step crypto storeSeal) start calls) :
    let watch := run (step crypto storeSeal) start calls
    (∀ iid entry, watch.store.get iid = some entry → ∀ before message after,
      watch.accepted = before ++ message :: after → message.oldPubkey = entry.pubkey →
        ∃ later ∈ after, later.newPubkey = entry.pubkey ∧ later.Signed crypto) ∧
    watch.accepted.Nodup := by
  intro watch
  have hinv : Inv crypto storeSeal watch :=
    run_invariant_of_steps (fun _ call h hcareful => inv_step h hcareful)
      (inv_of_opened hopened) calls hcalls
  refine ⟨?_, hinv.nodup⟩
  intro iid entry hget before message after heq hold
  obtain ⟨later, hlater, hnew⟩ := hinv.binding.back iid entry.pubkey entry.rotationSequence
    (TrustStore.keyAt_of_get hget) before message after heq hold
  refine ⟨later, hlater, hnew, hinv.signed later ?_⟩
  rw [heq]
  exact mem_append_right before (mem_cons_of_mem message hlater)

def openCrypto : Crypto where
  sha256 := toArray 32
  sha512 := toArray 64
  verify := sumVerify

def emptyWatch : TrustWatch := ⟨⟨.new, 16, 1⟩, none, []⟩

def gatewayKey (n : UInt8) : PublicKey := toArray 32 [n]

def openSeal : StoreSeal := ⟨sumSignature (gatewayKey 0), sumVerify (gatewayKey 0)⟩

def rotationSignature (old new : UInt8) (sequence : UInt64) : Signature :=
  sumSignature (gatewayKey old)
    (buildRotationMessage openCrypto (gatewayKey old) (gatewayKey new) sequence)

def contact (n : UInt8) : TrustCall openCrypto :=
  .verifyTofu ⟨gatewayKey n, iidFromPubkeyBytes openCrypto (gatewayKey n), rfl⟩ 0

def rotation (old new : UInt8) (sequence : UInt64) : TrustCall openCrypto :=
  .processKeyRotation (iidFromPubkeyBytes openCrypto (gatewayKey old)) (gatewayKey new) sequence
    (rotationSignature old new sequence) 0

def rotationMessage (old new : UInt8) (sequence : UInt64) : RotationMessage :=
  ⟨gatewayKey old, gatewayKey new, sequence, rotationSignature old new sequence⟩

theorem opened_emptyWatch : emptyWatch.Opened openCrypto openSeal :=
  ⟨rfl, .inl ⟨rfl, 16, rfl⟩⟩

/-- A key is rotated out, the store saved and loaded, and the key rotated in again. -/
theorem rotated_out_stays_out_of_return :
    let calls := [contact 4, rotation 4 8 1, .save .written, .load 3 16 none, rotation 8 4 2]
    let watch := run (step openCrypto openSeal) emptyWatch calls
    (∀ iid entry, watch.store.get iid = some entry → ∀ before message after,
      watch.accepted = before ++ message :: after → message.oldPubkey = entry.pubkey →
        ∃ later ∈ after, later.newPubkey = entry.pubkey ∧ later.Signed openCrypto) ∧
    watch.accepted.Nodup := by
  refine rotated_out_stays_out openCrypto openSeal emptyWatch opened_emptyWatch _ ?_
  have hsaved : (run (step openCrypto openSeal) emptyWatch
      [contact 4, rotation 4 8 1, .save .written]).store.generation ≤ 3 := by decide +kernel
  have haccepted : (run (step openCrypto openSeal) emptyWatch
      [contact 4, rotation 4 8 1, .save .written]).accepted = [rotationMessage 4 8 1] := by
    decide +kernel
  refine ⟨fun _ => nofun, nofun, trivial, hsaved, ?_, trivial⟩
  intro message hmem
  rw [accepted_load] at hmem
  have hmessage : message ∈ [rotationMessage 4 8 1] := by
    rw [← haccepted]
    exact hmem
  rw [mem_singleton.mp hmessage]
  decide

/-- A key that was rotated out is pinned again on its next contact, and then the old rotation is
accepted a second time. -/
theorem rotated_out_returns :
    let after := run (step openCrypto openSeal) emptyWatch
      [contact 4, rotation 4 8 1, contact 4]
    let replayed := run (step openCrypto openSeal) after [rotation 8 12 2, rotation 4 8 1]
    emptyWatch.Opened openCrypto openSeal ∧
    (after.accepted = [rotationMessage 4 8 1] ∧
      (after.store.get (iidFromPubkeyBytes openCrypto (gatewayKey 4))).map (·.pubkey) =
        some (gatewayKey 4)) ∧
    replayed.accepted = [rotationMessage 4 8 1, rotationMessage 8 12 2, rotationMessage 4 8 1] :=
  ⟨opened_emptyWatch, by decide +kernel, by decide +kernel⟩

end TrustWatch

end Lichen.Gateway
