import Lichen.Hal.Redundant
import Lichen.Rpl.Persistence

namespace Lichen.Rpl

open Lichen.Lib Lichen.Core Lichen.Hal SignedDaoEnvelope

/-- A call of the transmitting node. `open` also stands for the restart that precedes it. -/
inductive DaoTxCall (E : Type) where
  | provision (scope : DaoTxScope) (fate : WriteFate E daoTxMagic)
  | open (scope : DaoTxScope)
  | reserveNext (fate : WriteFate E daoTxMagic)
  | finalizeSigned (sequence : Nat) (signedDao : Bytes) (fate : WriteFate E daoTxMagic)
  | clearTransmitted (fate : WriteFate E daoTxMagic)

/-- What the calls returned so far, newest first: the reserved sequences, the accepted DAOs, and
the sequences of the retained DAOs that `clear_transmitted` was called for. -/
structure DaoTxHistory where
  reserved : List Nat
  accepted : List (Nat × Bytes)
  transmitted : List Nat

namespace DaoTxHistory

def logReserved (sequence : Nat) (h : DaoTxHistory) : DaoTxHistory :=
  { h with reserved := sequence :: h.reserved }

def logAccepted (sequence : Nat) (signedDao : Bytes) (h : DaoTxHistory) : DaoTxHistory :=
  { h with accepted := (sequence, signedDao) :: h.accepted }

def logTransmitted (retained : Bytes) (h : DaoTxHistory) : DaoTxHistory :=
  match fromBytes retained with
  | .error _ => h
  | .ok envelope => { h with transmitted := envelope.origin.originSequence :: h.transmitted }

/-- The history is one that the record `sequence`, `signedDao` can have, with one DAO for each
sequence if the run is `clean`. -/
structure Fits (h : DaoTxHistory) (clean : Prop) (sequence : Nat) (signedDao : Bytes) : Prop where
  reserved_le : ∀ s ∈ h.reserved, s ≤ sequence
  increasing : h.reserved.Pairwise (· > ·)
  accepted_le : ∀ p ∈ h.accepted, p.1 ≤ sequence
  accepted_origin : ∀ p ∈ h.accepted, ∃ envelope,
    fromBytes p.2 = .ok envelope ∧ envelope.origin.originSequence = p.1
  accepted_last : ∀ p ∈ h.accepted, p.1 = sequence → signedDao = p.2 ∨ p.1 ∈ h.transmitted
  one_dao : clean → ∀ p ∈ h.accepted, ∀ q ∈ h.accepted, p.1 = q.1 → p.2 = q.2

variable {clean : Prop} {history : DaoTxHistory} {sequence : Nat} {signedDao newDao : Bytes}

section

variable (h : Fits history clean sequence signedDao)

include h

theorem Fits.reserve : Fits history clean (sequence + 1) signedDao :=
  { h with
    reserved_le := fun s hs => (h.reserved_le s hs).trans (Nat.le_succ _)
    accepted_le := fun p hp => (h.accepted_le p hp).trans (Nat.le_succ _)
    accepted_last := fun p hp heq => absurd (h.accepted_le p hp) (by omega) }

theorem Fits.logReserved :
    Fits (history.logReserved (sequence + 1)) clean (sequence + 1) signedDao :=
  { h.reserve with
    reserved_le := by
      rintro s (_ | ⟨_, hs⟩)
      · exact le_rfl
      · exact h.reserve.reserved_le s hs
    increasing := List.pairwise_cons.mpr
      ⟨fun s hs => Nat.lt_succ_of_le (h.reserved_le s hs), h.increasing⟩ }

theorem Fits.logTransmitted : Fits (history.logTransmitted retained) clean sequence signedDao := by
  unfold DaoTxHistory.logTransmitted
  split
  · exact h
  · exact { h with accepted_last := fun p hp heq =>
      (h.accepted_last p hp heq).imp_right (List.mem_cons_of_mem _) }

theorem Fits.clear : Fits (history.logTransmitted signedDao) clean sequence newDao := by
  have hlast : ∀ p ∈ history.accepted, p.1 = sequence →
      p.1 ∈ (history.logTransmitted signedDao).transmitted := by
    intro p hp heq
    obtain ⟨_, hparse, horigin⟩ := h.accepted_origin p hp
    obtain rfl | hcleared := h.accepted_last p hp heq
    · simp [DaoTxHistory.logTransmitted, hparse, horigin]
    · unfold DaoTxHistory.logTransmitted
      split
      · exact hcleared
      · exact List.mem_cons_of_mem _ hcleared
  unfold DaoTxHistory.logTransmitted at hlast ⊢
  split
  · exact { h with accepted_last := by grind }
  · exact { h with accepted_last := by grind }

section

variable (hother : ∀ envelope, fromBytes signedDao = .ok envelope →
  envelope.origin.originSequence ≠ sequence)

include hother

theorem Fits.cleared (p : Nat × Bytes) (hp : p ∈ history.accepted) (heq : p.1 = sequence) :
    p.1 ∈ history.transmitted := by
  obtain ⟨envelope, hparse, horigin⟩ := h.accepted_origin p hp
  obtain rfl | hcleared := h.accepted_last p hp heq
  · exact absurd (horigin.trans heq) (hother envelope hparse)
  · exact hcleared

theorem Fits.replace : Fits history clean sequence newDao :=
  { h with accepted_last := fun p hp heq => .inr (h.cleared hother p hp heq) }

end

end

theorem Fits.logAccepted (h : Fits history clean sequence newDao)
    (hparse : fromBytes newDao = .ok envelope)
    (horigin : envelope.origin.originSequence = sequence)
    (hfirst : clean → ∀ p ∈ history.accepted, p.1 ≠ sequence) :
    Fits (history.logAccepted sequence newDao) clean sequence newDao where
  reserved_le := h.reserved_le
  increasing := h.increasing
  accepted_le := by
    rintro p (_ | ⟨_, hp⟩)
    · exact le_rfl
    · exact h.accepted_le p hp
  accepted_origin := by
    rintro p (_ | ⟨_, hp⟩)
    · exact ⟨envelope, hparse, horigin⟩
    · exact h.accepted_origin p hp
  accepted_last := by
    rintro p (_ | ⟨_, hp⟩) heq
    · exact .inl rfl
    · exact h.accepted_last p hp heq
  one_dao := by
    rintro hclean p (_ | ⟨_, hp⟩) q (_ | ⟨_, hq⟩) heq
    · rfl
    · exact absurd heq.symm (hfirst hclean q hq)
    · exact absurd heq (hfirst hclean p hp)
    · exact h.one_dao hclean p hp q hq heq

end DaoTxHistory

structure DaoTxNode (E : Type) where
  flash : Flash E daoTxMagic
  tx : Option DaoTxState
  history : DaoTxHistory

namespace DaoTxNode

variable {E : Type}

def blank (E : Type) : DaoTxNode E := ⟨⟨fun _ => none, .complete⟩, none, [], [], []⟩

def settle (n : DaoTxNode E) (log : α → DaoTxHistory → DaoTxHistory) :
    Option (Except (DaoTxError E) α) × DaoTxState × Flash E daoTxMagic → DaoTxNode E
  | (none, _, flash) => { n with flash, tx := none }
  | (some (.error _), tx, flash) => { n with flash, tx := some tx }
  | (some (.ok value), tx, flash) => ⟨flash, some tx, log value n.history⟩

def step (n : DaoTxNode E) : DaoTxCall E → DaoTxNode E
  | .provision scope fate =>
    match DaoTxState.provision (n.flash.withFate fate) scope with
    | (none, flash) => { n with flash, tx := none }
    | (some (.error _), flash) => { n with flash }
    | (some (.ok tx), flash) => { n with flash, tx := some tx }
  | .open scope => { n with tx := (DaoTxState.open n.flash scope).toOption }
  | .reserveNext fate =>
    match n.tx with
    | none => n
    | some tx => n.settle DaoTxHistory.logReserved (tx.reserveNext (n.flash.withFate fate))
  | .finalizeSigned sequence signedDao fate =>
    match n.tx with
    | none => n
    | some tx => n.settle (fun _ => DaoTxHistory.logAccepted sequence signedDao)
        (tx.finalizeSigned (n.flash.withFate fate) sequence signedDao)
  | .clearTransmitted fate =>
    match n.tx with
    | none => n
    | some tx => { n with history := n.history.logTransmitted tx.lastSignedDao }.settle (fun _ => id)
        (tx.clearTransmitted (n.flash.withFate fate))

end DaoTxNode

def Recorded (f : Flash E daoTxMagic) (generation sequence : Nat) (signedDao : Bytes) : Prop :=
  ∃ value payload, f.Holds daoTxKeys value payload ∧ value.generation = generation ∧
    beNat (payload.extract 65 73) = sequence ∧
    payload.extract daoTxHeaderLen payload.length = signedDao

section

variable {E : Type} {f : Flash E daoTxMagic} {generation sequence : Nat} {signedDao payload : Bytes}

theorem Recorded.setFate (h : Recorded f generation sequence signedDao)
    (fate : WriteFate E daoTxMagic) : Recorded (f.withFate fate) generation sequence signedDao := by
  obtain ⟨value, payload, hholds, hrest⟩ := h
  exact ⟨value, payload, hholds.setFate fate, hrest⟩

theorem Recorded.sequence_lt (h : Recorded f generation sequence signedDao) :
    sequence < 2 ^ 64 := by
  obtain ⟨_, payload, -, -, rfl, -⟩ := h
  have hlen : (payload.extract 65 73).length ≤ 8 := by simp [List.extract]
  exact lt_of_lt_of_le (beNat_lt _) (Nat.pow_le_pow_right (n := 256) (by decide) hlen)

theorem encodeTxState_fields (hseq : sequence < 2 ^ 64)
    (h : encodeTxState scope sequence signedDao = some payload) :
    beNat (payload.extract 65 73) = sequence ∧
    payload.extract daoTxHeaderLen payload.length = signedDao := by
  simp only [encodeTxState] at h
  split at h
  · cases h
  cases h
  constructor
  · rw [List.append_assoc, List.append_assoc, extract_field (by simp) (by simp),
      beNat_beBytes_of_lt hseq]
  · have hlen : (scope.publicKey.toList ++ scope.localOrigin.toList ++ [scope.rplInstanceId] ++
        scope.dodagId.toList ++ beBytes 8 sequence ++ beBytes 2 signedDao.length).length =
        daoTxHeaderLen := by simp [daoTxHeaderLen]
    rw [List.extract, List.drop_left' hlen, List.length_append, hlen, Nat.add_sub_cancel_left,
      List.take_length]

/-- The ways a call of a handle can end: without a write, with the new record taken over, or
with an error after which the old or the new record stands on the flash. -/
def CommitOutcome (tx : DaoTxState) (f : Flash E daoTxMagic) (generation sequence : Nat)
    (signedDao : Bytes) (newSequence : Nat) (newDao : Bytes) (value : α) :
    Option (Except (DaoTxError E) α) × DaoTxState × Flash E daoTxMagic → Prop
  | (none, _, f') => f' = f
  | (some (.error _), tx', f') => tx' = tx ∧ (f' = f ∨
      (tx.current.generation = generation ∧ (Recorded f' generation sequence signedDao ∨
        Recorded f' (generation + 1) newSequence newDao)))
  | (some (.ok result), tx', f') => result = value ∧ tx.current.generation = generation ∧
      tx'.current.generation = generation + 1 ∧ tx'.lastReserved = newSequence ∧
      tx'.lastSignedDao = newDao ∧ Recorded f' (generation + 1) newSequence newDao

section

variable (h : Recorded f generation sequence signedDao)

include h

theorem Recorded.commit (tx : DaoTxState)
    (hnew : tx.current.generation = generation → newSequence < 2 ^ 64) (newDao : Bytes)
    (value : α) : CommitOutcome tx f generation sequence signedDao newSequence newDao value
      (tx.commit f newSequence newDao value) := by
  obtain ⟨stored, payload, hholds, rfl, hfields⟩ := h
  simp only [DaoTxState.commit]
  cases hencode : encodeTxState tx.toDaoTxScope newSequence newDao with
  | none => exact ⟨rfl, .inl rfl⟩
  | some newPayload =>
    have hnext : ∀ f' : Flash E daoTxMagic, tx.current.generation = stored.generation →
        f'.Holds daoTxKeys (stored.next newPayload) newPayload →
        Recorded f' (stored.generation + 1) newSequence newDao := fun f' hgen hholds' =>
      ⟨_, newPayload, hholds', rfl, encodeTxState_fields (hnew hgen) hencode⟩
    obtain ⟨_, hupdate, hresult⟩ | ⟨hgen, f', ⟨hupdate, hholds'⟩ | ⟨_, hupdate, hfate⟩⟩ :=
      hholds.update_outcome tx.current newPayload (daoTxPayloadLen + slotOverhead)
    · simp only [hupdate]
      obtain rfl | rfl | rfl | rfl := hresult
      · rfl
      all_goals exact ⟨rfl, .inl rfl⟩
    · simp only [hupdate]
      exact ⟨rfl, hgen, rfl, rfl, rfl, hnext f' hgen hholds'⟩
    · simp only [hupdate]
      exact ⟨rfl, .inr ⟨hgen, hfate.imp (fun hkept => ⟨stored, payload, hkept, rfl, hfields⟩)
        (fun hlate => hnext f' hgen hlate.2)⟩⟩

theorem Recorded.open_ok (hopen : DaoTxState.open f scope = .ok tx) :
    tx.current.generation = generation ∧ tx.lastReserved = sequence ∧
      tx.lastSignedDao = signedDao := by
  obtain ⟨_, _, hholds, rfl, rfl, rfl⟩ := h
  simp only [DaoTxState.open] at hopen
  obtain hredundant | hredundant := hholds.open_cases (daoTxPayloadLen + slotOverhead)
    (daoTxPayloadLen + slotOverhead) daoTxPayloadLen
  · simp only [hredundant] at hopen
    repeat' split at hopen
    all_goals cases hopen
    exact ⟨rfl, rfl, by rw [hholds.len]⟩
  · simp [hredundant] at hopen

theorem Recorded.open_ne_missing
    (scope : DaoTxScope) : DaoTxState.open f scope ≠ .error .missing := by
  obtain ⟨_, _, hholds, -⟩ := h
  simp only [DaoTxState.open]
  obtain hredundant | hredundant := hholds.open_cases (daoTxPayloadLen + slotOverhead)
    (daoTxPayloadLen + slotOverhead) daoTxPayloadLen
  · simp only [hredundant]
    repeat' split
    all_goals simp
  · simp [hredundant, mapOpenError]

theorem Recorded.provision (scope : DaoTxScope) :
    ∃ error, DaoTxState.provision f scope = (some (.error error), f) := by
  have hmissing := h.open_ne_missing scope
  simp only [DaoTxState.provision]
  cases hopen : DaoTxState.open f scope with
  | ok => exact ⟨_, rfl⟩
  | error error =>
    cases error with
    | missing => exact absurd hopen hmissing
    | _ => exact ⟨_, rfl⟩

end

theorem provision_of_unprovisioned (h : f.Unprovisioned daoTxKeys) (scope : DaoTxScope) :
    ∃ result f', DaoTxState.provision f scope = (result, f') ∧
      ((f'.Unprovisioned daoTxKeys ∧ ∀ tx, result ≠ some (.ok tx)) ∨
      (Recorded f' 1 0 [] ∧ ∀ tx, result = some (.ok tx) → DaoTxState.open f' scope = .ok tx)) := by
  obtain ⟨error, hredundant⟩ := h.open_error (daoTxPayloadLen + slotOverhead)
    (daoTxPayloadLen + slotOverhead) daoTxPayloadLen
  have hopen : DaoTxState.open f scope = .error (mapOpenError error) := by
    simp only [DaoTxState.open, hredundant]
  simp only [DaoTxState.provision, hopen]
  cases error with
  | missing =>
    cases hencode : encodeTxState scope 0 [] with
    | none => exact ⟨_, f, rfl, .inl ⟨h, by simp⟩⟩
    | some payload =>
      obtain ⟨result, f', hprovision, hresult⟩ :=
        h.provision_outcome payload (daoTxHeaderLen + slotOverhead)
      have hrecorded : f'.Holds daoTxKeys ⟨1, 0, payload.length⟩ payload → Recorded f' 1 0 [] :=
        fun hholds => ⟨_, payload, hholds, rfl, encodeTxState_fields (by decide) hencode⟩
      simp only [hprovision]
      obtain _ | (_ | _) | ⟨⟨⟩⟩ := result
      iterate 3 exact ⟨_, f', rfl, hresult.imp (⟨·.1, by simp⟩) (⟨hrecorded ·, by simp⟩)⟩
      · refine ⟨_, f', rfl, hresult.imp (fun hfailed => absurd rfl hfailed.2) fun hholds =>
          ⟨hrecorded hholds, fun tx htx => ?_⟩⟩
        cases hreopen : DaoTxState.open f' scope with
        | error => simp [hreopen] at htx
        | ok =>
          rw [hreopen] at htx
          cases htx
          rfl
  | corrupt | bufferTooSmall | storage => exact ⟨_, f, rfl, .inl ⟨h, by simp⟩⟩

end

namespace DaoTxNode

variable {E : Type}

/-- What ties the node's memory and history to the record on its flash. -/
structure Agrees (n : DaoTxNode E) (clean : Prop) (generation sequence : Nat) (signedDao : Bytes) :
    Prop where
  recorded : Recorded n.flash generation sequence signedDao
  handle_le : ∀ tx, n.tx = some tx → tx.current.generation ≤ generation
  memory : ∀ tx, n.tx = some tx → tx.current.generation = generation →
    tx.lastReserved = sequence ∧ tx.lastSignedDao = signedDao
  fits : n.history.Fits clean sequence signedDao

def Unused (n : DaoTxNode E) : Prop :=
  n.flash.Unprovisioned daoTxKeys ∧ n.tx = none ∧ n.history = ⟨[], [], []⟩

/-- The node's flash was never provisioned, or its memory and history agree with its record. -/
def Sound (n : DaoTxNode E) (clean : Prop) : Prop :=
  n.Unused ∨ ∃ generation sequence signedDao, n.Agrees clean generation sequence signedDao

variable {clean : Prop} {n : DaoTxNode E} {tx : DaoTxState} {generation sequence : Nat}
  {signedDao : Bytes}

theorem Agrees.keep (h : n.Agrees clean generation sequence signedDao) (htx : n.tx = some tx)
    (hrecorded : Recorded f' generation sequence signedDao) :
    Sound (n.settle log (some (.error error), tx, f')) clean :=
  .inr ⟨_, _, _, hrecorded, by rintro _ ⟨⟩; exact h.handle_le _ htx, by
    rintro _ ⟨⟩; exact h.memory _ htx, h.fits⟩

theorem Agrees.settle (h : n.Agrees clean generation sequence signedDao) (htx : n.tx = some tx)
    (houtcome : CommitOutcome tx (n.flash.withFate fate) generation sequence signedDao newSequence
      newDao value outcome)
    (hlate : tx.current.generation = generation → n.history.Fits clean newSequence newDao)
    (hok : tx.current.generation = generation → (log value n.history).Fits clean newSequence newDao) :
    Sound (n.settle log outcome) clean := by
  obtain ⟨_ | (error | result), tx', f'⟩ := outcome
  · obtain rfl : f' = n.flash.withFate fate := houtcome
    exact .inr ⟨_, _, _, h.recorded.setFate fate, by simp [DaoTxNode.settle], by
      simp [DaoTxNode.settle], h.fits⟩
  · obtain ⟨rfl, hflash⟩ := houtcome
    obtain rfl | ⟨hgen, hrecorded | hrecorded⟩ := hflash
    · exact h.keep htx (h.recorded.setFate fate)
    · exact h.keep htx hrecorded
    · refine .inr ⟨_, _, _, hrecorded, ?_, ?_, hlate hgen⟩
      · rintro _ ⟨⟩
        omega
      · rintro _ ⟨⟩ hnext
        omega
  · obtain ⟨rfl, hgen, hgen', hreserved, hsigned, hrecorded⟩ := houtcome
    refine .inr ⟨_, _, _, hrecorded, ?_, ?_, hok hgen⟩
    · rintro _ ⟨⟩
      exact hgen'.le
    · rintro _ ⟨⟩ -
      exact ⟨hreserved, hsigned⟩

/-- `finalize_signed` refuses without a write, or commits a DAO of the last reserved sequence
while the retained DAO is of another one. -/
theorem finalizeSigned_cases (tx : DaoTxState) (f : Flash E daoTxMagic) (sequence : Nat)
    (signedDao : Bytes) :
    (∃ error, tx.finalizeSigned f sequence signedDao = (some (.error error), tx, f)) ∨
    (sequence = tx.lastReserved ∧ (∃ envelope, fromBytes signedDao = .ok envelope ∧
        envelope.origin.originSequence = sequence) ∧
      (∀ envelope, fromBytes tx.lastSignedDao = .ok envelope →
        envelope.origin.originSequence ≠ sequence) ∧
      tx.finalizeSigned f sequence signedDao = tx.commit f sequence signedDao ()) := by
  simp only [DaoTxState.finalizeSigned]
  split
  · exact .inl ⟨_, rfl⟩
  rename_i hsequence
  split
  · exact .inl ⟨_, rfl⟩
  cases hparse : fromBytes signedDao with
  | error => exact .inl ⟨_, rfl⟩
  | ok envelope =>
    simp only
    split
    · exact .inl ⟨_, rfl⟩
    rename_i horigin
    split
    · exact .inl ⟨_, rfl⟩
    rename_i hretained
    refine .inr ⟨not_not.mp hsequence, ⟨envelope, rfl, not_not.mp horigin⟩, ?_, rfl⟩
    intro retained hlast heq
    simp [hlast, Except.toOption, heq] at hretained

section

variable (h : n.Agrees clean generation sequence signedDao)

include h

theorem Agrees.reserveNext (htx : n.tx = some tx) :
    Sound (n.settle DaoTxHistory.logReserved (tx.reserveNext (n.flash.withFate fate))) clean := by
  simp only [DaoTxState.reserveNext]
  split
  · exact h.keep htx (h.recorded.setFate fate)
  · refine h.settle htx ((h.recorded.setFate fate).commit tx (fun _ => by omega) _ _) ?_ ?_
    all_goals
      intro hgen
      obtain ⟨hreserved, hsigned⟩ := h.memory tx htx hgen
      rw [hreserved, hsigned]
    · exact h.fits.reserve
    · exact h.fits.logReserved

theorem Agrees.finalizeSigned (htx : n.tx = some tx)
    (hnot : clean → newSequence ∉ n.history.transmitted) :
    Sound (n.settle (fun _ => DaoTxHistory.logAccepted newSequence newDao)
      (tx.finalizeSigned (n.flash.withFate fate) newSequence newDao)) clean := by
  obtain ⟨_, hrefused⟩ | ⟨hlast, ⟨_, hparse, horigin⟩, hother, hcommit⟩ :=
    finalizeSigned_cases tx (n.flash.withFate fate) newSequence newDao
  · rw [hrefused]
    exact h.keep htx (h.recorded.setFate fate)
  · rw [hcommit]
    have hfits : tx.current.generation = generation →
        n.history.Fits clean newSequence tx.lastSignedDao := by
      intro hgen
      obtain ⟨hreserved, hsigned⟩ := h.memory tx htx hgen
      rw [hlast, hreserved, hsigned]
      exact h.fits
    refine h.settle htx ((h.recorded.setFate fate).commit tx (fun hgen => ?_) _ _)
      (fun hgen => (hfits hgen).replace hother) fun hgen =>
        ((hfits hgen).replace hother).logAccepted hparse horigin fun hclean p hp heq => ?_
    · rw [hlast, (h.memory tx htx hgen).1]
      exact h.recorded.sequence_lt
    · exact hnot hclean (heq ▸ (hfits hgen).cleared hother p hp heq)

theorem Agrees.logTransmitted (retained : Bytes) :
    Agrees { n with history := n.history.logTransmitted retained } clean generation sequence
      signedDao :=
  ⟨h.recorded, h.handle_le, h.memory, h.fits.logTransmitted⟩

theorem Agrees.clearTransmitted (htx : n.tx = some tx) (fate : WriteFate E daoTxMagic) :
    Sound ({ n with history := n.history.logTransmitted tx.lastSignedDao }.settle (fun _ => id)
      (tx.clearTransmitted (n.flash.withFate fate))) clean := by
  have hlog := h.logTransmitted tx.lastSignedDao
  simp only [DaoTxState.clearTransmitted]
  split
  · exact hlog.keep htx (h.recorded.setFate fate)
  · have hfits : tx.current.generation = generation →
        (n.history.logTransmitted tx.lastSignedDao).Fits clean tx.lastReserved [] := by
      intro hgen
      obtain ⟨hreserved, hsigned⟩ := h.memory tx htx hgen
      rw [hreserved, hsigned]
      exact h.fits.clear
    refine hlog.settle htx ((h.recorded.setFate fate).commit tx (fun hgen => ?_) _ _) hfits hfits
    rw [(h.memory tx htx hgen).1]
    exact h.recorded.sequence_lt

end

/-- A DAO is finalized only for a sequence whose DAO was not handed to `clear_transmitted`. -/
def NotTransmitted (n : DaoTxNode E) : DaoTxCall E → Prop
  | .finalizeSigned sequence _ _ => sequence ∉ n.history.transmitted
  | _ => True

instance (n : DaoTxNode E) : ∀ call, Decidable (NotTransmitted n call)
  | .finalizeSigned sequence _ _ => inferInstanceAs (Decidable (sequence ∉ n.history.transmitted))
  | .provision _ _ | .open _ | .reserveNext _ | .clearTransmitted _ => isTrue trivial

section

variable (h : Sound n clean)

include h

theorem Sound.open : Sound (n.step (.open scope)) clean := by
  obtain ⟨hflash, htx, hhistory⟩ | ⟨generation, sequence, signedDao, hagrees⟩ := h
  · obtain ⟨_, hredundant⟩ := hflash.open_error (daoTxPayloadLen + slotOverhead)
      (daoTxPayloadLen + slotOverhead) daoTxPayloadLen
    refine .inl ⟨hflash, ?_, hhistory⟩
    simp [step, DaoTxState.open, hredundant, Except.toOption]
  · have hopened := fun tx (htx : (DaoTxState.open n.flash scope).toOption = some tx) =>
      hagrees.recorded.open_ok (toOption_eq_some.mp htx)
    exact .inr ⟨generation, sequence, signedDao, hagrees.recorded,
      fun tx htx => (hopened tx htx).1.le, fun tx htx _ => (hopened tx htx).2, hagrees.fits⟩

theorem Sound.provision (scope : DaoTxScope) (fate : WriteFate E daoTxMagic) :
    Sound (n.step (.provision scope fate)) clean := by
  obtain ⟨hflash, htx, hhistory⟩ | ⟨_, _, _, hagrees⟩ := h
  · obtain ⟨result, _, hprovision, hresult⟩ :=
      provision_of_unprovisioned (f := n.flash.withFate fate) hflash scope
    have hfits : n.history.Fits clean 0 [] := by
      rw [hhistory]
      exact ⟨by simp, List.Pairwise.nil, by simp, by simp, by simp, by simp⟩
    simp only [step, hprovision]
    obtain ⟨hflash', hfailed⟩ | ⟨hrecorded, hopened⟩ := hresult
    · left
      obtain _ | (error | tx) := result
      · exact ⟨hflash', rfl, hhistory⟩
      · exact ⟨hflash', htx, hhistory⟩
      · exact absurd rfl (hfailed tx)
    · right
      obtain _ | (error | tx) := result
      · exact ⟨1, 0, [], hrecorded, by simp, by simp, hfits⟩
      · exact ⟨1, 0, [], hrecorded, by simp [htx], by simp [htx], hfits⟩
      · obtain ⟨hgen, hmemory⟩ := hrecorded.open_ok (hopened tx rfl)
        refine ⟨1, 0, [], hrecorded, ?_, ?_, hfits⟩
        · rintro _ ⟨⟩
          exact hgen.le
        · rintro _ ⟨⟩ -
          exact hmemory
  · obtain ⟨error, hprovision⟩ := (hagrees.recorded.setFate fate).provision scope
    simp only [step, hprovision]
    exact .inr ⟨_, _, _, hagrees.recorded.setFate fate, hagrees.handle_le, hagrees.memory,
      hagrees.fits⟩

theorem Sound.handle {next : DaoTxState → DaoTxNode E}
    (hnext : ∀ {tx generation sequence signedDao}, n.Agrees clean generation sequence signedDao →
      n.tx = some tx → Sound (next tx) clean) :
    Sound (match n.tx with | none => n | some tx => next tx) clean := by
  cases htx : n.tx with
  | none => exact h
  | some =>
    obtain ⟨-, hnone, -⟩ | ⟨_, _, _, hagrees⟩ := h
    · rw [hnone] at htx
      cases htx
    · exact hnext hagrees htx

theorem Sound.step (hnot : clean → NotTransmitted n call) : Sound (n.step call) clean := by
  cases call with
  | provision scope fate => exact h.provision scope fate
  | «open» scope => exact h.open
  | reserveNext => exact h.handle fun hagrees htx => hagrees.reserveNext htx
  | finalizeSigned => exact h.handle fun hagrees htx => hagrees.finalizeSigned htx hnot
  | clearTransmitted fate => exact h.handle fun hagrees htx => hagrees.clearTransmitted htx fate

end

theorem sound_blank (clean : Prop) : Sound (blank E) clean := .inl ⟨⟨rfl, rfl⟩, rfl, rfl⟩

def OneDaoPerSequence (n : DaoTxNode E) : Prop :=
  ∀ p ∈ n.history.accepted, ∀ q ∈ n.history.accepted, p.1 = q.1 → p.2 = q.2

/-- Reserved sequences strictly increase in every run; a run that finalizes no sequence again
after its DAO was cleared accepts at most one DAO for each. -/
theorem reserved_increasing_and_one_dao (calls : List (DaoTxCall E)) :
    (run step (blank E) calls).history.reserved.Pairwise (· > ·) ∧
    (Steps NotTransmitted step (blank E) calls →
      OneDaoPerSequence (run step (blank E) calls)) := by
  constructor
  · obtain ⟨-, -, hhistory⟩ | ⟨_, _, _, hagrees⟩ :=
      run_invariant (I := (Sound · False)) (fun _ _ h => h.step False.elim)
        (sound_blank (E := E) False) calls
    · rw [hhistory]
      exact List.Pairwise.nil
    · exact hagrees.fits.increasing
  · intro hsteps
    obtain ⟨-, -, hhistory⟩ | ⟨_, _, _, hagrees⟩ := run_invariant_of_steps
      (I := (Sound · True)) (fun _ _ h hnot => h.step fun _ => hnot) (sound_blank True) calls hsteps
    · intro p hp
      rw [hhistory] at hp
      cases hp
    · exact hagrees.fits.one_dao trivial

def sampleDao (signature : UInt8) : Bytes :=
  [0, 0, 0, 0, 0x12, 56] ++ beBytes 8 1 ++ List.replicate 48 signature

def sampleScope : DaoTxScope :=
  ⟨List.Vector.replicate 32 0, List.Vector.replicate 16 0, 0, List.Vector.replicate 16 0⟩

theorem one_dao_of_sample_run :
    let calls : List (DaoTxCall Unit) := [.provision sampleScope .complete, .reserveNext .complete,
      .finalizeSigned 1 (sampleDao 0) .complete, .clearTransmitted .complete,
      .reserveNext .complete]
    Steps NotTransmitted step (blank Unit) calls ∧
      OneDaoPerSequence (run step (blank Unit) calls) :=
  ⟨by decide +kernel, (reserved_increasing_and_one_dao _).2 (by decide +kernel)⟩

theorem finalized_twice_after_clear :
    (run step (blank Unit) [.provision sampleScope .complete, .reserveNext .complete,
      .finalizeSigned 1 (sampleDao 0) .complete, .clearTransmitted .complete,
      .finalizeSigned 1 (sampleDao 1) .complete]).history.accepted =
    [(1, sampleDao 1), (1, sampleDao 0)] ∧ sampleDao 1 ≠ sampleDao 0 := by
  decide +kernel

end DaoTxNode

end Lichen.Rpl
