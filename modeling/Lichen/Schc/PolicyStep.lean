import Lichen.Schc.Policy

namespace Lichen.Schc

open Lichen.Lib Lichen.Core

/-- At the time `now`, with `id` as the next session id, no session can be granted. -/
def Spent (now id : Nat) : Prop :=
  2 ^ 64 ≤ now + (inactivityTimeoutMillis + fragmentTombstoneMillis) ∨ 2 ^ 32 ≤ id + 1

theorem Spent.mono {now now' id id' : Nat} (h : Spent now id) (hnow : now ≤ now')
    (hid : id ≤ id') : Spent now' id' :=
  h.imp (fun h => h.trans (Nat.add_le_add_right hnow _))
    fun h => h.trans (Nat.add_le_add_right hid _)

/-- How a session may end: with which high counter, and which answer. -/
abbrev Ending := SessionReservation → Nat → ReceiverResult → Prop

def lapsed (answer : Role → RuleIndex → ReceiverResult) (role : Role) (index : RuleIndex) : Ending :=
  fun session high result => high = session.highCounter ∧ result = answer role index

def anyEnding (_ : Role) (_ : RuleIndex) : Ending := fun _ _ _ => True

/-- What an operation at the policy time `now` may do to the slot of a role, `id` being the next
session id. Only a poll that is `due` retires a tombstone. A failed grant may still discard it, but
then no session is granted any more. -/
inductive SlotStep (due : Prop) (ending : Ending) (now id : Nat) (role : Role) :
    Slot → Slot → Prop where
  | same : SlotStep due ending now id role slot slot
  | grant {tombstone : Option TerminalTombstone}
      (hfree : ∀ t, tombstone = some t → t.untilMs ≤ now)
      (hfloor : role = .receiver → ∀ t, tombstone = some t → t.highCounter ≤ high)
      (hspent : ¬Spent now id) :
      SlotStep due ending now id role ⟨none, tombstone⟩ ⟨some ⟨id, expiresAtMs, high⟩, none⟩
  | touch {slot : Slot} (hsession : slot.session = some session)
      (hhigh : role = .receiver → session.highCounter ≤ high) :
      SlotStep due ending now id role slot { slot with session := some ⟨session.id, expiresAtMs, high⟩ }
  | finish {slot : Slot} (hsession : slot.session = some session)
      (hhigh : role = .receiver → session.highCounter ≤ high)
      (hending : ending session high result) :
      SlotStep due ending now id role slot
        ⟨none, some ⟨saturatingAdd now fragmentTombstoneMillis, high, result⟩⟩
  | late {tombstone : TerminalTombstone} (hcounter : tombstone.highCounter ≤ counter) :
      SlotStep due ending now id role ⟨session, some tombstone⟩
        ⟨session, some { tombstone with highCounter := counter }⟩
  | retire {tombstone : TerminalTombstone} (hdue : due) (huntil : tombstone.untilMs ≤ now) :
      SlotStep due ending now id role ⟨session, some tombstone⟩ ⟨session, none⟩
  | spend {tombstone : Option TerminalTombstone} (hspent : Spent now id)
      (hfree : ∀ t, tombstone = some t → t.untilMs ≤ now) :
      SlotStep due ending now id role ⟨none, tombstone⟩ ⟨none, none⟩

theorem SlotStep.mono {now id : Nat} (hdue : due → due')
    (h : SlotStep due ending now id role slot slot') :
    SlotStep due' ending now id role slot slot' := by
  cases h with
  | same => exact .same
  | grant hfree hfloor hspent => exact .grant hfree hfloor hspent
  | touch hsession hhigh => exact .touch hsession hhigh
  | finish hsession hhigh hending => exact .finish hsession hhigh hending
  | late hcounter => exact .late hcounter
  | retire h huntil => exact .retire (hdue h) huntil
  | spend hspent hfree => exact .spend hspent hfree

section

variable {due : Prop} {ending : Ending} {now id : Nat} {role : Role} {slot slot' : Slot}

section

variable (h : SlotStep due ending now id role slot slot')

include h

theorem SlotStep.session {session : SessionReservation} (hsession : slot'.session = some session) :
    (∃ before, slot.session = some before ∧ before.id = session.id) ∨
      (slot.session = none ∧ session.id = id) := by
  cases h with
  | same | late | retire => exact .inl ⟨session, hsession, rfl⟩
  | grant =>
    cases hsession
    exact .inr ⟨rfl, rfl⟩
  | touch hbefore =>
    cases hsession
    exact .inl ⟨_, hbefore, rfl⟩
  | finish | spend => cases hsession

theorem SlotStep.session_or_tombstone
    {session : SessionReservation} (hsession : slot.session = some session) :
    (∃ after, slot'.session = some after ∧ after.id = session.id) ∨
      ∃ tombstone, slot'.tombstone = some tombstone ∧
        tombstone.untilMs = saturatingAdd now fragmentTombstoneMillis := by
  cases h with
  | same | late | retire => exact .inl ⟨session, hsession, rfl⟩
  | grant | spend => cases hsession
  | touch hbefore =>
    cases hbefore.symm.trans hsession
    exact .inl ⟨_, rfl, rfl⟩
  | finish => exact .inr ⟨_, rfl, rfl⟩

/-- A tombstone stays until its time is over, unless the session after it ends or no session is
granted any more. -/
theorem SlotStep.tombstone
    {tombstone : TerminalTombstone} (htombstone : slot.tombstone = some tombstone) :
    Spent now id ∨ tombstone.untilMs ≤ now ∨ ∃ after, slot'.tombstone = some after ∧
      (after.untilMs = tombstone.untilMs ∨
        after.untilMs = saturatingAdd now fragmentTombstoneMillis) := by
  cases h with
  | same | touch => exact .inr (.inr ⟨tombstone, htombstone, .inl rfl⟩)
  | grant hfree => exact .inr (.inl (hfree tombstone htombstone))
  | finish => exact .inr (.inr ⟨_, rfl, .inr rfl⟩)
  | late =>
    cases htombstone
    exact .inr (.inr ⟨_, rfl, .inl rfl⟩)
  | retire _ huntil =>
    cases htombstone
    exact .inr (.inl huntil)
  | spend hspent => exact .inl hspent

theorem SlotStep.free_of_grant (hbefore : slot.session = none) (hafter : slot'.session ≠ none) :
    ¬Spent now id ∧ ∀ tombstone, slot.tombstone = some tombstone → tombstone.untilMs ≤ now := by
  cases h with
  | same | late | retire => exact absurd hbefore hafter
  | grant hfree _ hspent => exact ⟨hspent, hfree⟩
  | touch hsession | finish hsession => cases hsession.symm.trans hbefore
  | spend => exact absurd rfl hafter

end

end

theorem spent_or_le_saturatingAdd (h : time ≤ now) (id : Nat) : Spent now id ∨
      time + fragmentTombstoneMillis ≤ saturatingAdd now fragmentTombstoneMillis := by
  rw [Spent, saturatingAdd]
  omega

namespace FragmentationPolicyEntry

def Grants (entry entry' : FragmentationPolicyEntry) (role : Role) (index : RuleIndex) : Prop :=
  (entry.slots role index).session = none ∧ (entry'.slots role index).session ≠ none

/-- What an operation may do to an entry; `due` are the slots whose tombstones it may retire. -/
structure Step (due : Role → RuleIndex → Prop) (ending : Role → RuleIndex → Ending)
    (entry entry' : FragmentationPolicyEntry) : Prop where
  generation : entry'.generation = entry.generation
  time : entry.lastNowMs ≤ entry'.lastNowMs
  ids : entry.nextSessionId ≤ entry'.nextSessionId
  slots : ∀ role index, SlotStep (due role index) (ending role index) entry'.lastNowMs
    entry.nextSessionId role (entry.slots role index) (entry'.slots role index)
  grant_lt : ∀ role index, Grants entry entry' role index →
    entry.nextSessionId < entry'.nextSessionId
  grant_unique : ∀ role index role' index', Grants entry entry' role index →
    Grants entry entry' role' index' → role = role' ∧ index = index'

abbrev Moves (ending : Role → RuleIndex → Ending) (entry entry' : FragmentationPolicyEntry) : Prop :=
  Step (fun _ _ => False) ending entry entry'

variable {entry : FragmentationPolicyEntry} {role : Role} {index : RuleIndex} {now : Nat}

theorem Step.mono
    (hdue : ∀ role index, due role index → due' role index) (h : Step due ending entry entry') :
    Step due' ending entry entry' :=
  { h with slots := fun role index => (h.slots role index).mono (hdue role index) }

@[simp] theorem setSlot_slots_self (entry : FragmentationPolicyEntry) (role : Role)
    (index : RuleIndex) (slot : Slot) : (entry.setSlot role index slot).slots role index = slot :=
  if_pos ⟨rfl, rfl⟩

theorem setSlot_slots_other (entry : FragmentationPolicyEntry) (slot : Slot)
    (h : ¬(role' = role ∧ index' = index)) :
    (entry.setSlot role index slot).slots role' index' = entry.slots role' index' :=
  if_neg h

theorem Step.ofSlot (role : Role) (index : RuleIndex)
    (hgeneration : entry'.generation = entry.generation)
    (htime : entry.lastNowMs ≤ entry'.lastNowMs) (hids : entry.nextSessionId ≤ entry'.nextSessionId)
    (hother : ∀ r i, ¬(r = role ∧ i = index) → entry'.slots r i = entry.slots r i)
    (hslot : SlotStep (due role index) (ending role index) entry'.lastNowMs entry.nextSessionId role
      (entry.slots role index) (entry'.slots role index))
    (hgrant : Grants entry entry' role index → entry.nextSessionId < entry'.nextSessionId) :
    Step due ending entry entry' := by
  have hgrants : ∀ r i, Grants entry entry' r i → r = role ∧ i = index := by
    intro r i h
    by_contra hne
    rw [Grants, hother r i hne] at h
    exact h.2 h.1
  refine ⟨hgeneration, htime, hids, fun r i => ?_, fun r i h => ?_, fun r i r' i' h h' => ?_⟩
  · by_cases hri : r = role ∧ i = index
    · obtain ⟨rfl, rfl⟩ := hri
      exact hslot
    · rw [hother r i hri]
      exact .same
  · obtain ⟨rfl, rfl⟩ := hgrants r i h
    exact hgrant h
  · obtain ⟨rfl, rfl⟩ := hgrants r i h
    obtain ⟨rfl, rfl⟩ := hgrants r' i' h'
    exact ⟨rfl, rfl⟩

theorem Step.tick (hgeneration : entry'.generation = entry.generation)
    (htime : entry.lastNowMs ≤ entry'.lastNowMs)
    (hids : entry'.nextSessionId = entry.nextSessionId) (hslots : entry'.slots = entry.slots) :
    Step due ending entry entry' := by
  refine .ofSlot .sender .aToB hgeneration htime hids.ge (fun _ _ _ => by rw [hslots])
    (by rw [hslots]; exact .same) fun h => ?_
  rw [Grants, hslots] at h
  exact absurd h.1 h.2

theorem Step.refl (entry : FragmentationPolicyEntry) : Step due ending entry entry :=
  .tick rfl le_rfl rfl rfl

theorem Step.setSlot_of_session (hnow : entry.lastNowMs ≤ now)
    (hsession : (entry.slots role index).session = some session)
    (hslot : SlotStep (due role index) (ending role index) now entry.nextSessionId role
      (entry.slots role index) slot) :
    Step due ending entry ({ entry with lastNowMs := now }.setSlot role index slot) := by
  refine .ofSlot role index rfl hnow le_rfl (fun r i h => setSlot_slots_other _ _ h)
    (by rw [setSlot_slots_self]; exact hslot) fun h => ?_
  cases hsession.symm.trans h.1

theorem ensures_observePolicyNow : Ensures (observePolicyNow now) entry Q ↔
      (now < entry.lastNowMs → Q (.error .invalidPeerEvidence) entry) ∧
      (¬now < entry.lastNowMs → Q (.ok ()) { entry with lastNowMs := now }) := by
  simp only [observePolicyNow, ensures_bind, ensures_get, ensures_check, ensures_set]

theorem inactivityDeadline_eq (now : Nat) :
    (2 ^ 64 ≤ now + (inactivityTimeoutMillis + fragmentTombstoneMillis) ∧
      inactivityDeadline now = .error .invalidPeerEvidence) ∨
    (now + (inactivityTimeoutMillis + fragmentTombstoneMillis) < 2 ^ 64 ∧
      inactivityDeadline now = .ok (now + inactivityTimeoutMillis)) := by
  rw [inactivityDeadline, ← Nat.add_assoc]
  split
  · rename_i h
    exact .inl ⟨by omega, rfl⟩
  · rename_i h
    exact .inr ⟨by omega, rfl⟩

theorem ensures_reserve (floor : Option TerminalTombstone → Nat)
    (hfloor : role = .receiver → ∀ t, t.highCounter ≤ floor (some t)) :
    Ensures (reserve role floor index now) entry fun r entry' =>
      Moves (lapsed fun _ _ => .default) entry entry' ∧
      ∀ a, r = .ok a → (entry.slots role index).session = none ∧
        a = (entry.nextSessionId, floor (entry.slots role index).tombstone) ∧
        entry'.lastNowMs = now ∧ ∃ expiresAtMs,
          entry'.slots role index = ⟨some ⟨a.1, expiresAtMs, a.2⟩, none⟩ := by
  simp only [reserve, ensures_bind, ensures_observePolicyNow, ensures_get]
  refine ⟨fun _ => ⟨.refl _, nofun⟩, fun hnow => ?_⟩
  have hnow := Nat.not_lt.mp hnow
  have htick : Moves (lapsed fun _ _ => .default) entry { entry with lastNowMs := now } :=
    .tick rfl hnow rfl rfl
  cases hslot : entry.slots role index with
  | mk session tombstone =>
    cases session with
    | some session =>
      simp only [ensures_bind, ensures_check, ensures_set, ensures_throw]
      refine ⟨fun _ => ⟨htick, nofun⟩, fun _ => ⟨?_, nofun⟩⟩
      have hsession : (entry.slots role index).session = some session := by rw [hslot]
      exact .setSlot_of_session hnow hsession (.finish hsession (fun _ => le_rfl) ⟨rfl, rfl⟩)
    | none =>
      have hother : ∀ r i, ¬(r = role ∧ i = index) →
          ({ entry with lastNowMs := now }.setSlot role index ⟨none, none⟩).slots r i =
            entry.slots r i := fun r i h => setSlot_slots_other _ _ h
      have hfree : ¬(tombstone.any (now < ·.untilMs)) = true →
          ∀ t, tombstone = some t → t.untilMs ≤ now := by
        rintro hfree t rfl
        simpa using hfree
      have hspend : ¬(tombstone.any (now < ·.untilMs)) = true → Spent now entry.nextSessionId →
          Moves (lapsed fun _ _ => .default) entry
            ({ entry with lastNowMs := now }.setSlot role index ⟨none, none⟩) := by
        intro hover hspent
        refine .ofSlot role index rfl hnow le_rfl hother ?_ fun h => absurd ?_ h.2
        · rw [setSlot_slots_self, hslot]
          exact .spend hspent (hfree hover)
        · rw [setSlot_slots_self]
      obtain ⟨hlate, hdeadline⟩ | ⟨hearly, hdeadline⟩ := inactivityDeadline_eq now
      · simp only [ensures_bind, ensures_check, ensures_set, ensures_ofExcept, hdeadline]
        exact ⟨fun _ => ⟨htick, nofun⟩, fun hover => ⟨hspend hover (.inl hlate), nofun⟩⟩
      · simp only [ensures_bind, ensures_check, ensures_set, ensures_ofExcept, hdeadline,
          takeSessionId, ensures_get, ensures_pure, ensures_modify]
        refine ⟨fun _ => ⟨htick, nofun⟩, fun hover => ⟨fun hids => ⟨hspend hover (.inr hids), nofun⟩,
          fun hids => ⟨?_, ?_⟩⟩⟩
        · refine .ofSlot role index rfl hnow (Nat.le_succ _) (fun r i h => ?_) ?_
            fun _ => Nat.lt_succ_self _
          · rw [setSlot_slots_other _ _ h]
            exact hother r i h
          · rw [setSlot_slots_self, hslot]
            refine .grant (hfree hover) (fun hrole t ht => ?_) ?_
            · rw [ht]
              exact hfloor hrole t
            · rintro (hlate | hspent)
              · exact absurd hlate (Nat.not_le.mpr hearly)
              · exact hids hspent
        · rintro a ⟨⟩
          exact ⟨trivial, rfl, rfl, _, setSlot_slots_self _ _ _ _⟩

def Names (entry : FragmentationPolicyEntry) (role : Role) (index : RuleIndex) (sessionId : Nat) :
    Prop :=
  ∃ session, (entry.slots role index).session = some session ∧ session.id = sessionId

theorem ensures_liveSession : Ensures (liveSession role index sessionId now) entry fun r entry' =>
      (∀ ending, Moves ending entry entry') ∧ entry'.slots = entry.slots ∧
      ∀ session, r = .ok session → (entry.slots role index).session = some session ∧
        session.id = sessionId ∧ entry.lastNowMs ≤ now ∧
        entry' = { entry with lastNowMs := now } := by
  simp only [liveSession, ensures_bind, ensures_observePolicyNow, ensures_get]
  refine ⟨fun _ => ⟨fun _ => .refl _, trivial, nofun⟩, fun hnow => ?_⟩
  have hnow := Nat.not_lt.mp hnow
  have htick : ∀ ending, Moves ending entry { entry with lastNowMs := now } :=
    fun _ => .tick rfl hnow rfl rfl
  cases hsession : (entry.slots role index).session with
  | none =>
    rw [ensures_throw]
    exact ⟨htick, rfl, nofun⟩
  | some =>
    simp only [ensures_bind, ensures_check, ensures_pure, not_not]
    refine ⟨fun _ => ⟨htick, trivial, nofun⟩, fun hid => ⟨htick, trivial, ?_⟩⟩
    rintro _ ⟨⟩
    exact ⟨rfl, hid, hnow, trivial⟩

theorem tombstoneDeadline_ok (h : tombstoneDeadline now = .ok untilMs) :
    untilMs = saturatingAdd now fragmentTombstoneMillis := by
  rw [tombstoneDeadline] at h
  split at h
  · cases h
  · cases h
    rw [saturatingAdd]
    omega

section

variable (result : ReceiverResult)

theorem ensures_release (hhigh : role = .receiver → ∀ session, session.highCounter ≤ high session) :
    Ensures (release role high result index sessionId now) entry fun r entry' =>
      Moves anyEnding entry entry' ∧ (¬entry.Names role index sessionId → entry'.slots = entry.slots) ∧
      (r = .ok () → ∃ session untilMs, entry'.slots role index =
        ⟨none, some ⟨untilMs, high session, result⟩⟩) := by
  refine ensures_liveSession.bind (fun e entry' h => ⟨h.1 _, fun _ => h.2.1, nofun⟩) ?_
  rintro session entry' ⟨hstep, hslots, hlive⟩
  obtain ⟨hsession, hid, hnow, rfl⟩ := hlive session rfl
  refine .ofExcept_bind (fun e _ => ⟨hstep _, fun _ => hslots, nofun⟩) fun untilMs hdeadline => ?_
  rw [ensures_modify]
  refine ⟨.setSlot_of_session hnow hsession ?_,
    fun hnames => absurd ⟨session, hsession, hid⟩ hnames,
    fun _ => ⟨session, untilMs, setSlot_slots_self _ _ _ _⟩⟩
  rw [tombstoneDeadline_ok hdeadline]
  exact .finish hsession (fun hrole => hhigh hrole session) trivial

theorem expireSession_step (hnow : entry.lastNowMs ≤ now) :
    Moves (lapsed expiryResult) entry
      ({ entry with lastNowMs := now }.expireSession role index now) := by
  rw [expireSession]
  cases hsession : (entry.slots role index).session with
  | none => exact .tick rfl hnow rfl rfl
  | some => exact .setSlot_of_session hnow hsession (.finish hsession (fun _ => le_rfl) ⟨rfl, rfl⟩)

theorem ensures_touch (hadvance : role = .receiver → ∀ high, high ≤ advance high) :
    Ensures (touch role advance index sessionId now) entry fun r entry' =>
      Moves (lapsed expiryResult) entry entry' ∧
      (¬entry.Names role index sessionId → entry'.slots = entry.slots) ∧
      (r = .ok () → ∃ session expiresAtMs, (entry'.slots role index).session =
        some ⟨sessionId, expiresAtMs, advance session⟩) := by
  refine ensures_liveSession.bind (fun e entry' h => ⟨h.1 _, fun _ => h.2.1, nofun⟩) ?_
  rintro session entry' ⟨hstep, hslots, hlive⟩
  obtain ⟨hsession, hid, hnow, rfl⟩ := hlive session rfl
  have hnames : entry.Names role index sessionId := ⟨session, hsession, hid⟩
  split
  · simp only [ensures_bind, ensures_modify, ensures_throw]
    exact ⟨expireSession_step hnow, fun h => absurd hnames h, nofun⟩
  · refine .ofExcept_bind (fun e _ => ⟨hstep _, fun _ => hslots, nofun⟩) fun expiresAtMs _ => ?_
    rw [ensures_modify]
    refine ⟨.setSlot_of_session hnow hsession ?_, fun h => absurd hnames h, fun _ => ?_⟩
    · exact .touch hsession fun hrole => hadvance hrole session.highCounter
    · rw [setSlot_slots_self]
      exact ⟨session.highCounter, expiresAtMs, hid ▸ rfl⟩

theorem ensures_expireReceiver : Ensures (expireReceiver index sessionId now) entry fun _ entry' =>
      Moves (lapsed expiryResult) entry entry' ∧
      (¬entry.Names .receiver index sessionId → entry'.slots = entry.slots) := by
  refine ensures_liveSession.bind (fun e entry' h => ⟨h.1 _, fun _ => h.2.1⟩) ?_
  rintro session entry' ⟨hstep, -, hlive⟩
  obtain ⟨hsession, hid, hnow, rfl⟩ := hlive session rfl
  simp only [ensures_bind, ensures_check, ensures_modify]
  refine ⟨fun _ => ⟨hstep _, fun _ => trivial⟩, fun _ => ?_⟩
  exact ⟨expireSession_step hnow, fun h => absurd ⟨session, hsession, hid⟩ h⟩

theorem abandon_step : Moves anyEnding entry (entry.abandon role result index sessionId high) := by
  rw [abandon]
  cases hsession : (entry.slots role index).session with
  | none => exact .refl _
  | some =>
    dsimp only
    split
    · exact .refl _
    · exact .setSlot_of_session le_rfl hsession
        (.finish hsession (fun _ => Nat.le_max_left _ _) trivial)

theorem abandon_of_not_names (h : ¬entry.Names role index sessionId) :
    entry.abandon role result index sessionId high = entry := by
  rw [abandon]
  cases hsession : (entry.slots role index).session with
  | none => rfl
  | some session => exact if_pos fun hid => h ⟨session, hsession, hid⟩

theorem abandon_of_names (h : entry.Names role index sessionId) :
    ∃ session untilMs, (entry.abandon role result index sessionId high).slots role index =
      ⟨none, some ⟨untilMs, max session high, result⟩⟩ := by
  obtain ⟨session, hsession, hid⟩ := h
  rw [abandon, hsession]
  simp only [hid, ne_eq, not_true_eq_false, if_false]
  exact ⟨_, _, setSlot_slots_self _ _ _ _⟩

end

theorem ensures_replayReceiverTerminal :
    Ensures (replayReceiverTerminal index ruleId counter now payload) entry fun r entry' =>
      Moves anyEnding entry entry' ∧ ∀ reply tombstone, r = .ok reply →
        (entry.slots .receiver index).tombstone = some tombstone → now < tombstone.untilMs →
        entry'.slots .receiver index = ⟨(entry.slots .receiver index).session,
          some { tombstone with highCounter := counter }⟩ := by
  simp only [replayReceiverTerminal, ensures_bind, ensures_observePolicyNow, ensures_get]
  refine ⟨fun _ => ⟨.refl _, fun _ _ h => nomatch h⟩, fun hnow => ?_⟩
  have hnow := Nat.not_lt.mp hnow
  have htick : Moves anyEnding entry { entry with lastNowMs := now } := .tick rfl hnow rfl rfl
  cases hslot : entry.slots .receiver index with
  | mk session tombstone =>
    cases tombstone with
    | none =>
      rw [ensures_pure]
      exact ⟨htick, fun _ _ _ h => nomatch h⟩
    | some tombstone =>
      simp only [ensures_bind, ensures_check]
      refine ⟨fun _ => ⟨htick, fun _ _ h => nomatch h⟩, fun hcounter => ?_⟩
      split
      · rename_i hopener
        rw [ensures_pure]
        refine ⟨htick, ?_⟩
        rintro _ _ _ ⟨⟩ hholdDown
        exact absurd hopener.1 (Nat.not_le.mpr hholdDown)
      · simp only [ensures_bind, ensures_set, ensures_pure]
        refine ⟨.ofSlot .receiver index rfl hnow le_rfl (fun r i h => setSlot_slots_other _ _ h)
          ?_ fun h => ?_, ?_⟩
        · rw [setSlot_slots_self, hslot]
          exact .late (Nat.le_of_not_le hcounter)
        · rw [Grants, setSlot_slots_self, hslot] at h
          exact absurd h.1 h.2
        · rintro _ _ _ ⟨⟩ _
          rw [setSlot_slots_self]

def expiredSlot (role : Role) (index : RuleIndex) (now : Nat) (slot : Slot) : Slot :=
  match slot.session.filter (now ≥ ·.expiresAtMs) with
  | some session => ⟨none, some ⟨saturatingAdd now fragmentTombstoneMillis, session.highCounter,
      expiryResult role index⟩⟩
  | none => slot

theorem expireIfDue_eq : (expireIfDue now expired (role, index)).2 =
      expired.2.setSlot role index (expiredSlot role index now (expired.2.slots role index)) := by
  have hsame : expired.2.setSlot role index (expired.2.slots role index) = expired.2 := by
    rw [setSlot]
    congr 1
    funext r i
    split
    · rename_i h
      rw [h.1, h.2]
    · rfl
  rw [expireIfDue, expiredSlot]
  cases hsession : (expired.2.slots role index).session with
  | none => exact hsame.symm
  | some =>
    rw [Option.any_some, Option.filter_some]
    split
    · rw [expireSession, hsession]
    · exact hsame.symm

theorem expireSessionsAt_eq :
    (entry.expireSessionsAt now).2 = { entry with
      slots := fun role index =>
        expiredSlot role index now ((entry.retireTombstones now).slots role index) } := by
  simp only [expireSessionsAt, visits, List.foldl_cons, List.foldl_nil, expireIfDue_eq]
  simp only [setSlot, retireTombstones]
  congr 1
  funext role index
  cases role <;> cases index <;> rfl

def Due (entry : FragmentationPolicyEntry) (now : Nat) (role : Role) (index : RuleIndex) : Prop :=
  (entry.slots role index).tombstone.any (now ≥ ·.untilMs)

theorem retireTombstones_session :
    ((entry.retireTombstones now).slots role index).session = (entry.slots role index).session := by
  simp only [retireTombstones]
  split <;> rfl

theorem retireTombstones_step {id : Nat} :
    SlotStep (entry.Due now role index) (lapsed expiryResult role index) now id role
      (entry.slots role index)
      ((entry.retireTombstones now).slots role index) := by
  simp only [retireTombstones, Due]
  cases entry.slots role index with
  | mk session tombstone =>
    split
    · rename_i hdue
      cases tombstone with
      | none => cases hdue
      | some tombstone => exact .retire hdue (of_decide_eq_true hdue)
    · exact .same

theorem expiredSlot_step {id : Nat} :
    SlotStep (entry.Due now role index) (lapsed expiryResult role index) now id role
      (entry.slots role index)
      (expiredSlot role index now ((entry.retireTombstones now).slots role index)) := by
  rw [expiredSlot, retireTombstones_session]
  cases hdue : (entry.slots role index).session.filter (now ≥ ·.expiresAtMs) with
  | none => exact retireTombstones_step
  | some => exact .finish (Option.filter_eq_some_iff.mp hdue).1 (fun _ => le_rfl) ⟨rfl, rfl⟩

theorem expireSessionsAt_step (hnow : entry.lastNowMs ≤ now) :
    Step (entry.Due now) (lapsed expiryResult) entry
      ({ entry with lastNowMs := now }.expireSessionsAt now).2 := by
  rw [expireSessionsAt_eq]
  have hgrants : ∀ role index, (entry.slots role index).session = none →
      (expiredSlot role index now ((entry.retireTombstones now).slots role index)).session =
        none := by
    intro role index h
    rw [expiredSlot, retireTombstones_session, h]
    exact retireTombstones_session.trans h
  exact ⟨rfl, hnow, le_rfl, fun _ _ => expiredSlot_step,
    fun r i h => absurd (hgrants r i h.1) h.2, fun r i _ _ h => absurd (hgrants r i h.1) h.2⟩

end FragmentationPolicyEntry

end Lichen.Schc
