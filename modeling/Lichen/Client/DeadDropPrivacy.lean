import Lichen.Client.DeadDrop
import Lichen.Lib.Run

namespace Lichen.Client

open Lichen.Lib

/-- Who may read a drop: the creating context, and the designated recipient of a group drop. -/
def StoredDrop.AllowedTo (drop : StoredDrop F) (viewer : Option String) : Prop :=
  match drop.privacy with
  | .public => True
  | .private => viewer = some drop.context
  | .group => viewer = some drop.context ∨
      ∃ recipient, drop.recipient = some recipient ∧ viewer = some recipient

theorem StoredDrop.visibleTo_iff (drop : StoredDrop F) (viewer : Option String) :
    drop.visibleTo viewer = true ↔ drop.AllowedTo viewer ∨
      viewer = none ∧ drop.privacy = .group ∧ drop.recipient = none := by
  rw [visibleTo, AllowedTo]
  cases drop.privacy with
  | «public» => simp [dropVisible]
  | «private» => simp [dropVisible]
  | group =>
    cases viewer with
    | none | some => cases drop.recipient <;> simp [dropVisible]

def PostOutcome.dropId : PostOutcome F → Option String
  | .created dropId _ _ => some dropId
  | _ => none

namespace DeadDropStore

variable {F : Type}

def Keeps (store store' : DeadDropStore F) : Prop := store'.drops ⊆ store.drops

instance : Std.Refl (Keeps (F := F)) := ⟨fun _ => List.Subset.refl _⟩

instance : IsTrans _ (Keeps (F := F)) := ⟨fun _ _ _ h h' => List.Subset.trans h' h⟩

theorem moves_now : Moves Keeps (now : EStateM ε (DeadDropStore F) F) := by
  intro store
  rw [now, ensures_bind, ensures_get]
  dsimp only
  rw [ensures_bind, ensures_set]
  exact ensures_pure.mpr (List.Subset.refl _)

theorem moves_fillRandom : Moves Keeps (fillRandom : EStateM ε (DeadDropStore F) _) := by
  intro store
  rw [fillRandom, ensures_bind, ensures_get]
  dsimp only
  rw [ensures_bind, ensures_set]
  exact ensures_pure.mpr (List.Subset.refl _)

theorem evictOldest_subset (storageLimit needed : Nat) (drops : List (StoredDrop F))
    (currentStorage : Nat) : (evictOldest storageLimit needed drops currentStorage).1 ⊆ drops := by
  induction drops generalizing currentStorage with
  | nil => exact List.Subset.refl _
  | cons oldest drops ih =>
    rw [evictOldest]
    split_ifs
    · exact List.Subset.trans (ih _) (List.subset_cons_self _ _)
    · exact List.Subset.refl _

def Fresh (id : String) (store : DeadDropStore F) : Prop := ∀ drop ∈ store.drops, drop.id ≠ id

theorem Fresh.of_keeps (h : Fresh dropId store) (hkeeps : Keeps store store') :
    Fresh dropId store' :=
  fun drop hdrop => h drop (hkeeps hdrop)

theorem fresh_of_findIndex (h : (findIndex store dropId).isNone = true) : Fresh dropId store := by
  intro drop hdrop hid
  rw [findIndex, Option.isNone_iff_eq_none, List.findIdx?_eq_none_iff] at h
  exact absurd (beq_iff_eq.mpr hid) (ne_true_of_eq_false (h drop hdrop))

theorem ensures_generateDropId (attempts : Nat) (store : DeadDropStore F) :
    Ensures (generateDropId attempts : EStateM ε _ _) store fun r store' => Keeps store store' ∧
      ∀ id, r = .ok (some id) → Fresh id store' := by
  induction attempts generalizing store with
  | zero => exact ensures_pure.mpr ⟨refl store, nofun⟩
  | succ attempts ih =>
    refine (moves_fillRandom store).bind (fun _ _ h => ⟨h, nofun⟩) fun drawn store₁ h => ?_
    cases drawn with
    | none => exact ensures_pure.mpr ⟨h, nofun⟩
    | some =>
      rw [ensures_bind, ensures_get]
      dsimp only
      split_ifs with hfree
      · refine ensures_pure.mpr ⟨h, ?_⟩
        rintro _ ⟨⟩
        exact fresh_of_findIndex hfree
      · exact (ih store₁).imp fun _ _ h' => ⟨IsTrans.trans _ _ _ h h'.1, h'.2⟩

theorem ensures_chooseDropId (dropId : Option String) (store : DeadDropStore F) :
    Ensures (chooseDropId dropId) store fun r store' => Keeps store store' ∧
      ∀ id, r = .ok id → Fresh id store' := by
  cases dropId with
  | none =>
    refine (ensures_generateDropId _ store).bind (fun _ _ h => ⟨h.1, nofun⟩) fun generated _ h => ?_
    cases generated with
    | none => exact ensures_throw.mpr ⟨h.1, nofun⟩
    | some =>
      refine ensures_pure.mpr ⟨h.1, ?_⟩
      rintro _ ⟨⟩
      exact h.2 _ rfl
  | some =>
    rw [chooseDropId, ensures_bind, ensures_get]
    refine .check_bind ⟨refl store, nofun⟩ fun hfree => ensures_pure.mpr ⟨refl store, ?_⟩
    rintro _ ⟨⟩
    refine fresh_of_findIndex ?_
    rw [Option.isNone_iff_eq_none, ← Option.not_isSome_iff_eq_none]
    exact (not_or.mp hfree).2

/-- A drop under the id that is returned was made by the call, every other was there before. -/
def Stores (made : StoredDrop F → Prop) (store : DeadDropStore F) (returned : Option String)
    (store' : DeadDropStore F) : Prop :=
  ∀ drop ∈ store'.drops, returned = some drop.id ∧ made drop ∨
    returned ≠ some drop.id ∧ drop ∈ store.drops

section

variable {made : StoredDrop F → Prop} {ret : α → Option String} {p : EStateM ε (DeadDropStore F) β}
  {k : β → EStateM ε (DeadDropStore F) α} {Q : Except ε β → DeadDropStore F → Prop}

theorem Stores.of_keeps (h : Keeps store store') : Stores made store none store' :=
  fun _ hdrop => .inr ⟨nofun, h hdrop⟩

theorem Stores.trans (hkeeps : Keeps store store₁) (h : Stores made store₁ returned store') :
    Stores made store returned store' :=
  fun drop hdrop => (h drop hdrop).imp_right (And.imp_right (@hkeeps _))

abbrev Posts (made : StoredDrop F → Prop) (ret : α → Option String)
    (p : EStateM ε (DeadDropStore F) α) (store : DeadDropStore F) : Prop :=
  Ensures p store fun r store' => Stores made store (r.toOption.bind ret) store'

theorem posts_throw : Posts made ret (throw e : EStateM ε (DeadDropStore F) α) store :=
  ensures_throw.mpr (.of_keeps (refl store))

theorem Posts.ensures_bind (hp : Ensures p store fun r store' => Keeps store store' ∧ Q r store')
    (hk : ∀ a store', Keeps store store' → Q (.ok a) store' → Posts made ret (k a) store') :
    Posts made ret (p >>= k) store := by
  refine hp.bind (fun _ _ h => .of_keeps h.1) fun a store' h => ?_
  exact (hk a store' h.1 h.2).imp fun _ _ => .trans h.1

theorem Posts.bind (hp : Moves Keeps p)
    (hk : ∀ a store', Keeps store store' → Posts made ret (k a) store') :
    Posts made ret (p >>= k) store :=
  .ensures_bind ((hp store).imp fun _ _ h => ⟨h, trivial⟩) fun a store' h _ => hk a store' h

theorem Posts.ofExcept_bind (hk : ∀ a, r = .ok a → Posts made ret (k a) store) :
    Posts made ret (ofExcept r >>= k) store :=
  Ensures.ofExcept_bind (fun _ _ => .of_keeps (refl store)) hk

theorem stores_push (hdrops : store'.drops = store.drops ++ [drop])
    (hreturned : returned = some drop.id) (hmade : made drop) (hfresh : Fresh drop.id store) :
    Stores made store returned store' := by
  intro stored hstored
  rw [hreturned]
  rw [hdrops, List.mem_append, List.mem_singleton] at hstored
  obtain hold | rfl := hstored
  · exact .inr ⟨fun h => hfresh stored hold (Option.some.inj h).symm, hold⟩
  · exact .inl ⟨rfl, hmade⟩

end

variable [F64 F]

theorem drops_pruned_subset (store : DeadDropStore F) (now : F) :
    (store.pruned now).drops ⊆ store.drops := by
  rw [pruned]
  split_ifs <;> exact List.filter_subset_self _

theorem moves_pruneExpired : Moves Keeps (pruneExpired : EStateM ε (DeadDropStore F) Unit) :=
  .bind moves_now fun now => moves_modify fun store => drops_pruned_subset store now

theorem moves_evictForSpace (needed : Nat) :
    Moves Keeps (evictForSpace needed : EStateM ε (DeadDropStore F) Bool) := by
  refine .bind moves_get fun store => ?_
  split_ifs
  · exact moves_pure
  · refine .bind moves_pruneExpired fun _ => fun store => ?_
    rw [ensures_bind, ensures_get]
    dsimp only
    rw [ensures_bind, ensures_set]
    exact ensures_pure.mpr (evictOldest_subset _ _ _ _)

theorem moves_reapStaleBuckets :
    Moves Keeps (reapStaleBuckets : EStateM ε (DeadDropStore F) Unit) :=
  .bind moves_now fun _ => moves_modify fun _ => List.Subset.refl _

theorem moves_checkRateLimit (contextId : String) :
    Moves Keeps (checkRateLimit contextId : EStateM ε (DeadDropStore F) _) := by
  refine .bind moves_reapStaleBuckets fun _ => .bind moves_now fun _ => ?_
  refine .bind moves_get fun store => ?_
  cases store.requestTimes.get contextId with
  | none => exact moves_pure
  | some =>
    dsimp only
    split_ifs <;> exact moves_pure

theorem ensures_recordRequest (contextId : String) (store : DeadDropStore F) :
    Ensures (recordRequest contextId : EStateM ε _ _) store fun r store' =>
      r = .ok () ∧ store'.drops = store.drops := by
  simp only [recordRequest, reapStaleBuckets, now, ensures_bind, ensures_get, ensures_set,
    ensures_modify, ensures_pure, and_self]

theorem moves_effectiveTtl (payload : List (SenmlRecord F)) (ttl : Option Nat) :
    Moves Keeps (effectiveTtl payload ttl : EStateM ε (DeadDropStore F) Nat) := by
  cases ttl with
  | none => exact fun store => ensures_map.mpr (moves_now store)
  | some => exact moves_pure

section

variable (contextId : Option String)

theorem moves_listDrops (filter : DropFilter F) :
    Moves Keeps (listDrops contextId filter : EStateM ε (DeadDropStore F) _) :=
  .bind moves_pruneExpired fun _ => .bind moves_now fun _ => .bind moves_get fun _ => moves_pure

theorem moves_renderGet (filter : DropFilter F) (observe : Bool) :
    Moves Keeps (renderGet contextId filter observe) :=
  .bind (moves_listDrops _ _) fun _ => .ofExcept_bind fun _ _ =>
    .bind moves_get fun _ => moves_pure

end

theorem moves_getById (dropId : String) (contextId : Option String) :
    Moves Keeps (getById dropId contextId : EStateM _ (DeadDropStore F) _) := by
  refine .bind moves_check fun _ => .bind moves_pruneExpired fun _ => .bind moves_get fun store => ?_
  cases store.drops.find? fun drop => drop.id == dropId with
  | none => exact moves_throw
  | some =>
    exact .bind moves_now fun _ => .bind moves_check fun _ => .ofExcept_bind fun _ _ => moves_pure

inductive Call (F : Type) where
  | post (request : PostRequest)
  | addDrop (payload : List (SenmlRecord F)) (contextId : String) (params : AddDropParams)
  | listDrops (contextId : Option String) (filter : DropFilter F)
  | renderGet (contextId : Option String) (filter : DropFilter F) (observe : Bool)
  | getById (dropId : String) (contextId : Option String)

section

variable (ciborium : Ciborium F)

def step (store : DeadDropStore F) : Call F → DeadDropStore F
  | .post request => (execute (post ciborium request) store).2
  | .addDrop payload contextId params => (execute (addDrop payload contextId params) store).2
  | .listDrops contextId filter =>
    (execute (listDrops contextId filter : EStateM Empty _ _) store).2
  | .renderGet contextId filter observe => (execute (renderGet contextId filter observe) store).2
  | .getById dropId contextId => (execute (getById dropId contextId) store).2

/-- The drop has the context, the records, the policy and the recipient that the call gives it. -/
def Call.Makes (drop : StoredDrop F) : Call F → Prop
  | .post request =>
    request.identity = some drop.context ∧
      decodeSenmlPack ciborium request.body = .ok drop.records ∧
      (∃ privacy, privacyFromRecords drop.records = .ok privacy ∧
        drop.privacy = privacy.getD .public) ∧
      drop.recipient = (senmlText drop.records "recipient" <|> senmlText drop.records "node")
  | .addDrop payload contextId params =>
    contextId = drop.context ∧ payload = drop.records ∧
      (∃ privacy, privacyFromRecords drop.records = .ok privacy ∧
        drop.privacy = privacy.getD params.privacy) ∧
      drop.recipient = (params.recipient <|> senmlText drop.records "recipient" <|>
        senmlText drop.records "node")
  | _ => False

def returned (store : DeadDropStore F) : Call F → Option String
  | .post request => (execute (post ciborium request) store).1.toOption.bind PostOutcome.dropId
  | .addDrop payload contextId params =>
    (execute (addDrop payload contextId params) store).1.toOption
  | _ => none

theorem posts_addDrop (payload : List (SenmlRecord F)) (contextId : String)
    (params : AddDropParams) (store : DeadDropStore F) :
    Posts (fun drop => (Call.addDrop payload contextId params).Makes ciborium drop) some
      (addDrop payload contextId params) store := by
  refine .ofExcept_bind fun encoded _ => .bind moves_check fun _ _ _ => ?_
  refine .bind (moves_effectiveTtl _ _) fun ttl _ _ => .ofExcept_bind fun privacy hprivacy => ?_
  refine .ensures_bind (ensures_chooseDropId _ _) fun dropId _ _ hfresh => ?_
  refine .bind (moves_evictForSpace _) fun fits _ hevict => .bind moves_check fun _ _ hcheck => ?_
  refine .bind moves_now fun now _ hnow => ?_
  rw [Posts, ensures_bind, pushDrop, ensures_modify]
  refine ensures_pure.mpr (stores_push rfl rfl ?_ ?_)
  · exact ⟨rfl, rfl, ⟨privacy, hprivacy, rfl⟩, rfl⟩
  · exact (((hfresh dropId rfl).of_keeps hevict).of_keeps hcheck).of_keeps hnow

theorem posts_post (request : PostRequest) (store : DeadDropStore F) :
    Posts (fun drop => (Call.post request).Makes ciborium drop) PostOutcome.dropId
      (post ciborium request) store := by
  rw [post]
  cases hidentity : request.identity with
  | none => exact posts_throw
  | some =>
    refine .bind moves_check fun _ _ _ => .bind moves_check fun _ _ _ => ?_
    refine .ofExcept_bind fun records hrecords => .bind moves_check fun _ _ _ => ?_
    refine .bind (moves_checkRateLimit _) fun limit _ _ => .bind moves_check fun _ _ _ => ?_
    refine .bind moves_now fun now _ _ => .ofExcept_bind fun privacy hprivacy => ?_
    refine .ensures_bind (ensures_generateDropId _ _) fun generated _ _ hfresh => ?_
    cases generated with
    | none => exact .bind moves_get fun _ _ _ => posts_throw
    | some dropId =>
      refine .bind (moves_evictForSpace _) fun fits _ hevict => .bind moves_get fun _ _ hget => ?_
      refine .bind moves_check fun _ store₁ hcheck => ?_
      have hfresh := (((hfresh dropId rfl).of_keeps hevict).of_keeps hget).of_keeps hcheck
      rw [Posts, ensures_bind, pushDrop, ensures_modify]
      refine (ensures_recordRequest _ _).bind (fun _ _ h => nomatch h.1) fun _ store₂ h => ?_
      refine ensures_pure.mpr (stores_push h.2 rfl ?_ hfresh)
      exact ⟨hidentity, mapError_eq_ok.mp hrecords, ⟨privacy, mapError_eq_ok.mp hprivacy, rfl⟩, rfl⟩

theorem stores_step (store : DeadDropStore F) (call : Call F) :
    Stores (fun drop => call.Makes ciborium drop) store (returned ciborium store call)
      (step ciborium store call) := by
  cases call with
  | post request => exact ensures_iff_execute.mp (posts_post ciborium request store)
  | addDrop payload contextId params =>
    have h := ensures_iff_execute.mp (posts_addDrop ciborium payload contextId params store)
    rwa [Option.bind_fun_some] at h
  | listDrops contextId filter => exact .of_keeps ((moves_listDrops contextId filter).run store)
  | renderGet contextId filter observe =>
    exact .of_keeps ((moves_renderGet contextId filter observe).run store)
  | getById dropId contextId => exact .of_keeps ((moves_getById dropId contextId).run store)

end

theorem exists_makes_of_mem (hstore : store.drops = []) (calls : List (Call F)) :
    ∀ drop ∈ (run (step ciborium) store calls).drops, ∃ call ∈ calls, call.Makes ciborium drop := by
  refine run_invariant_history (I := fun calls (store : DeadDropStore F) => ∀ drop ∈ store.drops,
    ∃ call ∈ calls, Call.Makes ciborium drop call) (fun calls store call h drop hdrop => ?_) ?_ calls
  · obtain ⟨-, hmade⟩ | ⟨-, hold⟩ := stores_step ciborium store call drop hdrop
    · exact ⟨call, List.mem_append_right _ (List.mem_singleton_self _), hmade⟩
    · obtain ⟨earlier, hmem, hmakes⟩ := h drop hold
      exact ⟨earlier, List.mem_append_left _ hmem, hmakes⟩
  · rw [hstore]
    nofun

section

variable (store : DeadDropStore F)

theorem ensures_listDrops (viewer : Option String) (filter : DropFilter F) :
    Ensures (listDrops viewer filter : EStateM ε _ _) store fun result _ =>
      ∀ views, result = .ok views → ∃ now, ∃ shown : List (StoredDrop F),
        (∀ drop ∈ shown, drop ∈ store.drops ∧ drop.visibleTo viewer = true) ∧
        views = shown.map (·.view now) := by
  refine (moves_pruneExpired store).bind (fun _ _ _ => nofun) fun _ store₁ hpruned => ?_
  refine (moves_now store₁).bind (fun _ _ _ => nofun) fun now store₂ hread => ?_
  rw [ensures_bind, ensures_get]
  refine ensures_pure.mpr ?_
  rintro _ ⟨⟩
  refine ⟨now, _, fun drop hdrop => ?_, rfl⟩
  obtain ⟨hmem, hshown⟩ := List.mem_filter.mp hdrop
  rw [Bool.and_eq_true] at hshown
  exact ⟨hpruned (hread hmem), hshown.1⟩

theorem ensures_renderGet (viewer : Option String) (filter : DropFilter F) (observe : Bool) :
    Ensures (renderGet viewer filter observe) store fun result _ =>
      ∀ response, result = .ok response → ∃ now, ∃ shown : List (StoredDrop F),
        (∀ drop ∈ shown, drop ∈ store.drops ∧ drop.visibleTo viewer = true) ∧
        encodeSenmlPack ((shown.map (·.view now)).flatMap wrapped) = .ok response.payload := by
  refine (ensures_listDrops store viewer filter).bind (fun _ _ _ => nofun) ?_
  intro views store₁ hviews
  obtain ⟨now, shown, hshown, rfl⟩ := hviews views rfl
  refine .ofExcept_bind (fun _ _ => nofun) fun payload hpayload => ?_
  rw [ensures_bind, ensures_get]
  refine ensures_pure.mpr ?_
  rintro _ ⟨⟩
  exact ⟨now, shown, hshown, hpayload⟩

theorem ensures_getById (dropId : String) (viewer : Option String) :
    Ensures (getById dropId viewer) store fun result _ =>
      ∀ payload contentFormat maxAge, result = .ok (.content payload contentFormat maxAge) →
        ∃ drop ∈ store.drops, drop.id = dropId ∧ drop.visibleTo viewer = true ∧
          encodeSenmlPack drop.records = .ok payload := by
  refine .check_bind nofun fun _ => ?_
  refine (moves_pruneExpired store).bind (fun _ _ _ => nofun) fun _ store₁ hpruned => ?_
  rw [ensures_bind, ensures_get]
  dsimp only
  cases hfind : store₁.drops.find? fun drop => drop.id == dropId with
  | none => exact ensures_throw.mpr nofun
  | some drop =>
    have hid : drop.id = dropId := by simpa using List.find?_some hfind
    have hmem := hpruned (List.mem_of_find?_eq_some hfind)
    refine (moves_now store₁).bind (fun _ _ _ => nofun) fun now store₂ _ => ?_
    refine .check_bind nofun fun hvisible => .ofExcept_bind (fun _ _ => nofun) ?_
    intro payload hpayload
    refine ensures_pure.mpr ?_
    rintro _ _ _ ⟨⟩
    rw [Bool.not_eq_false] at hvisible
    exact ⟨drop, hmem, hid, hvisible, mapError_eq_ok.mp hpayload⟩

end

/-- The drop was stored in the run, and may be read unless it is a group drop without a recipient
that is read without an identity. -/
def Discloses (ciborium : Ciborium F) (calls : List (Call F)) (viewer : Option String)
    (store : DeadDropStore F) (drop : StoredDrop F) : Prop :=
  drop ∈ store.drops ∧ (∃ call ∈ calls, call.Makes ciborium drop) ∧
    (drop.AllowedTo viewer ↔
      ¬(viewer = none ∧ drop.privacy = .group ∧ drop.recipient = none))

theorem allowedTo_of_read (ciborium : Ciborium F) (store : DeadDropStore F) (storageLimit : Nat)
    (clock : Nat → F) (random : Nat → Option (List.Vector UInt8 3))
    (hstore : withClock storageLimit clock random = .ok store) (calls : List (Call F))
    (viewer : Option String) :
    let reached := run (step ciborium) store calls
    (∀ filter views, (execute (listDrops viewer filter : EStateM Empty _ _) reached).1 = .ok views →
      ∃ now, ∃ shown : List (StoredDrop F),
        (∀ drop ∈ shown, Discloses ciborium calls viewer reached drop) ∧
        views = shown.map (·.view now)) ∧
    (∀ filter observe response,
      (execute (renderGet viewer filter observe) reached).1 = .ok response →
      ∃ now, ∃ shown : List (StoredDrop F),
        (∀ drop ∈ shown, Discloses ciborium calls viewer reached drop) ∧
        encodeSenmlPack ((shown.map (·.view now)).flatMap wrapped) = .ok response.payload) ∧
    ∀ dropId payload contentFormat maxAge,
      (execute (getById dropId viewer) reached).1 = .ok (.content payload contentFormat maxAge) →
      ∃ drop, Discloses ciborium calls viewer reached drop ∧ drop.id = dropId ∧
        encodeSenmlPack drop.records = .ok payload := by
  intro reached
  have hempty : store.drops = [] := by
    rw [withClock] at hstore
    split_ifs at hstore
    cases hstore
    rfl
  have hshows : ∀ drop, drop ∈ reached.drops ∧ drop.visibleTo viewer = true →
      Discloses ciborium calls viewer reached drop := by
    rintro drop ⟨hmem, hvisible⟩
    refine ⟨hmem, exists_makes_of_mem hempty calls drop hmem, ?_⟩
    refine ⟨?_, ((drop.visibleTo_iff viewer).mp hvisible).resolve_right⟩
    rintro hallowed ⟨rfl, hgroup, hrecipient⟩
    simp [StoredDrop.AllowedTo, hgroup] at hallowed
  refine ⟨fun filter views hviews => ?_, fun filter observe response hresponse => ?_,
    fun dropId payload contentFormat maxAge hcontent => ?_⟩
  · obtain ⟨now, shown, hshown, rfl⟩ :=
      ensures_iff_execute.mp (ensures_listDrops reached viewer filter) views hviews
    exact ⟨now, shown, fun drop hdrop => hshows drop (hshown drop hdrop), rfl⟩
  · obtain ⟨now, shown, hshown, hpayload⟩ := ensures_iff_execute.mp
      (ensures_renderGet reached viewer filter observe) response hresponse
    exact ⟨now, shown, fun drop hdrop => hshows drop (hshown drop hdrop), hpayload⟩
  · obtain ⟨drop, hmem, hid, hvisible, hpayload⟩ := ensures_iff_execute.mp
      (ensures_getById reached dropId viewer) payload contentFormat maxAge hcontent
    exact ⟨drop, hshows drop ⟨hmem, hvisible⟩, hid, hpayload⟩

/-- Whole numbers, with a bound in the place of infinity. -/
instance : F64 Int where
  ofInt x := x
  isFinite _ := true
  fract _ := 0
  eq x y := x == y
  lt x y := decide (x < y)
  le x y := decide (x ≤ y)
  sub x y := x - y
  div x y := x / y
  max x y := max x y
  min x y := min x y
  ceil x := x
  infinity := 2 ^ 63 - 1
  toI64 x := x
  toU64 := Int.toNat
  toBeBytes x := toArray 8 (beBytes 8 x.toNat)

def sampleStore : DeadDropStore Int :=
  ⟨8192, fun _ => 1000, fun _ => none, [], .new, 0, 0, 0, 0⟩

def noCiborium : Ciborium Int := ⟨fun _ => .error "", fun _ => [], fun _ => ""⟩

def sampleDrop (privacy : Privacy) (recipient : Option String) : Call Int :=
  .addDrop [.text "message" "hi"] "alice" ⟨some 60, some "7f3a9c", privacy, recipient⟩

theorem allowedTo_of_read_of_recipient :
    (execute (getById "7f3a9c" (some "bob"))
        (run (step noCiborium) sampleStore [sampleDrop .group (some "bob")])).1 =
      .ok (.content ([0x81, 0xA2, 0x00, 0x67] ++ "message".toUTF8.toList ++ [0x03, 0x62] ++
        "hi".toUTF8.toList) 112 (some 60)) ∧
    ∃ drop, Discloses noCiborium [sampleDrop .group (some "bob")] (some "bob")
      (run (step noCiborium) sampleStore [sampleDrop .group (some "bob")]) drop := by
  have hread : (execute (getById "7f3a9c" (some "bob"))
        (run (step noCiborium) sampleStore [sampleDrop .group (some "bob")])).1 =
      .ok (.content ([0x81, 0xA2, 0x00, 0x67] ++ "message".toUTF8.toList ++ [0x03, 0x62] ++
        "hi".toUTF8.toList) 112 (some 60)) := by decide +kernel
  obtain ⟨drop, hdrop, -⟩ := (allowedTo_of_read noCiborium sampleStore 8192 (fun _ => 1000)
    (fun _ => none) rfl [sampleDrop .group (some "bob")] (some "bob")).2.2 _ _ _ _ hread
  exact ⟨hread, drop, hdrop⟩

/-- Without a recipient anyone without an identity reads the group drop. -/
theorem getById_of_absent_recipient :
    (execute (getById "7f3a9c" none)
        (run (step noCiborium) sampleStore [sampleDrop .group none])).1 =
      .ok (.content ([0x81, 0xA2, 0x00, 0x67] ++ "message".toUTF8.toList ++ [0x03, 0x62] ++
        "hi".toUTF8.toList) 112 (some 60)) ∧
    ∀ drop ∈ (run (step noCiborium) sampleStore [sampleDrop .group none]).drops,
      drop.privacy = .group := by
  constructor
  · decide +kernel
  · decide +kernel

end DeadDropStore

end Lichen.Client
