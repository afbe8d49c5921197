import Lichen.Rpl.Paths

namespace Lichen.Rpl

open Lichen.Lib Lichen.Core List

/-- A name stands for an address: it is the address, or its canonical link-local alias. -/
def Alias (name address : Ipv6Addr) : Prop :=
  name = address ∨ (isCanonicalLinkLocal name = true ∧ interfaceId name = interfaceId address)

def ParentEdge (parentMap : ParentMap) (target parent : Ipv6Addr) : Prop :=
  ∃ parents, parentMap.get target = some parents ∧ parent ∈ parents

def Hop (edge : Ipv6Addr → Ipv6Addr → Prop) (near far : Ipv6Addr) : Prop :=
  ∃ parent, edge far parent ∧ Alias parent near

structure IsSourceRoute (edge : Ipv6Addr → Ipv6Addr → Prop) (root target : Ipv6Addr)
    (path : List Ipv6Addr) : Prop where
  nodup : (root :: path).Nodup
  length_le : path.length ≤ 8
  last : path.getLast? = some target
  hops : (root :: path).IsChain (Hop edge)

inductive Resolves (parentMap : ParentMap) (name : Ipv6Addr) : Ipv6Addr → Prop
  | target (h : parentMap.containsKey name = true) : Resolves parentMap name name
  | aliased {node : Ipv6Addr} (h : parentMap.containsKey name = false)
      (hlocal : isCanonicalLinkLocal name = true)
      (hnode : parentMap.containsKey node = true) (hid : interfaceId node = interfaceId name)
      (honly : ∀ other, parentMap.containsKey other = true →
        interfaceId other = interfaceId name → other = node) : Resolves parentMap name node

def Ambiguous (parentMap : ParentMap) (name : Ipv6Addr) : Prop :=
  parentMap.containsKey name = false ∧ isCanonicalLinkLocal name = true ∧
    ∃ a b, a ≠ b ∧ parentMap.containsKey a = true ∧ parentMap.containsKey b = true ∧
      interfaceId a = interfaceId name ∧ interfaceId b = interfaceId name

variable {root target name node : Ipv6Addr} {parentMap : ParentMap} {candidateMap : CandidateMap}
  {path result : List Ipv6Addr}

theorem alias_of_namesRoot (h : namesRoot root name = true) : Alias name root := by
  simpa [namesRoot, Alias] using h

section

variable (h : Resolves parentMap name node)

include h

theorem Resolves.alias : Alias name node := by
  cases h with
  | target => exact .inl rfl
  | aliased _ hlocal _ hid => exact .inr ⟨hlocal, hid.symm⟩

theorem Resolves.unique (h' : Resolves parentMap name other) : node = other := by
  cases h with
  | target hkey =>
    cases h' with
    | target => rfl
    | aliased hnot => simp [hkey] at hnot
  | aliased hnot _ hnode hid =>
    cases h' with
    | target hkey => simp [hkey] at hnot
    | aliased _ _ _ _ honly => exact honly node hnode hid

theorem Resolves.not_ambiguous : ¬ Ambiguous parentMap name := by
  rintro ⟨hnot, -, a, b, hne, ha, hb, haid, hbid⟩
  cases h with
  | target hkey => simp [hkey] at hnot
  | aliased _ _ _ _ honly => exact hne ((honly a ha haid).trans (honly b hb hbid).symm)

end

theorem mem_aliases :
    key ∈ (parentMap.keys .inserted).filter (fun key => interfaceId key = interfaceId name) ↔
      parentMap.containsKey key = true ∧ interfaceId key = interfaceId name := by
  rw [mem_filter, HashMap.mem_keys, HashMap.containsKey, Option.isSome_iff_exists,
    decide_eq_true_iff]

def Resolution (parentMap : ParentMap) (name : Ipv6Addr) : Except Unit (Option Ipv6Addr) → Prop
  | .ok (some node) => Resolves parentMap name node
  | .ok none => (∀ node, ¬ Resolves parentMap name node) ∧ ¬ Ambiguous parentMap name
  | .error () => Ambiguous parentMap name

theorem resolution_of_aliases (hkey : parentMap.containsKey name = false)
    (hlocal : isCanonicalLinkLocal name = true) (hmem : ∀ key, key ∈ aliases ↔
      parentMap.containsKey key = true ∧ interfaceId key = interfaceId name)
    (hnodup : aliases.Nodup) : Resolution parentMap name (onlyAlias aliases) := by
  match aliases with
  | [] =>
    refine ⟨fun node h => ?_, ?_⟩
    · cases h with
      | target h => simp [hkey] at h
      | aliased _ _ hnode hid => cases (hmem _).mpr ⟨hnode, hid⟩
    · rintro ⟨-, -, a, -, -, ha, -, haid, -⟩
      cases (hmem a).mpr ⟨ha, haid⟩
  | [aliased] =>
    obtain ⟨hnode, hid⟩ := (hmem aliased).mp (mem_singleton_self _)
    exact .aliased hkey hlocal hnode hid fun other hother hid' =>
      mem_singleton.mp ((hmem other).mpr ⟨hother, hid'⟩)
  | a :: b :: rest =>
    obtain ⟨ha, haid⟩ := (hmem a).mp mem_cons_self
    obtain ⟨hb, hbid⟩ := (hmem b).mp (mem_cons_of_mem _ mem_cons_self)
    have hne : a ≠ b := fun heq => by simp [heq] at hnodup
    exact ⟨hkey, hlocal, a, b, hne, ha, hb, haid, hbid⟩

theorem resolution_resolveNode (parentMap : ParentMap) (name : Ipv6Addr) :
    Resolution parentMap name (resolveNode parentMap name) := by
  rw [resolveNode]
  cases hkey : parentMap.containsKey name with
  | true =>
    rw [if_pos rfl]
    exact .target hkey
  | false =>
    rw [if_neg Bool.false_ne_true]
    cases hlocal : isCanonicalLinkLocal name with
    | false =>
      rw [if_neg Bool.false_ne_true]
      refine ⟨fun node h => ?_, fun h => ?_⟩
      · cases h with
        | target h => simp [hkey] at h
        | aliased _ h => simp [hlocal] at h
      · simp [Ambiguous, hlocal] at h
    | true =>
      rw [if_pos rfl]
      exact resolution_of_aliases hkey hlocal (fun _ => mem_aliases)
        ((parentMap.nodup_keys .inserted).filter _)

theorem resolveNode_of_resolves (h : Resolves parentMap name node) :
    resolveNode parentMap name = .ok (some node) := by
  have hresolution := resolution_resolveNode parentMap name
  generalize resolveNode parentMap name = result at hresolution
  match result with
  | .ok (some other) => rw [h.unique hresolution]
  | .ok none => exact absurd h (hresolution.1 node)
  | .error () => exact absurd hresolution h.not_ambiguous

theorem resolveNode_of_ambiguous (h : Ambiguous parentMap name) :
    resolveNode parentMap name = .error () := by
  have hresolution := resolution_resolveNode parentMap name
  generalize resolveNode parentMap name = result at hresolution
  match result with
  | .ok (some other) => exact absurd h (Resolves.not_ambiguous hresolution)
  | .ok none => exact absurd h hresolution.2
  | .error () => rfl

def Eligible (parentMap : ParentMap) (candidateMap : CandidateMap) (node parent : Ipv6Addr) : Prop :=
  ∃ activeParents candidates, parentMap.get node = some activeParents ∧
    candidateMap.get node = some candidates ∧ parent ∈ activeParents ∧
    ∃ candidate ∈ candidates, candidate.parent = parent ∧
      (pathControlRank candidate.pathControl).isSome

theorem mem_eligible : (rank, parent) ∈ eligible activeParents candidates ↔
      parent ∈ activeParents ∧ ∃ candidate ∈ candidates, candidate.parent = parent ∧
        pathControlRank candidate.pathControl = some rank := by
  simp only [eligible, mem_filterMap]
  constructor
  · rintro ⟨candidate, hmem, heq⟩
    split at heq
    · obtain ⟨_, hrank, heq⟩ := Option.map_eq_some_iff.mp heq
      cases heq
      exact ⟨‹_›, candidate, hmem, rfl, hrank⟩
    · cases heq
  · rintro ⟨hparent, candidate, hmem, rfl, hrank⟩
    exact ⟨candidate, hmem, by rw [if_pos hparent, hrank]; rfl⟩

section

theorem mem_of_selectPath (h : selectPath results = .ok (some path)) :
    ∃ rank, (rank, .ok (some path)) ∈ results := by
  rw [selectPath] at h
  split at h
  · cases h
  · obtain ⟨⟨rank, path'⟩, hmin, rfl⟩ := Option.map_eq_some_iff.mp (Except.ok.inj h)
    obtain ⟨⟨_, result⟩, hmem, hchoice⟩ := mem_filterMap.mp (mem_of_minBy hmin)
    rw [choice] at hchoice
    split at hchoice
    · rename_i heq
      cases hchoice
      obtain rfl : result = .ok (some path') := heq
      exact ⟨_, hmem⟩
    · cases hchoice

theorem selectPath_error : selectPath results = .error () ↔ ∃ rank, (rank, .error ()) ∈ results := by
  have hany : (results.any fun result => !result.2.isOk) = true ↔
      ∃ rank, (rank, .error ()) ∈ results := by
    simp only [any_eq_true, Prod.exists]
    constructor
    · rintro ⟨rank, result, hmem, hok⟩
      match result, hok with
      | .error (), _ => exact ⟨rank, hmem⟩
    · rintro ⟨rank, hmem⟩
      exact ⟨rank, _, hmem, rfl⟩
  rw [← hany, selectPath]
  split
  · exact iff_of_true rfl ‹_›
  · exact iff_of_false (by simp) ‹_›

end

/-- A path that is being followed: it starts in no repeated node, its hops are parent edges, and
the name to follow next is a parent of its last node. -/
structure Follows (root : Ipv6Addr) (parentMap : ParentMap) (name : Ipv6Addr)
    (path : List Ipv6Addr) : Prop where
  nodup : (root :: path).Nodup
  length_le : path.length ≤ 8
  hops : path.IsChain (Hop (ParentEdge parentMap))
  parent : ∀ node ∈ path.head?, ParentEdge parentMap node name

section

variable (h : Follows root parentMap name path)

include h

theorem Follows.chain (hroot : Alias name root) :
    (root :: path).IsChain (Hop (ParentEdge parentMap)) := by
  cases path with
  | nil => exact .singleton root
  | cons node path => exact .cons_cons ⟨name, h.parent node rfl, hroot⟩ h.hops

theorem Follows.hop {parent : Ipv6Addr}
    (hroot : namesRoot root name = false) (hnode : Resolves parentMap name node)
    (hlength : path.length ≠ 8) (hnew : node ∉ path) (hedge : ParentEdge parentMap node parent) :
    Follows root parentMap parent (node :: path) := by
  have hne : root ≠ node := by
    rintro rfl
    have := hnode.alias
    simp [Alias, namesRoot] at this hroot
    grind
  have hle := h.length_le
  refine ⟨?_, by rw [length_cons]; omega, ?_, ?_⟩
  · have := h.nodup
    rw [nodup_cons] at this ⊢
    exact ⟨not_mem_cons_of_ne_of_not_mem hne this.1, nodup_cons.mpr ⟨hnew, this.2⟩⟩
  · cases path with
    | nil => exact .singleton node
    | cons far path => exact .cons_cons ⟨name, h.parent far rfl, hnode.alias⟩ h.hops
  · rintro _ ⟨⟩
    exact hedge

theorem assemblePathFrom_ok
    (hok : assemblePathFrom root parentMap candidateMap fuel name path = .ok (some result)) :
    (result = path ∨ ∃ node, Resolves parentMap name node ∧ (node :: path) <:+ result) ∧
      (root :: result).Nodup ∧ result.length ≤ 8 ∧
      (root :: result).IsChain (Hop (ParentEdge parentMap)) := by
  induction fuel generalizing name path with
  | zero => cases hok
  | succ fuel ih =>
    simp only [assemblePathFrom] at hok
    split at hok
    · rename_i hroot
      cases hok
      exact ⟨.inl rfl, h.nodup, h.length_le, h.chain (alias_of_namesRoot hroot)⟩
    rename_i hroot
    have hresolution := resolution_resolveNode parentMap name
    split at hok
    · cases hok
    · cases hok
    rename_i node hnode
    rw [hnode] at hresolution
    split at hok
    · cases hok
    split at hok
    · cases hok
    rename_i hlength hnew
    split at hok
    · rename_i activeParents candidates hactive _
      obtain ⟨_, hmem⟩ := mem_of_selectPath hok
      obtain ⟨⟨_, _⟩, heligible, heq⟩ := mem_map.mp hmem
      obtain ⟨hparent, -⟩ := mem_eligible.mp heligible
      have hnext := h.hop (Bool.not_eq_true _ ▸ hroot) hresolution hlength hnew
        ⟨activeParents, hactive, hparent⟩
      obtain ⟨rfl | ⟨_, -, hsuffix⟩, hrest⟩ := ih hnext (Prod.mk.inj heq).2
      · exact ⟨.inr ⟨node, hresolution, suffix_refl _⟩, hrest⟩
      · exact ⟨.inr ⟨node, hresolution, (suffix_cons _ _).trans hsuffix⟩, hrest⟩
    · cases hok

end

theorem assemblePathChecked_ok (htarget : parentMap.containsKey target = true)
    (h : assemblePathChecked root parentMap candidateMap target = .ok (some path)) :
    IsSourceRoute (ParentEdge parentMap) root target path := by
  rw [assemblePathChecked] at h
  split at h
  · cases h
  · cases h
  rename_i hresult
  split at h
  · cases h
  rename_i hne
  cases h
  have hstart : Follows root parentMap target [] :=
    ⟨nodup_singleton root, Nat.zero_le _, .nil, by simp⟩
  obtain ⟨rfl | ⟨_, hnode, hsuffix⟩, hnodup, hlength, hhops⟩ :=
    assemblePathFrom_ok hstart hresult
  · exact absurd rfl hne
  · obtain rfl := hnode.unique (.target htarget)
    obtain ⟨_, rfl⟩ := hsuffix
    exact ⟨hnodup, hlength, List.getLast?_concat, hhops⟩

/-- A walk along eligible parents, without repeated nodes and not through the root, that comes from
`name` to an ambiguous name or to a ninth node. -/
inductive Blocked (root : Ipv6Addr) (parentMap : ParentMap) (candidateMap : CandidateMap) :
    List Ipv6Addr → Ipv6Addr → Prop
  | ambiguous {path : List Ipv6Addr} {name : Ipv6Addr} (hroot : namesRoot root name = false)
      (h : Ambiguous parentMap name) : Blocked root parentMap candidateMap path name
  | tooLong {path : List Ipv6Addr} {name node : Ipv6Addr} (hroot : namesRoot root name = false)
      (hnode : Resolves parentMap name node) (hlength : path.length = 8) :
      Blocked root parentMap candidateMap path name
  | hop {path : List Ipv6Addr} {name node parent : Ipv6Addr} (hroot : namesRoot root name = false)
      (hnode : Resolves parentMap name node) (hlength : path.length < 8) (hnew : node ∉ path)
      (hparent : Eligible parentMap candidateMap node parent)
      (h : Blocked root parentMap candidateMap (node :: path) parent) :
      Blocked root parentMap candidateMap path name

theorem assemblePathFrom_of_blocked (h : Blocked root parentMap candidateMap path name) (fuel : Nat) :
    assemblePathFrom root parentMap candidateMap fuel name path = .error () := by
  induction h generalizing fuel with
  | ambiguous hroot h =>
    cases fuel with
    | zero => rfl
    | succ => simp [assemblePathFrom, hroot, resolveNode_of_ambiguous h]
  | tooLong hroot hnode hlength =>
    cases fuel with
    | zero => rfl
    | succ =>
      simp [assemblePathFrom, hroot, resolveNode_of_resolves hnode, hlength, maxRouteHops]
  | @hop path name node parent hroot hnode hlength hnew hparent h ih =>
    cases fuel with
    | zero => rfl
    | succ fuel =>
      obtain ⟨_, _, hactive, hcandidates, hmem, candidate, hcandidate, rfl,
        hrank⟩ := hparent
      obtain ⟨rank, hrank⟩ := Option.isSome_iff_exists.mp hrank
      have hlength' : path.length ≠ maxRouteHops := by
        rw [maxRouteHops]
        omega
      simp only [assemblePathFrom, hroot, Bool.false_eq_true, if_false,
        resolveNode_of_resolves hnode, hlength', hnew, hactive, hcandidates]
      refine selectPath_error.mpr ⟨rank, mem_map.mpr ⟨(rank, candidate.parent), ?_, ?_⟩⟩
      · exact mem_eligible.mpr ⟨hmem, candidate, hcandidate, rfl, hrank⟩
      · exact congrArg (rank, ·) (ih fuel)

theorem blocked_of_assemblePathFrom (hfuel : 8 < fuel + path.length) (hlength : path.length ≤ 8)
    (h : assemblePathFrom root parentMap candidateMap fuel name path = .error ()) :
    Blocked root parentMap candidateMap path name := by
  induction fuel generalizing name path with
  | zero => omega
  | succ fuel ih =>
    simp only [assemblePathFrom] at h
    split at h
    · cases h
    rename_i hroot
    rw [Bool.not_eq_true] at hroot
    have hresolution := resolution_resolveNode parentMap name
    split at h
    · rename_i heq
      rw [heq] at hresolution
      exact .ambiguous hroot hresolution
    · cases h
    rename_i hnode
    rw [hnode] at hresolution
    split at h
    · exact .tooLong hroot hresolution ‹_›
    rename_i hne
    rw [maxRouteHops] at hne
    split at h
    · cases h
    rename_i hnew
    split at h
    · rename_i activeParents candidates hactive hcandidates
      obtain ⟨_, hmem⟩ := selectPath_error.mp h
      obtain ⟨⟨_, _⟩, heligible, heq⟩ := mem_map.mp hmem
      obtain ⟨hparent, candidate, hcandidate, hname, hrank⟩ := mem_eligible.mp heligible
      refine .hop hroot hresolution (by omega) hnew ⟨activeParents, candidates, hactive,
        hcandidates, hparent, candidate, hcandidate, hname, by rw [hrank]; rfl⟩ ?_
      exact ih (by rw [length_cons]; omega) (by rw [length_cons]; omega)
        (Prod.mk.inj heq).2
    · cases h

theorem assemblePathChecked_error :
    assemblePathChecked root parentMap candidateMap target = .error () ↔
      Blocked root parentMap candidateMap [] target := by
  rw [assemblePathChecked]
  constructor
  · intro h
    split at h
    · rename_i herror
      exact blocked_of_assemblePathFrom (by decide) (Nat.zero_le _) herror
    · cases h
    · cases h
  · intro h
    rw [assemblePathFrom_of_blocked h]

theorem any_hasCycleFrom_iff (order : HashOrder) (hfuel : parentMap.len < fuel) :
    (CycleSearch.any (hasCycleFrom parentMap fuel) (parentMap.keys order) ⟨[], []⟩).1 = true ↔
      ∃ node, Relation.TransGen (ParentEdge parentMap) node node := by
  have hedge : ∀ node parent, parent ∈ (parentMap.get node).getD [] ↔
      ParentEdge parentMap node parent := by
    intro node parent
    cases hget : parentMap.get node with
    | none | some => simp [ParentEdge, hget]
  have hkeys : ∀ node, (parentMap.get node).getD [] ≠ [] → node ∈ parentMap.keys order := by
    intro node hne
    rw [HashMap.mem_keys]
    cases hget : parentMap.get node with
    | none => simp [hget] at hne
    | some parents => exact ⟨parents, rfl⟩
  have hsearch := CycleSearch.any_fromNode_iff hkeys (HashMap.length_keys _ order ▸ hfuel)
  simp only [hedge] at hsearch
  exact hsearch

theorem containsCycle_iff (parentMap : ParentMap) : containsCycle parentMap = true ↔
    ∃ node, Relation.TransGen (ParentEdge parentMap) node node :=
  any_hasCycleFrom_iff .inserted (Nat.lt_succ_self _)

/-- The search is exact. Neither the order in which the map lists its keys nor further fuel changes
its answer. -/
theorem cycle_search_exact (parentMap : ParentMap) :
    (containsCycle parentMap = true ↔
      ∃ node, Relation.TransGen (ParentEdge parentMap) node node) ∧
    ∀ order further, (CycleSearch.any (hasCycleFrom parentMap (parentMap.len + 1 + further))
      (parentMap.keys order) ⟨[], []⟩).1 = containsCycle parentMap := by
  refine ⟨containsCycle_iff parentMap, fun order further => ?_⟩
  rw [Bool.eq_iff_iff, containsCycle_iff]
  exact any_hasCycleFrom_iff order (by omega)

end Lichen.Rpl
