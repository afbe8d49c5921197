import Lichen.Rpl.Table

namespace Lichen.Rpl

open Lichen.Lib Lichen.Core RouteTarget List HashMap

namespace RouteTarget

def significant (address : Ipv6Addr) (prefixLen : UInt8) : Bytes :=
  let wholeBytes := prefixLen.toNat / 8
  let remainingBits := prefixLen % 8
  address.toList.take wholeBytes ++ if remainingBits = 0 then []
    else [address.toList.getD wholeBytes 0 &&& (0xff <<< (8 - remainingBits))]

section

variable {prefixLen : UInt8}

theorem toNat_mod_eight_lt (hlen : prefixLen ≤ 128)
    (hbits : prefixLen % 8 ≠ 0) : prefixLen.toNat / 8 < 16 := by
  have hle : prefixLen.toNat ≤ 128 := UInt8.le_iff_toNat_le.mp hlen
  have hne : prefixLen.toNat % 8 ≠ 0 := by
    intro hzero
    apply hbits
    apply UInt8.toNat_inj.mp
    rw [UInt8.toNat_mod]
    exact hzero
  omega

theorem new_eq_some (address : Ipv6Addr) (hlen : prefixLen ≤ 128) :
    new address prefixLen = some ⟨toArray 16 (significant address prefixLen), prefixLen⟩ := by
  rw [new, if_neg (UInt8.not_lt.mpr hlen)]
  simp only [significant]
  by_cases hbits : prefixLen % 8 = 0
  · rw [if_neg (not_not.mpr hbits), if_neg (not_not.mpr hbits), if_pos hbits, append_nil,
      Nat.add_zero]
  · have hlt : prefixLen.toNat / 8 < address.toList.length := by
      rw [address.toList_length]
      exact toNat_mod_eight_lt hlen hbits
    rw [if_pos hbits, if_pos hbits, if_neg hbits, take_add_one, take_modify,
      List.getElem?_modify_eq, getD_eq_getElem?_getD, List.getElem?_eq_getElem hlt,
      modify_eq_self (by rw [length_take]; omega)]
    rfl

theorem new_eq_none (hlen : ¬ prefixLen ≤ 128) (address : Ipv6Addr) :
    new address prefixLen = none := by
  rw [new, if_pos (UInt8.not_le.mp hlen)]

theorem xor_and_eq_zero (a b m : UInt8) : (a ^^^ b) &&& m = 0 ↔ a &&& m = b &&& m := by
  have hdistrib : (a ^^^ b) &&& m = (a &&& m) ^^^ (b &&& m) := by
    apply UInt8.toBitVec_inj.mp
    ext i
    simp [Bool.and_xor_distrib_right]
  rw [hdistrib, UInt8.xor_eq_zero_iff]

theorem contains_eq_true (target : RouteTarget) (address : Ipv6Addr) :
    target.contains address = true ↔
      significant target.address target.prefixLen = significant address target.prefixLen := by
  have hlength : (target.address.toList.take (target.prefixLen.toNat / 8)).length =
      (address.toList.take (target.prefixLen.toNat / 8)).length := by
    simp
  simp only [contains, significant, Bool.and_eq_true, Bool.or_eq_true, decide_eq_true_eq]
  split
  · simp [*]
  · rw [xor_and_eq_zero]
    simp only [*, false_or]
    constructor
    · rintro ⟨htake, hbits⟩
      rw [htake, hbits]
    · intro h
      obtain ⟨htake, hbits⟩ := append_inj h hlength
      exact ⟨htake, singleton_inj.mp hbits⟩

theorem length_significant (address : Ipv6Addr) (hlen : prefixLen ≤ 128) :
    (significant address prefixLen).length ≤ 16 := by
  have hle : prefixLen.toNat ≤ 128 := UInt8.le_iff_toNat_le.mp hlen
  simp only [significant, length_append, length_take, address.toList_length]
  split
  · rw [length_nil]
    omega
  · have hlt := toNat_mod_eight_lt hlen ‹_›
    rw [length_singleton]
    omega

theorem significant_toArray (address : Ipv6Addr) (hlen : prefixLen ≤ 128) :
    significant (toArray 16 (significant address prefixLen)) prefixLen =
      significant address prefixLen := by
  have hle : prefixLen.toNat ≤ 128 := UInt8.le_iff_toNat_le.mp hlen
  have htake : (address.toList.take (prefixLen.toNat / 8)).length = prefixLen.toNat / 8 := by
    rw [length_take, address.toList_length]
    omega
  rw [significant, toList_toArray_of_le (length_significant address hlen)]
  simp only [significant]
  rw [append_assoc, take_left' htake]
  congr 1
  split
  · rfl
  · rw [getD_eq_getElem?_getD, List.getElem?_append_right htake.le, htake, Nat.sub_self,
      singleton_append, List.getElem?_cons_zero, Option.getD_some, UInt8.and_assoc,
      UInt8.and_self]

end

def Canonical (target : RouteTarget) : Prop := new target.address target.prefixLen = some target

instance (target : RouteTarget) : Decidable target.Canonical :=
  inferInstanceAs (Decidable (_ = _))

theorem Canonical.len_le {target : RouteTarget} (h : target.Canonical) :
    target.prefixLen ≤ 128 := by
  by_contra hlen
  rw [Canonical, new_eq_none hlen] at h
  cases h

theorem canonical_host (address : Ipv6Addr) : (host address).Canonical := by
  have hbytes : significant address 128 = address.toList := by
    show address.toList.take 16 ++ [] = _
    rw [append_nil, take_of_length_le address.toList_length.le]
  have hlen : (128 : UInt8) ≤ 128 := by decide
  rw [Canonical, host, new_eq_some address hlen, hbytes, toArray_toList]

theorem Canonical.contains_iff (h : target.Canonical) :
    target.contains dest = true ↔ new dest target.prefixLen = some target := by
  rw [contains_eq_true, new_eq_some dest h.len_le]
  constructor
  · intro heq
    rw [← heq, ← new_eq_some target.address h.len_le]
    exact h
  · intro heq
    rw [← significant_toArray dest h.len_le]
    exact congrArg (significant ·.address target.prefixLen) (Option.some.inj heq).symm

theorem contains_host_iff (address dest : Ipv6Addr) :
    (host address).contains dest = true ↔ address = dest := by
  rw [(canonical_host address).contains_iff]
  constructor
  · intro h
    exact (host_injective (Option.some.inj ((canonical_host dest).symm.trans h))).symm
  · rintro rfl
    exact canonical_host address

theorem eq_host_of_not_lt (hlen : target.prefixLen ≤ 128)
    (h : ¬ target.prefixLen < 128) : target = host target.address := by
  have heq : target.prefixLen = 128 := UInt8.le_antisymm hlen (UInt8.not_lt.mp h)
  rw [host, ← heq]

end RouteTarget

namespace RoutingTable

structure Covers (table : RoutingTable) (dest : Ipv6Addr) (target : RouteTarget)
    (entry : RouteEntry) : Prop where
  get_eq : table.routes.get target = some entry
  contains : target.contains dest = true
  usable : entry.isUsable = true

/-- `path` belongs to a usable entry for the longest of the prefixes of `dest`. -/
def LongestMatch (table : RoutingTable) (dest : Ipv6Addr) (path : List Ipv6Addr) : Prop :=
  ∃ target entry, table.Covers dest target entry ∧ entry.path = path ∧
    ∀ target' entry', table.Covers dest target' entry' → target'.prefixLen ≤ target.prefixLen

def exactHost (table : RoutingTable) (dest : Ipv6Addr) : Option (List Ipv6Addr) :=
  ((table.routes.get (.host dest)).filter (·.isUsable)).map (·.path)

def scan (table : RoutingTable) (order : HashOrder) (dest : Ipv6Addr) :
    Option (List Ipv6Addr) :=
  let matching := (table.routes.iter order).filter fun e => e.1.contains dest && e.2.isUsable
  (minBy (fun e best => best.1.prefixLen ≤ e.1.prefixLen) matching).map (·.2.path)

theorem lookup_eq (table : RoutingTable) (order : HashOrder) (dest : Ipv6Addr) :
    table.lookup order dest =
      if table.prefixRouteCount = 0 then table.exactHost dest else table.scan order dest :=
  rfl

section

variable {table : RoutingTable} {order : HashOrder} {dest : Ipv6Addr} {path : List Ipv6Addr}

theorem mem_matching : (target, entry) ∈ ((table.routes.iter order).filter
      fun e => e.1.contains dest && e.2.isUsable) ↔ table.Covers dest target entry := by
  rw [mem_filter, mem_iter, Bool.and_eq_true]
  exact ⟨fun ⟨hget, hcontains, husable⟩ => ⟨hget, hcontains, husable⟩,
    fun h => ⟨h.get_eq, h.contains, h.usable⟩⟩

theorem scan_eq_some (h : table.scan order dest = some path) : table.LongestMatch dest path := by
  obtain ⟨⟨target, entry⟩, hmin, rfl⟩ := Option.map_eq_some_iff.mp h
  refine ⟨target, entry, mem_matching.mp (mem_of_minBy hmin), rfl, ?_⟩
  intro target' entry' hcovers
  refine UInt8.le_iff_toNat_le.mpr (minBy_greatest
    (f := fun e : RouteTarget × RouteEntry => e.1.prefixLen.toNat) ?_ ?_ hmin
    (target', entry') (mem_matching.mpr hcovers))
  · intro a b h
    exact UInt8.le_iff_toNat_le.mp (of_decide_eq_true h)
  · intro a b h
    exact UInt8.le_iff_toNat_le.mp (UInt8.le_of_lt (UInt8.not_le.mp (of_decide_eq_false h)))

theorem scan_eq_none :
    table.scan order dest = none ↔ ∀ target entry, ¬ table.Covers dest target entry := by
  rw [scan, Option.map_eq_none_iff, minBy_eq_none, eq_nil_iff_forall_not_mem]
  constructor
  · intro h target entry hcovers
    exact h (target, entry) (mem_matching.mpr hcovers)
  · intro h e he
    exact h e.1 e.2 (mem_matching.mp he)

end

/-- The keys are canonical prefixes, and the prefixes shorter than an address are counted. -/
structure Keyed (table : RoutingTable) : Prop where
  count_eq : table.prefixRouteCount = table.routes.countKeys (·.prefixLen < 128)
  canonical : ∀ target entry, table.routes.get target = some entry → target.Canonical

section

variable {table : RoutingTable} {dest : Ipv6Addr}

theorem Keyed.len_of_count_zero (h : table.Keyed) (hzero : table.prefixRouteCount = 0)
    (hget : table.routes.get target = some entry) : target = .host target.address := by
  refine eq_host_of_not_lt (h.canonical target entry hget).len_le ?_
  intro hlt
  have hcount := h.count_eq
  rw [hzero, HashMap.countKeys, eq_comm, countP_eq_zero] at hcount
  exact hcount target (mem_keys_of_get hget) (decide_eq_true hlt)

theorem covers_of_exactHost (h : table.exactHost dest = some path) :
    ∃ entry, table.Covers dest (.host dest) entry ∧ entry.path = path := by
  rw [exactHost, Option.map_eq_some_iff] at h
  obtain ⟨entry, hentry, rfl⟩ := h
  obtain ⟨hget, husable⟩ := Option.filter_eq_some_iff.mp hentry
  exact ⟨entry, ⟨hget, (contains_host_iff dest dest).mpr rfl, husable⟩, rfl⟩

theorem exactHost_of_covers (h : table.Covers dest (.host dest) entry) :
    table.exactHost dest = some entry.path := by
  rw [exactHost, h.get_eq, Option.filter_some, if_pos h.usable, Option.map_some]

theorem Keyed.exactHost_eq_scan (h : table.Keyed) (hzero : table.prefixRouteCount = 0)
    (order : HashOrder) (dest : Ipv6Addr) : table.exactHost dest = table.scan order dest := by
  cases hscan : table.scan order dest with
  | none =>
    rw [Option.eq_none_iff_forall_ne_some]
    intro path hpath
    obtain ⟨entry, hcovers, _⟩ := covers_of_exactHost hpath
    exact scan_eq_none.mp hscan _ _ hcovers
  | some =>
    obtain ⟨_, entry, hcovers, rfl, _⟩ := scan_eq_some hscan
    have hhost := h.len_of_count_zero hzero hcovers.get_eq
    have hdest := hcovers.contains
    rw [hhost, contains_host_iff] at hdest
    rw [hhost, hdest] at hcovers
    exact exactHost_of_covers hcovers

theorem Keyed.lookup_eq_scan (h : table.Keyed) (order : HashOrder) (dest : Ipv6Addr) :
    table.lookup order dest = table.scan order dest := by
  rw [lookup_eq]
  split
  · exact h.exactHost_eq_scan ‹_› order dest
  · rfl

theorem Keyed.longestMatch_unique (h : table.Keyed) (hleft : table.LongestMatch dest left)
    (hright : table.LongestMatch dest right) : left = right := by
  obtain ⟨target, _, hcovers, rfl, hmax⟩ := hleft
  obtain ⟨target', _, hcovers', rfl, hmax'⟩ := hright
  have hlen : target.prefixLen = target'.prefixLen :=
    UInt8.le_antisymm (hmax' _ _ hcovers) (hmax _ _ hcovers')
  have hnew := ((h.canonical _ _ hcovers.get_eq).contains_iff).mp hcovers.contains
  have hnew' := ((h.canonical _ _ hcovers'.get_eq).contains_iff).mp hcovers'.contains
  rw [hlen, hnew'] at hnew
  cases hnew
  rw [Option.some.inj (hcovers.get_eq.symm.trans hcovers'.get_eq)]

end

section

variable (table : RoutingTable)

def installed (target : RouteTarget) (path : List Ipv6Addr) :
    RoutingTable :=
  { table with
    routes := table.routes.insert target (.fresh path)
    prefixRouteCount := if !table.routes.containsKey target ∧ target.prefixLen < 128
      then table.prefixRouteCount + 1 else table.prefixRouteCount }

theorem refreshed_eq (target : RouteTarget) (path : List Ipv6Addr) :
    table.refreshed target path = some (.fresh path) := by
  rw [refreshed]
  split
  · rename_i hget
    have hstate := of_decide_eq_true (Option.filter_eq_some_iff.mp hget).2
    rw [RouteEntry.refresh_of_usable hstate]
    rfl
  · rfl

theorem addTargetRoute_eq (target : RouteTarget) (path : List Ipv6Addr) :
    table.addTargetRoute target path =
      if path = [] ∨ path.length > maxRouteHops then some (false, table)
      else if !table.routes.containsKey target ∧ table.routes.len = maxRoutes then
        some (false, table)
      else some (true, table.installed target path) := by
  rw [addTargetRoute, refreshed_eq]
  rfl

theorem addTargetRoute_cases (target : RouteTarget) (path : List Ipv6Addr) :
    table.addTargetRoute target path = some (false, table) ∨
      table.addTargetRoute target path = some (true, table.installed target path) := by
  rw [addTargetRoute_eq]
  split
  · exact .inl rfl
  · split
    · exact .inl rfl
    · exact .inr rfl

end

section

variable {table : RoutingTable} {target : RouteTarget}

theorem keyed_new : new.Keyed := ⟨rfl, fun _ _ h => by cases h⟩

section

variable (h : table.Keyed)

include h

theorem keyed_insert_of_get (hget : table.routes.get target = some entry)
    (next : RouteEntry) : { table with routes := table.routes.insert target next }.Keyed where
  count_eq := by
    rw [countKeys_insert_of_get _ hget]
    exact h.count_eq
  canonical := by
    intro other entry' hother
    obtain ⟨rfl, -⟩ | ⟨-, hother⟩ := get_of_get_insert hother
    · exact h.canonical _ _ hget
    · exact h.canonical other _ hother

theorem Keyed.insert_host (address : Ipv6Addr) (entry : RouteEntry) :
    { table with routes := table.routes.insert (.host address) entry }.Keyed where
  count_eq := by
    rw [h.count_eq]
    cases hget : table.routes.get (.host address) with
    | none =>
      rw [countKeys_insert_of_get_none _ hget]
      simp [host]
    | some => rw [countKeys_insert_of_get _ hget]
  canonical := by
    intro other entry hother
    obtain ⟨rfl, -⟩ | ⟨-, hother⟩ := get_of_get_insert hother
    · exact canonical_host address
    · exact h.canonical other _ hother

section

variable (hcanonical : target.Canonical)

include hcanonical

theorem Keyed.installed : (table.installed target path).Keyed where
  count_eq := by
    rw [RoutingTable.installed]
    cases hget : table.routes.get target with
    | none =>
      rw [countKeys_insert_of_get_none _ hget, ← h.count_eq]
      by_cases hlt : target.prefixLen < 128 <;> simp [hlt, HashMap.containsKey, hget]
    | some =>
      rw [countKeys_insert_of_get _ hget, ← h.count_eq]
      simp [HashMap.containsKey, hget]
  canonical := by
    intro other entry hother
    obtain ⟨rfl, -⟩ | ⟨-, hother⟩ := get_of_get_insert hother
    · exact hcanonical
    · exact h.canonical other _ hother

theorem Keyed.addTargetRoute :
    ∃ added next, table.addTargetRoute target path = some (added, next) ∧ next.Keyed := by
  obtain hadd | hadd := table.addTargetRoute_cases target path
  · exact ⟨_, _, hadd, h⟩
  · exact ⟨_, _, hadd, h.installed hcanonical⟩

theorem Keyed.addPrefixRoute :
    ∃ added next, table.addPrefixRoute target egress path = some (added, next) ∧ next.Keyed := by
  rw [RoutingTable.addPrefixRoute]
  split
  · exact ⟨_, _, rfl, h⟩
  · obtain ⟨added, next, hadd, hnext⟩ := h.addTargetRoute hcanonical
    rw [hadd, Option.map_some]
    cases added with
    | false => exact ⟨_, _, rfl, hnext⟩
    | true => exact ⟨_, _, rfl, hnext.count_eq, hnext.canonical⟩

end

section

variable (target : RouteTarget)

theorem Keyed.remove :
    ∀ other entry, (table.routes.remove target).get other = some entry → other.Canonical :=
  fun other entry hother => h.canonical other entry (get_of_get_remove hother).2

theorem Keyed.removeRoute (address : Ipv6Addr) :
    (table.removeRoute address).Keyed where
  count_eq := by
    rw [RoutingTable.removeRoute, h.count_eq]
    cases hget : table.routes.get (.host address) with
    | none => rw [countKeys_remove_of_get_none _ hget]
    | some =>
      rw [← countKeys_remove_of_get _ hget]
      simp [host]
  canonical := h.remove (.host address)

theorem Keyed.removePrefixRoute :
    ∃ next, table.removePrefixRoute target = some next ∧ next.Keyed := by
  rw [RoutingTable.removePrefixRoute]
  split
  · rename_i hpresent
    obtain ⟨hlt, hcontains⟩ := hpresent
    obtain ⟨_, hget⟩ := Option.isSome_iff_exists.mp hcontains
    have hcount := countKeys_remove_of_get
      (fun target : RouteTarget => decide (target.prefixLen < 128)) hget
    rw [if_pos (decide_eq_true hlt), ← h.count_eq] at hcount
    rw [if_neg (by omega)]
    refine ⟨_, rfl, ?_, h.remove target⟩
    simp only
    omega
  · exact ⟨table, rfl, h⟩

theorem Keyed.transition : (table.transition target mark).2.Keyed := by
  rw [RoutingTable.transition]
  split
  · exact h
  · split
    · exact keyed_insert_of_get h ‹_› _
    · exact h

theorem Keyed.markPrefixExpired : (table.markPrefixExpired target).2.Keyed := by
  rw [RoutingTable.markPrefixExpired]
  split
  · exact h.transition target
  · exact h

end

end

end

abbrev CanonicalTarget := { target : RouteTarget // target.Canonical }

inductive Call where
  | addRoute (target : Ipv6Addr) (path : List Ipv6Addr)
  | addPrefixRoute (target : CanonicalTarget) (egress : Ipv6Addr) (path : List Ipv6Addr)
  | addTargetRoute (target : CanonicalTarget) (path : List Ipv6Addr)
  | removeRoute (target : Ipv6Addr)
  | removePrefixRoute (target : CanonicalTarget)
  | markStale (target : Ipv6Addr)
  | markExpired (target : Ipv6Addr)
  | markPrefixExpired (target : CanonicalTarget)

def call (table : RoutingTable) : Call → Option RoutingTable
  | .addRoute target path => (table.addRoute target path).map (·.2)
  | .addPrefixRoute target egress path => (table.addPrefixRoute target egress path).map (·.2)
  | .addTargetRoute target path => (table.addTargetRoute target path).map (·.2)
  | .removeRoute target => some (table.removeRoute target)
  | .removePrefixRoute target => table.removePrefixRoute target
  | .markStale target => some (table.markStale target).2
  | .markExpired target => some (table.markExpired target).2
  | .markPrefixExpired target => some (table.markPrefixExpired target).2

theorem Keyed.call {table : RoutingTable} (h : table.Keyed) :
    ∃ next, table.call c = some next ∧ next.Keyed := by
  cases c with
  | addRoute target path =>
    obtain ⟨added, next, hadd, hnext⟩ :=
      h.addTargetRoute (canonical_host target)
    exact ⟨next, by rw [RoutingTable.call, addRoute, hadd, Option.map_some], hnext⟩
  | addPrefixRoute target egress path =>
    obtain ⟨added, next, hadd, hnext⟩ := h.addPrefixRoute target.2
    exact ⟨next, by rw [RoutingTable.call, hadd, Option.map_some], hnext⟩
  | addTargetRoute target path =>
    obtain ⟨added, next, hadd, hnext⟩ := h.addTargetRoute target.2
    exact ⟨next, by rw [RoutingTable.call, hadd, Option.map_some], hnext⟩
  | removeRoute target => exact ⟨_, rfl, h.removeRoute target⟩
  | removePrefixRoute target => exact h.removePrefixRoute target
  | markStale target | markExpired target => exact ⟨_, rfl, h.transition (.host target)⟩
  | markPrefixExpired target => exact ⟨_, rfl, h.markPrefixExpired target⟩

/-- Calls on a fresh table never panic, and leave a table whose lookup is longest-prefix match:
the count is that of the entries shorter than an address, and the exact-host path and the scan
agree. -/
theorem lookup_longest_match (calls : List Call) :
    ∃ table, calls.foldlM RoutingTable.call new = some table ∧
      table.prefixRouteCount =
        (table.routes.toPairs.filter fun e => e.1.prefixLen < 128).length ∧
      ∀ order dest,
        (∀ path, table.lookup order dest = some path → table.LongestMatch dest path) ∧
        (table.lookup order dest = none ↔ ∀ target entry, ¬ table.Covers dest target entry) ∧
        (table.prefixRouteCount = 0 → table.exactHost dest = table.scan order dest) := by
  obtain ⟨table, hrun, hkeyed⟩ := foldlM_total (I := Keyed) (l := calls)
    (fun c _ _ h => h.call) keyed_new
  refine ⟨table, hrun, ?_, ?_⟩
  · rw [hkeyed.count_eq, countKeys_eq_toPairs]
  · intro order dest
    rw [hkeyed.lookup_eq_scan]
    exact ⟨fun path => scan_eq_some, scan_eq_none,
      fun hzero => hkeyed.exactHost_eq_scan hzero order dest⟩

end RoutingTable

end Lichen.Rpl
