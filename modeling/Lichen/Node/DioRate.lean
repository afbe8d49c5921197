import Lichen.Core.Types
import Lichen.Lib.RateLog
import Lichen.Lib.Run

namespace Lichen.Node

open Lichen.Core Lichen.Lib List

abbrev DioArrival := Iid × UInt64

structure Router where
  dioRateLog : BoundedVec DioArrival 64

namespace Router

def windowMs : UInt64 := 60000

def perSourceMax : Nat := 30

def new : Router := ⟨.new⟩

def inWindow (nowMs : UInt64) (entry : DioArrival) : Bool := nowMs - entry.2 < windowMs

def arrivals (log : List DioArrival) (senderAddr : Iid) : Nat :=
  log.countP fun entry => entry.1 = senderAddr

def dioRateLimited (router : Router) (senderAddr : Iid) (nowMs : UInt64) :
    Option (Bool × Router) :=
  let log := router.dioRateLog.retain (inWindow nowMs)
  if arrivals log.items senderAddr ≥ perSourceMax then some (true, ⟨log⟩)
  else
    match log.push (senderAddr, nowMs) with
    | some log => some (false, ⟨log⟩)
    | none => ((log.remove 0).push (senderAddr, nowMs)).map fun log => (false, ⟨log⟩)

theorem dioRateLimited_cases (router : Router) :
    let pruned := router.dioRateLog.items.filter (inWindow nowMs)
    (perSourceMax ≤ arrivals pruned senderAddr ∧
      ∃ next, router.dioRateLimited senderAddr nowMs = some (true, next) ∧
        next.dioRateLog.items = pruned) ∨
    (arrivals pruned senderAddr < perSourceMax ∧
      ∃ next, router.dioRateLimited senderAddr nowMs = some (false, next) ∧
        next.dioRateLog.items =
          (if pruned.length < 64 then pruned else pruned.tail) ++ [(senderAddr, nowMs)]) := by
  intro pruned
  by_cases hlimit : perSourceMax ≤ arrivals pruned senderAddr
  · exact .inl ⟨hlimit, _, if_pos hlimit, rfl⟩
  refine .inr ⟨Nat.lt_of_not_le hlimit, ?_⟩
  have hcall : router.dioRateLimited senderAddr nowMs = _ := if_neg hlimit
  rw [hcall]
  cases hpush : (router.dioRateLog.retain (inWindow nowMs)).push (senderAddr, nowMs) with
  | some =>
    obtain ⟨hlt, hitems⟩ := BoundedVec.push_eq_some.mp hpush
    have hlt : pruned.length < 64 := hlt
    refine ⟨_, rfl, ?_⟩
    rw [if_pos hlt]
    exact hitems
  | none =>
    have hfull : pruned.length = 64 := BoundedVec.push_eq_none.mp hpush
    cases hagain : ((router.dioRateLog.retain (inWindow nowMs)).remove 0).push
        (senderAddr, nowMs) with
    | none =>
      have hlen : (pruned.eraseIdx 0).length = 64 := BoundedVec.push_eq_none.mp hagain
      rw [eraseIdx_zero, length_tail, hfull] at hlen
      cases hlen
    | some log =>
      obtain ⟨-, hitems⟩ := BoundedVec.push_eq_some.mp hagain
      refine ⟨_, rfl, ?_⟩
      rw [if_neg (by omega), ← eraseIdx_zero]
      exact hitems

end Router

structure DioWatch where
  router : Router
  passed : List DioArrival

namespace DioWatch

open Router

def new : DioWatch := ⟨.new, []⟩

def step (watch : DioWatch) (dio : DioArrival) : DioWatch :=
  match watch.router.dioRateLimited dio.1 dio.2 with
  | some (false, router) => ⟨router, watch.passed ++ [dio]⟩
  | some (true, router) => { watch with router }
  | none => watch

def Fits (watch : DioWatch) (dio : DioArrival) : Prop :=
  let pruned := watch.router.dioRateLog.items.filter (inWindow dio.2)
  arrivals pruned dio.1 < perSourceMax → pruned.length < 64

instance (watch : DioWatch) (dio : DioArrival) : Decidable (watch.Fits dio) :=
  inferInstanceAs (Decidable (_ → _))

def recent (dio earlier : DioArrival) : Bool :=
  earlier.1 = dio.1 && inWindow dio.2 earlier

structure Inv (nowMs : UInt64) (watch : DioWatch) : Prop where
  tracks : Tracks inWindow nowMs watch.router.dioRateLog.items watch.passed
  logged : ∀ entry ∈ watch.router.dioRateLog.items, entry.2 ≤ nowMs
  past : ∀ entry ∈ watch.passed, entry.2 ≤ nowMs
  sorted : watch.passed.Pairwise (·.2 ≤ ·.2)
  limited : Limited recent perSourceMax watch.passed

theorem inv_new : Inv 0 new :=
  ⟨fun _ _ => rfl, nofun, nofun, .nil, .nil⟩

theorem inWindow_of_later (hpast : entry.2 ≤ nowMs)
    (hle : nowMs ≤ later) (h : inWindow later entry) : inWindow nowMs entry := by
  rw [Router.inWindow, decide_eq_true_eq, UInt64.lt_iff_toNat_lt, UInt64.toNat_sub_of_le _ _ hpast]
  rw [Router.inWindow, decide_eq_true_eq, UInt64.lt_iff_toNat_lt,
    UInt64.toNat_sub_of_le _ _ (UInt64.le_trans hpast hle)] at h
  have hle := UInt64.le_iff_toNat_le.mp hle
  omega

theorem inv_step (h : Inv nowMs watch)
    (hle : nowMs ≤ dio.2) (hfits : watch.Fits dio) : Inv dio.2 (watch.step dio) := by
  have hprune := h.tracks.prune hle fun entry hentry t ht hr =>
    inWindow_of_later (UInt64.le_trans (h.logged entry hentry) hle) ht hr
  have hlogged : ∀ entry ∈ watch.router.dioRateLog.items.filter (inWindow dio.2), entry.2 ≤ dio.2 :=
    fun entry hentry => UInt64.le_trans (h.logged entry (mem_of_mem_filter hentry)) hle
  have hpast : ∀ entry ∈ watch.passed, entry.2 ≤ dio.2 :=
    fun entry hentry => UInt64.le_trans (h.past entry hentry) hle
  obtain ⟨-, next, hcall, hitems⟩ | ⟨hlt, next, hcall, hitems⟩ :=
    watch.router.dioRateLimited_cases
  · have hstep : watch.step dio = { watch with router := next } := by rw [step, hcall]
    rw [hstep]
    exact ⟨by rwa [hitems], by rwa [hitems], hpast, h.sorted, h.limited⟩
  · have hstep : watch.step dio = ⟨next, watch.passed ++ [dio]⟩ := by rw [step, hcall]
    rw [if_pos (hfits hlt)] at hitems
    rw [hstep]
    refine ⟨?_, ?_, ?_, ?_, ?_⟩
    · rw [hitems]
      exact hprune.concat dio
    · rw [hitems]
      intro entry hentry
      obtain hentry | hentry := mem_append.mp hentry
      · exact hlogged entry hentry
      · exact mem_singleton.mp hentry ▸ UInt64.le_refl dio.2
    · intro entry hentry
      obtain hentry | hentry := mem_append.mp hentry
      · exact hpast entry hentry
      · exact mem_singleton.mp hentry ▸ UInt64.le_refl dio.2
    · refine pairwise_append.mpr ⟨h.sorted, pairwise_singleton _ _, ?_⟩
      intro entry hentry last hlast
      exact mem_singleton.mp hlast ▸ hpast entry hentry
    · refine h.limited.concat ?_
      rw [arrivals, h.tracks.countP_eq hle] at hlt
      exact hlt

/-- While the shared log never overflows, each signer keeps to its limit. -/
theorem passed_le_perSourceMax (dios : List DioArrival) (hsorted : dios.Pairwise (·.2 ≤ ·.2))
    (hfits : Steps Fits step new dios) (signer : Iid) (start : Nat) :
    ((run step new dios).passed.countP fun dio =>
      dio.1 = signer ∧ start ≤ dio.2.toNat ∧ dio.2.toNat < start + 60000) ≤ 30 := by
  obtain ⟨_, -, hinv⟩ := run_invariant_sorted Prod.snd (fun _ _ _ => inv_step) inv_new dios
    (pairwise_cons.mpr ⟨fun _ _ => UInt64.zero_le, pairwise_map.mpr hsorted⟩) hfits
  refine hinv.limited.countP_le ?_ hinv.sorted
  intro dio earlier hdio hearlier hle
  obtain ⟨hsigner, -, hend⟩ := of_decide_eq_true hdio
  obtain ⟨hsigner', hstart, -⟩ := of_decide_eq_true hearlier
  rw [recent, Router.inWindow, Bool.and_eq_true, decide_eq_true_eq, decide_eq_true_eq,
    UInt64.lt_iff_toNat_lt, UInt64.toNat_sub_of_le _ _ hle]
  refine ⟨hsigner'.trans hsigner.symm, ?_⟩
  change _ < 60000
  omega

def signerOf (b : UInt8) : Iid := ⟨[b, 0, 0, 0, 0, 0, 0, 0], rfl⟩

theorem passed_le_of_two_signers :
    ((run step new [(signerOf 1, 0), (signerOf 2, 5), (signerOf 1, 7)]).passed.countP fun dio =>
      dio.1 = signerOf 1 ∧ 0 ≤ dio.2.toNat ∧ dio.2.toNat < 0 + 60000) ≤ 30 :=
  passed_le_perSourceMax _ (by decide) (by decide) (signerOf 1) 0

/-- Two other signers fill the log, and the first one gets a further DIO through. -/
def crowd : List DioArrival :=
  List.replicate 30 (signerOf 1, 0) ++ List.replicate 30 (signerOf 2, 0) ++
    List.replicate 5 (signerOf 3, 0) ++ [(signerOf 1, 0)]

theorem passed_of_crowd :
    ((run step new crowd).passed.countP fun dio =>
      dio.1 = signerOf 1 ∧ 0 ≤ dio.2.toNat ∧ dio.2.toNat < 0 + 60000) = 31 ∧
      crowd.Pairwise (·.2 ≤ ·.2) := by
  decide +kernel

end DioWatch

end Lichen.Node
