import Mathlib.Data.List.Induction
import Mathlib.Logic.Relation

namespace Lichen.Lib

def run (step : σ → ε → σ) (s : σ) (es : List ε) : σ := es.foldl step s

def Steps (P : σ → ε → Prop) (step : σ → ε → σ) : σ → List ε → Prop
  | _, [] => True
  | s, e :: es => P s e ∧ Steps P step (step s e) es

instance Steps.decide (P : σ → ε → Prop) [∀ s e, Decidable (P s e)] (step : σ → ε → σ) :
    ∀ s es, Decidable (Steps P step s es)
  | _, [] => isTrue trivial
  | s, e :: es =>
    have := Steps.decide P step (step s e) es
    inferInstanceAs (Decidable (P s e ∧ Steps P step (step s e) es))

section

variable {step : σ → ε → σ} {I : σ → Prop}

@[simp] theorem run_nil : run step s [] = s := rfl

@[simp] theorem run_cons : run step s (e :: es) = run step (step s e) es := rfl

theorem run_append (s : σ) (es fs : List ε) :
    run step s (es ++ fs) = run step (run step s es) fs :=
  List.foldl_append

theorem run_invariant (hstep : ∀ s e, I s → I (step s e)) (hs : I s) (es : List ε) :
    I (run step s es) := by
  induction es generalizing s with
  | nil => exact hs
  | cons e es ih => exact ih (hstep s e hs)

theorem reflTransGen_invariant (hstep : ∀ {s s'}, R s s' → I s → I s')
    (h : Relation.ReflTransGen R s s') (hs : I s) : I s' := by
  induction h with
  | refl => exact hs
  | tail _ h ih => exact hstep h ih

theorem run_invariant_history {I : List ε → σ → Prop}
    (hstep : ∀ es s e, I es s → I (es ++ [e]) (step s e)) (hs : I [] s) (es : List ε) :
    I es (run step s es) := by
  induction es using List.reverseRecOn with
  | nil => exact hs
  | append_singleton es e ih =>
    rw [run_append]
    exact hstep es _ e ih

theorem run_invariant_of_steps (hstep : ∀ s e, I s → P s e → I (step s e)) (hs : I s)
    (es : List ε) (hsteps : Steps P step s es) : I (run step s es) := by
  induction es generalizing s with
  | nil => exact hs
  | cons e es ih => exact ih (hstep s e hs hsteps.1) hsteps.2

/-- An invariant that speaks of the time, over steps whose times do not fall. -/
theorem run_invariant_sorted [LE τ] (time : ε → τ) {I : τ → σ → Prop}
    (hstep : ∀ now s e, I now s → now ≤ time e → P s e → I (time e) (step s e)) (hs : I now s)
    (es : List ε) (hsorted : (now :: es.map time).Pairwise (· ≤ ·)) (hsteps : Steps P step s es) :
    ∃ later ∈ now :: es.map time, I later (run step s es) := by
  induction es generalizing s now with
  | nil => exact ⟨now, List.mem_cons_self, hs⟩
  | cons e es ih =>
    obtain ⟨hle, hsorted⟩ := List.pairwise_cons.mp hsorted
    obtain ⟨later, hlater, h⟩ := ih
      (hstep now s e hs (hle _ List.mem_cons_self) hsteps.1) hsorted hsteps.2
    exact ⟨later, List.mem_cons_of_mem now hlater, h⟩

theorem steps_of_forall (s : σ) (h : ∀ e ∈ es, Q e) : Steps (fun _ => Q) step s es := by
  induction es generalizing s with
  | nil => trivial
  | cons e es ih =>
    exact ⟨h e List.mem_cons_self, ih _ fun e he => h e (List.mem_cons_of_mem _ he)⟩

theorem steps_append :
    Steps P step s (es ++ fs) ↔ Steps P step s es ∧ Steps P step (run step s es) fs := by
  induction es generalizing s with
  | nil => exact (and_iff_right trivial).symm
  | cons e es ih =>
    rw [List.cons_append, Steps, ih, Steps, and_assoc]
    rfl

theorem Steps.concat (h : Steps P step s es)
    (he : P (run step s es) e) : Steps P step s (es ++ [e]) :=
  steps_append.mpr ⟨h, he, trivial⟩

end

def trace (step : σ → ε → ω × σ) : σ → List ε → List ω
  | _, [] => []
  | s, e :: es => (step s e).1 :: trace step (step s e).2 es

theorem trace_eq_of_sim {step' : σ' → ε → ω × σ'} {R : σ → σ' → Prop} {P : ε → Prop}
    (hstep : ∀ s s' e, R s s' → P e → (step s e).1 = (step' s' e).1 ∧ R (step s e).2 (step' s' e).2)
    (h : R s s') (es : List ε) (hes : ∀ e ∈ es, P e) : trace step s es = trace step' s' es := by
  induction es generalizing s s' with
  | nil => rfl
  | cons e es ih =>
    obtain ⟨hanswer, hnext⟩ := hstep s s' e h (hes e List.mem_cons_self)
    rw [trace, trace, hanswer, ih hnext fun e he => hes e (List.mem_cons_of_mem _ he)]

theorem trace_eq_of_sim_steps {step' : σ' → ε → ω × σ'} {R : σ → σ' → Prop}
    (hstep : ∀ s s' e, R s s' → P s' e →
      (step s e).1 = (step' s' e).1 ∧ R (step s e).2 (step' s' e).2)
    (h : R s s') (es : List ε) (hes : Steps P (fun s' e => (step' s' e).2) s' es) :
    trace step s es = trace step' s' es ∧
      R (run (fun s e => (step s e).2) s es) (run (fun s' e => (step' s' e).2) s' es) := by
  induction es generalizing s s' with
  | nil => exact ⟨rfl, h⟩
  | cons e es ih =>
    obtain ⟨hanswer, hnext⟩ := hstep s s' e h hes.1
    obtain ⟨htrace, hrun⟩ := ih hnext hes.2
    rw [trace, trace, hanswer, htrace]
    exact ⟨rfl, hrun⟩

end Lichen.Lib
