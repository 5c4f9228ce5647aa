import Mathlib.Logic.Relation
import Mathlib.Data.List.Basic

/-!
# Guarded transition systems

A system is given by its initial states and a guarded, executable step
function: `step s e` is `some s'` when event `e` is enabled in `s`. States are
reached by runs, and a run may be required to meet a condition at every step.
-/

structure TransitionSystem (σ ε : Type*) where
  Initial : σ → Prop
  step : σ → ε → Option σ

namespace TransitionSystem

variable {σ ε : Type*} (M : TransitionSystem σ ε)

/-- States reached by runs all of whose steps meet `C`. -/
inductive ReachableWith (C : σ → ε → Prop) : σ → Prop
  | initial {s : σ} : M.Initial s → ReachableWith C s
  | step {s s' : σ} {e : ε} : ReachableWith C s → C s e → M.step s e = some s' → ReachableWith C s'

/-- Runs all of whose steps meet `C`. -/
inductive RunWith (C : σ → ε → Prop) : σ → List ε → σ → Prop
  | nil {s : σ} : RunWith C s [] s
  | cons {s s' s'' : σ} {e : ε} {es : List ε} :
    C s e → M.step s e = some s' → RunWith C s' es s'' → RunWith C s (e :: es) s''

def Reachable : σ → Prop := M.ReachableWith (fun _ _ => True)

def run (s : σ) (es : List ε) : Option σ := es.foldlM M.step s

variable {M} {C : σ → ε → Prop} {P : σ → Prop} {s s' : σ} {es : List ε}

theorem ReachableWith.invariant (h : M.ReachableWith C s) (hinit : ∀ s, M.Initial s → P s)
    (hstep : ∀ s e s', P s → C s e → M.step s e = some s' → P s') : P s := by
  induction h with
  | initial hi => exact hinit _ hi
  | step _ hc he ih => exact hstep _ _ _ ih hc he

theorem ReachableWith.mono {C' : σ → ε → Prop} (hC : ∀ s e, C s e → C' s e) (h : M.ReachableWith C s) :
    M.ReachableWith C' s := by
  induction h with
  | initial hi => exact .initial hi
  | step _ hc he ih => exact ih.step (hC _ _ hc) he

theorem ReachableWith.of_runWith (h : M.ReachableWith C s) (hrun : M.RunWith C s es s') :
    M.ReachableWith C s' := by
  induction hrun with
  | nil => exact h
  | cons hc he _ ih => exact ih (h.step hc he)

theorem RunWith.invariant (hstep : ∀ s e s', P s → C s e → M.step s e = some s' → P s') (hp : P s)
    (h : M.RunWith C s es s') : P s' := by
  induction h with
  | nil => exact hp
  | cons hc he _ ih => exact ih (hstep _ _ _ hp hc he)

theorem Reachable.invariant (h : M.Reachable s) (hinit : ∀ s, M.Initial s → P s)
    (hstep : ∀ s e s', P s → M.step s e = some s' → P s') : P s :=
  ReachableWith.invariant h hinit fun s e s' hp _ he => hstep s e s' hp he

theorem Reachable.of_initial (h : M.Initial s) : M.Reachable s :=
  ReachableWith.initial h

theorem Reachable.of_step {e : ε} (h : M.Reachable s) (he : M.step s e = some s') : M.Reachable s' :=
  ReachableWith.step h trivial he

@[simp] theorem run_nil (s : σ) : M.run s [] = some s := rfl

theorem run_cons (s : σ) (e : ε) (es : List ε) :
    M.run s (e :: es) = (M.step s e).bind (fun s' => M.run s' es) := rfl

theorem run_append (s : σ) (es es' : List ε) :
    M.run s (es ++ es') = (M.run s es).bind (fun s' => M.run s' es') :=
  List.foldlM_append

theorem run_invariant (hstep : ∀ s e s', P s → M.step s e = some s' → P s') (hp : P s)
    (h : M.run s es = some s') : P s' := by
  induction es generalizing s with
  | nil =>
    rw [run_nil, Option.some.injEq] at h
    exact h ▸ hp
  | cons e es ih =>
    obtain ⟨t, ht, h'⟩ := Option.bind_eq_some_iff.mp h
    exact ih (hstep s e t hp ht) h'

theorem ReachableWith.of_run (h : M.ReachableWith C s) (hC : ∀ e ∈ es, ∀ s, C s e)
    (he : M.run s es = some s') : M.ReachableWith C s' := by
  induction es generalizing s with
  | nil =>
    rw [run_nil, Option.some.injEq] at he
    exact he ▸ h
  | cons e es ih =>
    obtain ⟨t, ht, he'⟩ := Option.bind_eq_some_iff.mp he
    exact ih (h.step (hC e List.mem_cons_self s) ht) (fun e' he' => hC e' (List.mem_cons_of_mem e he')) he'

/-- The system that takes the steps which meet `C`, so that a run can be replayed with its
conditions. -/
def guarded (M : TransitionSystem σ ε) (C : σ → ε → Prop) [∀ s e, Decidable (C s e)] :
    TransitionSystem σ ε where
  Initial := M.Initial
  step s e := if C s e then M.step s e else none

theorem ReachableWith.of_guarded_run [∀ s e, Decidable (C s e)] (h : M.ReachableWith C s)
    (he : (M.guarded C).run s es = some s') : M.ReachableWith C s' := by
  refine run_invariant (P := M.ReachableWith C) (fun s e s' hs hstep => ?_) h he
  simp only [guarded] at hstep
  split_ifs at hstep with hC
  exact hs.step hC hstep

theorem Reachable.of_run (h : M.Reachable s) (he : M.run s es = some s') : M.Reachable s' :=
  run_invariant (P := M.Reachable) (fun _ _ _ hr hs => hr.of_step hs) h he

end TransitionSystem
