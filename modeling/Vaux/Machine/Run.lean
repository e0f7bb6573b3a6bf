import Mathlib.Data.List.Basic
import Mathlib.Data.List.Induction

/-!
# Runs

A machine is a partial step function: a label is one choice of the environment, and a
label whose step is not enabled has no result.  A run is a list of labels.  `Along`
says something of every step of a run, in the state the step is taken from.
-/

namespace Vaux
namespace Machine

section

variable {σ ℓ : Type*} (step : σ → ℓ → Option σ)

def run : σ → List ℓ → Option σ
  | s, [] => some s
  | s, l :: ls => (step s l).bind fun s' => run s' ls

/-- Every step of the run satisfies `P`; the run ends at a label that is not enabled. -/
def Along (P : σ → ℓ → Prop) : σ → List ℓ → Prop
  | _, [] => True
  | s, l :: ls => ∀ s', step s l = some s' → P s l ∧ Along P s' ls

end

section

variable {σ ℓ : Type*} {step : σ → ℓ → Option σ} {P Q : σ → ℓ → Prop} {I : σ → Prop}
  {s s' : σ} {ls ls' : List ℓ}

@[simp] theorem run_nil : run step s [] = some s := rfl

theorem run_cons {l : ℓ} : run step s (l :: ls) = (step s l).bind fun s' => run step s' ls := rfl

theorem run_cons_eq_some {l : ℓ} :
    run step s (l :: ls) = some s' ↔ ∃ t, step s l = some t ∧ run step t ls = some s' := by
  rw [run_cons, Option.bind_eq_some_iff]

theorem run_append : run step s (ls ++ ls') = (run step s ls).bind fun t => run step t ls' := by
  induction ls generalizing s with
  | nil => rfl
  | cons l ls ih =>
      rw [List.cons_append, run_cons, run_cons, Option.bind_assoc]
      congr 1
      funext t
      exact ih

theorem run_append_eq_some :
    run step s (ls ++ ls') = some s' ↔
      ∃ t, run step s ls = some t ∧ run step t ls' = some s' := by
  rw [run_append, Option.bind_eq_some_iff]

theorem run_concat_eq_some {l : ℓ} :
    run step s (ls ++ [l]) = some s' ↔ ∃ t, run step s ls = some t ∧ step t l = some s' := by
  simp only [run_append_eq_some, run_cons_eq_some, run_nil, Option.some.injEq, exists_eq_right]

theorem Along.cons {l : ℓ} (hl : P s l) (hstep : step s l = some s') (h : Along step P s' ls) :
    Along step P s (l :: ls) := by
  intro t ht
  cases hstep.symm.trans ht
  exact ⟨hl, h⟩

theorem along_append (h : run step s ls = some s') :
    Along step P s (ls ++ ls') ↔ Along step P s ls ∧ Along step P s' ls' := by
  induction ls generalizing s with
  | nil =>
      cases h
      exact ⟨fun h => ⟨trivial, h⟩, And.right⟩
  | cons l ls ih =>
      obtain ⟨t, hstep, hrun⟩ := run_cons_eq_some.mp h
      simp only [List.cons_append, Along, hstep, Option.some.injEq, forall_eq', ih hrun, and_assoc]

/-- What every step that satisfies `P` preserves, every run along `P` preserves. -/
theorem invariant_of_step (hstep : ∀ s l s', I s → P s l → step s l = some s' → I s') (hs : I s)
    (hP : Along step P s ls) (h : run step s ls = some s') : I s' := by
  induction ls generalizing s with
  | nil =>
      cases h
      exact hs
  | cons l ls ih =>
      obtain ⟨t, hl, hrun⟩ := run_cons_eq_some.mp h
      obtain ⟨hPl, hPls⟩ := hP t hl
      exact ih (hstep s l t hs hPl hl) hPls hrun

/-- Under an invariant of the steps that satisfy `P`, what holds of each of them holds
along the run. -/
theorem along_of_invariant (hstep : ∀ s l s', I s → P s l → step s l = some s' → I s' ∧ Q s l)
    (hs : I s) (hP : Along step P s ls) : Along step Q s ls := by
  induction ls generalizing s with
  | nil => trivial
  | cons l ls ih =>
      intro s' hl
      obtain ⟨hPl, hPls⟩ := hP s' hl
      obtain ⟨hI, hQ⟩ := hstep s l s' hs hPl hl
      exact ⟨hQ, ih hI hPls⟩

theorem along_true (s : σ) (ls : List ℓ) : Along step (fun _ _ => True) s ls := by
  induction ls generalizing s with
  | nil => trivial
  | cons l ls ih => exact fun s' _ => ⟨trivial, ih s'⟩

theorem Along.mono (hP : Along step P s ls) (h : ∀ s l, P s l → Q s l) : Along step Q s ls :=
  along_of_invariant (I := fun _ => True) (fun s l _ _ hl _ => ⟨trivial, h s l hl⟩) trivial hP

theorem Along.and (hP : Along step P s ls) (hQ : Along step Q s ls) :
    Along step (fun s l => P s l ∧ Q s l) s ls := by
  induction ls generalizing s with
  | nil => trivial
  | cons l ls ih =>
      intro s' hl
      obtain ⟨hPl, hPls⟩ := hP s' hl
      obtain ⟨hQl, hQls⟩ := hQ s' hl
      exact ⟨⟨hPl, hQl⟩, ih hPls hQls⟩

theorem along_of_forall {p : ℓ → Prop} (h : ∀ l ∈ ls, p l) : Along step (fun _ l => p l) s ls := by
  induction ls generalizing s with
  | nil => trivial
  | cons l ls ih =>
      obtain ⟨hl, hls⟩ := List.forall_mem_cons.mp h
      exact fun s' _ => ⟨hl, ih hls⟩

/-- A condition that can be decided at a step can be decided along a run. -/
instance Along.decidable [∀ s l, Decidable (P s l)] :
    ∀ (s : σ) (ls : List ℓ), Decidable (Along step P s ls)
  | _, [] => isTrue trivial
  | s, l :: ls =>
    match h : step s l with
    | none => isTrue fun _ h' => nomatch h.symm.trans h'
    | some t =>
      have := Along.decidable t ls
      decidable_of_iff (P s l ∧ Along step P t ls)
        ⟨fun hl _ h' => Option.some.inj (h.symm.trans h') ▸ hl, fun hl => hl t h⟩

/-- A statement about a state and the run that leads to it. -/
theorem invariant_with_run {I : List ℓ → σ → Prop} (hs : I [] s)
    (hstep : ∀ ls t l t', run step s ls = some t → I ls t → step t l = some t' → I (ls ++ [l]) t')
    (h : run step s ls = some s') : I ls s' := by
  induction ls using List.reverseRecOn generalizing s' with
  | nil =>
      cases h
      exact hs
  | append_singleton ls l ih =>
      obtain ⟨t, hrun, hl⟩ := run_concat_eq_some.mp h
      exact hstep ls t l s' hrun (ih hrun) hl

/-- What every step preserves, every run preserves. -/
theorem invariant (hstep : ∀ s l s', I s → step s l = some s' → I s') (hs : I s)
    (h : run step s ls = some s') : I s' :=
  invariant_of_step (fun s l s' hI _ => hstep s l s' hI) hs (along_true s ls) h

end

end Machine
end Vaux
