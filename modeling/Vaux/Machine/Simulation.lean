import Vaux.Machine.Run

/-!
# One machine seen from another

A step of one machine is a run of another, which may be empty.  The relation between the two
may speak of the labels of that run and of what it has emitted so far.
-/

namespace Vaux
namespace Machine

section

variable {σ ℓ α : Type*} (step : σ → ℓ → Option σ) (out : σ → ℓ → List α)

/-- What the steps of a run emit. -/
def emitted : σ → List ℓ → List α
  | _, [] => []
  | s, l :: ls => out s l ++ ((step s l).map fun s' => emitted s' ls).getD []

end

section

variable {σ ℓ α : Type*} {step : σ → ℓ → Option σ} {out : σ → ℓ → List α} {s s' : σ} {l : ℓ}
  {ls ls' : List ℓ}

theorem emitted_cons (h : step s l = some s') :
    emitted step out s (l :: ls) = out s l ++ emitted step out s' ls := by
  rw [emitted, h, Option.map_some, Option.getD_some]

theorem emitted_append (h : run step s ls = some s') :
    emitted step out s (ls ++ ls') = emitted step out s ls ++ emitted step out s' ls' := by
  induction ls generalizing s with
  | nil =>
      cases h
      rfl
  | cons l ls ih =>
      obtain ⟨t, hstep, hrun⟩ := run_cons_eq_some.mp h
      rw [List.cons_append, emitted_cons hstep, emitted_cons hstep, ih hrun, List.append_assoc]

theorem emitted_concat (h : run step s ls = some s') :
    emitted step out s (ls ++ [l]) = emitted step out s ls ++ out s' l := by
  rw [emitted_append h, emitted]
  cases step s' l <;> simp [emitted]

/-- If each step of a machine continues the runs of another that are related to its state,
every run of it is related to a run of the other. -/
theorem simulated_of_step {τ κ : Type*} {step' : τ → κ → Option τ} {t₀ : τ}
    {P : σ → ℓ → Prop} {R : σ → List κ → τ → Prop} (hs : R s [] t₀)
    (hstep : ∀ s l s' ks t, run step' t₀ ks = some t → R s ks t → P s l → step s l = some s' →
      ∃ ks' t', run step' t ks' = some t' ∧ R s' (ks ++ ks') t')
    (hP : Along step P s ls) (h : run step s ls = some s') :
    ∃ ks t, run step' t₀ ks = some t ∧ R s' ks t := by
  refine invariant_of_step (I := fun s => ∃ ks t, run step' t₀ ks = some t ∧ R s ks t) ?_
    ⟨[], t₀, rfl, hs⟩ hP h
  rintro s l s' ⟨ks, t, hrun, hR⟩ hl hl'
  obtain ⟨ks', t', hrun', hR'⟩ := hstep s l s' ks t hrun hR hl hl'
  exact ⟨ks ++ ks', t', run_append_eq_some.mpr ⟨t, hrun, hrun'⟩, hR'⟩

end

end Machine
end Vaux
