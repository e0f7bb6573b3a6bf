import Mathlib.Data.Finset.Card
import Mathlib.Data.Nat.Find
import Mathlib.Logic.Function.Iterate

/-!
# Loops that count their rounds

`while test x { x = body x }` as a relation between the value the loop is entered with,
the number of its rounds and the value it ends with.  A loop over values that it does not
meet twice ends after at most as many rounds as there are values that pass its test.
-/

namespace Vaux
namespace Machine

section

variable {α : Type*} (test : α → Prop) (body : α → α)

/-- Entered with `x`, the loop ends with `y` after `n` rounds. -/
inductive Ends : α → Nat → α → Prop
  | exit {x : α} (h : ¬ test x) : Ends x 0 x
  | round {x y : α} {n : Nat} (h : test x) (hrest : Ends (body x) n y) : Ends x (n + 1) y

end

section

variable {α : Type*} {test : α → Prop} {body : α → α} {x y y' : α} {n n' : Nat}

/-- The rounds pass values that satisfy the test, up to the first that does not. -/
theorem ends_iff :
    Ends test body x n y ↔ y = body^[n] x ∧ ¬ test y ∧ ∀ j < n, test (body^[j] x) := by
  constructor
  · intro h
    induction h with
    | exit h => exact ⟨rfl, h, fun j hj => absurd hj (Nat.not_lt_zero j)⟩
    | round h _ ih =>
        obtain ⟨hy, hexit, hpassed⟩ := ih
        refine ⟨hy, hexit, fun j hj => ?_⟩
        cases j with
        | zero => exact h
        | succ j => exact hpassed j (Nat.lt_of_succ_lt_succ hj)
  · rintro ⟨rfl, hexit, hpassed⟩
    induction n generalizing x with
    | zero => exact .exit hexit
    | succ n ih =>
        exact .round (hpassed 0 (Nat.succ_pos n))
          (ih hexit fun j hj => hpassed (j + 1) (Nat.succ_lt_succ hj))

theorem Ends.unique (h : Ends test body x n y) (h' : Ends test body x n' y') : n = n' ∧ y = y' := by
  induction h generalizing n' with
  | exit hexit =>
      cases h' with
      | exit _ => exact ⟨rfl, rfl⟩
      | round hpass _ => exact absurd hpass hexit
  | round hpass _ ih =>
      cases h' with
      | exit hexit => exact absurd hpass hexit
      | round _ hrest =>
          obtain ⟨rfl, rfl⟩ := ih hrest
          exact ⟨rfl, rfl⟩

/-- The values that pass the test cannot take up more rounds than there are of them. -/
theorem exists_ends {busy : Finset α} (hbusy : ∀ z, test z → z ∈ busy)
    (hinj : Set.InjOn (fun j => body^[j] x) {j | j ≤ busy.card}) :
    ∃ n ≤ busy.card, Ends test body x n (body^[n] x) := by
  classical
  have hsome : ∃ j, j ≤ busy.card ∧ ¬ test (body^[j] x) := by
    by_contra hall
    have hpassed : ∀ j ≤ busy.card, test (body^[j] x) := by
      intro j hj
      by_contra hexit
      exact hall ⟨j, hj, hexit⟩
    have hmaps : ∀ j ∈ Finset.range (busy.card + 1), body^[j] x ∈ busy := fun j hj =>
      hbusy _ (hpassed j (Nat.lt_succ_iff.mp (Finset.mem_range.mp hj)))
    have hle := Finset.card_le_card_of_injOn _ hmaps fun i hi j hj hij =>
      hinj (Nat.lt_succ_iff.mp (Finset.mem_range.mp hi))
        (Nat.lt_succ_iff.mp (Finset.mem_range.mp hj)) hij
    rw [Finset.card_range] at hle
    exact absurd hle (Nat.not_succ_le_self _)
  obtain ⟨hle, hexit⟩ := Nat.find_spec hsome
  refine ⟨Nat.find hsome, hle, ends_iff.mpr ⟨rfl, hexit, fun j hj => ?_⟩⟩
  by_contra hearly
  exact Nat.find_min hsome hj ⟨hj.le.trans hle, hearly⟩

end

end Machine
end Vaux
