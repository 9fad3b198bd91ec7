import Mathlib.Order.Basic

/-!
# Stamped states

A machine whose steps leave the state as it is or raise its stamp. In a run of such a machine the
stamp tells the states apart.
-/

namespace Stamps

variable {State Action : Type*}

/-- A step does nothing or raises the stamp. -/
def Stamped (step : State → Action → State) (stamp : State → Nat) : Prop :=
  ∀ state action, step state action = state ∨ stamp state < stamp (step state action)

variable {step : State → Action → State} {stamp : State → Nat}

theorem Stamped.le_foldl (hstamped : Stamped step stamp) (actions : List Action)
    (state : State) : stamp state ≤ stamp (actions.foldl step state) := by
  induction actions generalizing state with
  | nil => exact Nat.le_refl _
  | cons action rest ih =>
    rw [List.foldl_cons]
    rcases hstamped state action with heq | hlt
    · rw [heq]
      exact ih state
    · exact Nat.le_trans (Nat.le_of_lt hlt) (ih _)

theorem Stamped.foldl_eq (hstamped : Stamped step stamp) {actions : List Action} {state : State}
    (hstamp : stamp (actions.foldl step state) = stamp state) :
    actions.foldl step state = state := by
  induction actions generalizing state with
  | nil => rfl
  | cons action rest ih =>
    rw [List.foldl_cons] at hstamp ⊢
    rcases hstamped state action with heq | hlt
    · rw [heq] at hstamp ⊢
      exact ih hstamp
    · have hle := hstamped.le_foldl rest (step state action)
      rw [hstamp] at hle
      exact absurd hlt (Nat.not_lt_of_le hle)

end Stamps
