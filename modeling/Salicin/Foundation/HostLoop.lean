import Mathlib.Data.List.Basic

/-!
# Loops over host calls

A loop that makes at most one host call in each turn, run on the answers of the host.
-/

namespace HostLoop

variable {State Answer Result : Type*}

/-- Run a loop on the answers of the host: the result unless the loop waits for an answer, the
state, and the answers that are left. -/
def run (exit : State → Option Result) (turn : State → Answer → State × Option Result)
    (state : State) : List Answer → Option Result × State × List Answer
  | [] => (exit state, state, [])
  | answer :: answers =>
    match exit state with
    | some result => (some result, state, answer :: answers)
    | none =>
      match turn state answer with
      | (state, some result) => (some result, state, answers)
      | (state, none) => run exit turn state answers

/-- What a run on the answers comes to: it has returned after the first of them, or it has taken
all of them and waits. -/
inductive Ends (Waits : State → List Answer → Prop) (Returns : Result → State → List Answer → Prop)
    (answers : List Answer) : Option Result × State × List Answer → Prop
  | returns {result state taken rest} (htaken : taken ++ rest = answers)
      (h : Returns result state taken) : Ends Waits Returns answers (some result, state, rest)
  | waits {state} (h : Waits state answers) : Ends Waits Returns answers (none, state, [])

variable {exit : State → Option Result} {turn : State → Answer → State × Option Result}
  {Invariant : State → List Answer → Prop} {Returns : Result → State → List Answer → Prop}

theorem Ends.mono {Waits Waits' : State → List Answer → Prop}
    {Returns Returns' : Result → State → List Answer → Prop} {answers : List Answer}
    {outcome : Option Result × State × List Answer} (hends : Ends Waits Returns answers outcome)
    (hwaits : ∀ state taken, Waits state taken → Waits' state taken)
    (hreturns : ∀ result state taken, Returns result state taken → Returns' result state taken) :
    Ends Waits' Returns' answers outcome := by
  cases hends with
  | returns htaken h => exact .returns htaken (hreturns _ _ _ h)
  | waits h => exact .waits (hwaits _ _ h)

/-- A loop keeps what its turns keep. -/
theorem run_ends
    (hexit : ∀ state taken result, Invariant state taken → exit state = some result →
      Returns result state taken)
    (hnext : ∀ state taken answer, Invariant state taken → exit state = none →
      (turn state answer).2 = none → Invariant (turn state answer).1 (taken ++ [answer]))
    (hreturn : ∀ state taken answer result, Invariant state taken → exit state = none →
      (turn state answer).2 = some result →
        Returns result (turn state answer).1 (taken ++ [answer]))
    {state : State} {taken answers : List Answer} (hinvariant : Invariant state taken) :
    Ends (fun state taken => Invariant state taken ∧ exit state = none) Returns (taken ++ answers)
      (run exit turn state answers) := by
  induction answers generalizing state taken with
  | nil =>
    rw [List.append_nil, run]
    cases hres : exit state with
    | none => exact .waits ⟨hinvariant, hres⟩
    | some result =>
      exact .returns (List.append_nil _) (hexit state taken result hinvariant hres)
  | cons answer answers ih =>
    rw [run]
    cases hres : exit state with
    | some result => exact .returns rfl (hexit state taken result hinvariant hres)
    | none =>
      have hstep := hnext state taken answer hinvariant hres
      have hdone := fun result => hreturn state taken answer result hinvariant hres
      have hsplit : taken ++ answer :: answers = taken ++ [answer] ++ answers := by simp
      rcases hturn : turn state answer with ⟨next, _ | result⟩
      · rw [hturn] at hstep
        rw [hsplit]
        exact ih (hstep rfl)
      · rw [hturn] at hdone
        exact .returns hsplit.symm (hdone result rfl)

end HostLoop
