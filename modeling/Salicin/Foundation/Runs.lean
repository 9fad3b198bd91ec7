import Mathlib.Control.Lawful

/-!
# Computations that end in the same way

A run changes a world; it does not end, or leaves early, or comes to a result. Two runs match
when they end in the same way in the same world, with related results.
-/

namespace Runs

/-- A computation that changes the world. -/
abbrev Run (World Exit Result : Type) := ExceptT Exit (StateT World Option) Result

variable {World Exit First Second First' Second' : Type}

theorem bind_run (first : Run World Exit First) (next : First → Run World Exit Second)
    (world : World) : (first >>= next) world =
      match first world with
      | none => none
      | some (.error exit, after) => some (.error exit, after)
      | some (.ok res, after) => next res after := by
  simp only [bind, ExceptT.bind, ExceptT.mk, StateT.bind]
  cases first world with
  | none => rfl
  | some outcome =>
    obtain ⟨res, after⟩ := outcome
    cases res <;> rfl

theorem pure_run (res : First) (world : World) :
    (pure res : Run World Exit First) world = some (.ok res, world) := rfl

variable {first : Run World Exit First}

theorem bind_run_of_eq {world after : World} {res : First}
    (hfst : first world = some (.ok res, after)) (next : First → Run World Exit Second) :
    (first >>= next) world = next res after := by
  rw [bind_run, hfst]

/-- A run of two parts that comes to a result comes to one in each part. -/
theorem bind_run_eq_ok {next : First → Run World Exit Second} {world after : World}
    {res : Second} (hrun : (first >>= next) world = some (.ok res, after)) :
    ∃ middle between, first world = some (.ok middle, between) ∧
      next middle between = some (.ok res, after) := by
  rw [bind_run] at hrun
  cases hfst : first world with
  | none => simp [hfst] at hrun
  | some outcome =>
    obtain ⟨middle, between⟩ := outcome
    cases middle with
    | error exit => simp [hfst] at hrun
    | ok middle =>
      rw [hfst] at hrun
      exact ⟨middle, between, rfl, hrun⟩

/-- Two outcomes of the same kind in the same world, with related results. -/
inductive Matches (relation : First → Second → World → Prop) :
    Option (Except Exit First × World) → Option (Except Exit Second × World) → Prop
  | endless : Matches relation none none
  | exited (exit : Exit) (after : World) :
      Matches relation (some (.error exit, after)) (some (.error exit, after))
  | returned {first : First} {second : Second} {after : World}
      (hrel : relation first second after) :
      Matches relation (some (.ok first, after)) (some (.ok second, after))

theorem Matches.refl {relation : First → First → World → Prop}
    (hrefl : ∀ res after, relation res res after)
    (outcome : Option (Except Exit First × World)) : Matches relation outcome outcome := by
  cases outcome with
  | none => exact .endless
  | some outcome =>
    obtain ⟨res, after⟩ := outcome
    cases res with
    | error exit => exact .exited exit after
    | ok res => exact .returned (hrefl res after)

theorem Matches.bind {relation : First → Second → World → Prop}
    {relation' : First' → Second' → World → Prop} {second : Run World Exit Second}
    {next : First → Run World Exit First'} {next' : Second → Run World Exit Second'} {world : World}
    (hmatches : Matches relation (first world) (second world))
    (hnext : ∀ res res' after, first world = some (.ok res, after) →
      relation res res' after → Matches relation' (next res after) (next' res' after)) :
    Matches relation' ((first >>= next) world) ((second >>= next') world) := by
  rw [bind_run, bind_run]
  generalize hfst : first world = outcome at hmatches hnext
  generalize second world = outcome' at hmatches
  cases hmatches with
  | endless => exact .endless
  | exited exit after => exact .exited exit after
  | returned hrel => exact hnext _ _ _ rfl hrel

theorem Matches.eq {outcome outcome' : Option (Except Exit First × World)}
    (hmatches : Matches (fun res res' _ => res = res') outcome outcome') :
    outcome = outcome' := by
  cases hmatches with
  | endless => rfl
  | exited exit after => rfl
  | returned hrel => rw [hrel]

end Runs
