import Mathlib.Data.List.Basic
import Mathlib.Order.Basic

/-!
# One step of a backtracking search

The candidates for a choice are tried in turn. A trial that fails leaves its error behind and
the next candidate has its turn; a trial that returns ends the step.
-/

namespace Backtracking

open List

variable {Candidate State Solution Error : Type*}

/-- What the trial of a candidate comes to. -/
inductive Trial (Solution Error : Type*)
  | skipped
  | failed (error : Error)
  | returned (result : Except Error Solution)

/-- Try the candidates in turn. The error of the last failed trial is the error of the step;
if no trial has failed, it is the fallback. -/
def tryEach (trial : Candidate → State → Option (Trial Solution Error × State))
    (fallback : Error) :
    List Candidate → Option Error → State → Option (Except Error Solution × State)
  | [], final, state => some (.error (final.getD fallback), state)
  | cand :: rest, final, state =>
    match trial cand state with
    | none => none
    | some (.skipped, state) => tryEach trial fallback rest final state
    | some (.failed error, state) => tryEach trial fallback rest (some error) state
    | some (.returned result, state) => some (result, state)

/-- The trial of the candidate, made in some state, gives the turn to the next candidate. -/
def GivesUp (trial : Candidate → State → Option (Trial Solution Error × State))
    (cand : Candidate) : Prop :=
  ∃ state after, trial cand state = some (.skipped, after) ∨
    ∃ error, trial cand state = some (.failed error, after)

/-- A step comes to what some trial returns, unless all the candidates give up. -/
inductive Step (trial : Candidate → State → Option (Trial Solution Error × State))
    (cands : List Candidate) (error : Error → Prop) : Except Error Solution → State → Prop
  | returned (cand : Candidate) (hmem : cand ∈ cands) (state after : State)
      (result : Except Error Solution)
      (htrial : trial cand state = some (.returned result, after)) :
      Step trial cands error result after
  | exhausted (last : Error) (hlast : error last)
      (hall : ∀ cand ∈ cands, GivesUp trial cand) (after : State) :
      Step trial cands error (.error last) after

variable {trial : Candidate → State → Option (Trial Solution Error × State)}
  {cands : List Candidate} {fallback : Error} {final : Option Error}

/-- If no trial breaks off, the step comes to a result. The errors that the trials leave
behind and the fallback have a property in common. -/
theorem tryEach_step (error : Error → Prop)
    (htotal : ∀ cand ∈ cands, ∀ state, ∃ result, trial cand state = some result)
    (hfailed : ∀ cand ∈ cands, ∀ state last after,
      trial cand state = some (.failed last, after) → error last) (hfallback : error fallback)
    (hfinal : ∀ last, final = some last → error last) (state : State) :
    ∃ result after, tryEach trial fallback cands final state = some (result, after) ∧
      Step trial cands error result after := by
  induction cands generalizing final state with
  | nil =>
    refine ⟨_, state, rfl, .exhausted _ ?_ (by simp) state⟩
    cases final with
    | none => exact hfallback
    | some last => exact hfinal last rfl
  | cons cand rest ih =>
    -- The rest of the candidates is tried after this one has given up.
    have hnext : ∀ {final : Option Error}, (∀ last, final = some last → error last) → ∀ state,
        GivesUp trial cand →
        ∃ result after, tryEach trial fallback rest final state = some (result, after) ∧
          Step trial (cand :: rest) error result after := by
      intro final hfinal state hgives
      obtain ⟨result, after, hres, hstep⟩ :=
        ih (fun other hother => htotal other (mem_cons_of_mem _ hother))
          (fun other hother => hfailed other (mem_cons_of_mem _ hother)) hfinal state
      refine ⟨result, after, hres, ?_⟩
      cases hstep with
      | returned other hmem before after result htrial =>
        exact .returned other (mem_cons_of_mem _ hmem) before after result htrial
      | exhausted last hlast hall =>
        exact .exhausted last hlast (forall_mem_cons.mpr ⟨hgives, hall⟩) after
    obtain ⟨⟨outcome, after⟩, htrial⟩ := htotal cand mem_cons_self state
    unfold tryEach
    rw [htrial]
    cases outcome with
    | skipped => exact hnext hfinal after ⟨state, after, .inl htrial⟩
    | failed last =>
      have hlast := hfailed cand mem_cons_self state last after htrial
      apply hnext _ after ⟨state, after, .inr ⟨last, htrial⟩⟩
      intro other hother
      cases hother
      exact hlast
    | returned result =>
      exact ⟨result, after, rfl, .returned cand mem_cons_self state after result htrial⟩

variable {state : State}

theorem tryEach_eq_ok {after : State} {solution : Solution}
    (hres : tryEach trial fallback cands final state = some (.ok solution, after)) :
    ∃ cand ∈ cands, ∃ before,
      trial cand before = some (.returned (.ok solution), after) := by
  induction cands generalizing final state with
  | nil => simp [tryEach] at hres
  | cons cand rest ih =>
    have hlater : (∃ cand ∈ rest, ∃ before,
        trial cand before = some (.returned (.ok solution), after)) →
        ∃ other ∈ cand :: rest, ∃ before,
          trial other before = some (.returned (.ok solution), after) := by
      rintro ⟨other, hmem, before, htrial⟩
      exact ⟨other, mem_cons_of_mem _ hmem, before, htrial⟩
    unfold tryEach at hres
    split at hres
    · contradiction
    · exact hlater (ih hres)
    · exact hlater (ih hres)
    · next result reached htrial =>
        obtain ⟨rfl, rfl⟩ : result = .ok solution ∧ reached = after := by simpa using hres
        exact ⟨cand, mem_cons_self, state, htrial⟩

/-- If no trial goes back to an earlier state, the step does not either. -/
theorem tryEach_le [Preorder State] (hle : ∀ cand ∈ cands, ∀ before outcome after,
      trial cand before = some (outcome, after) → before ≤ after) {after : State}
    {result : Except Error Solution}
    (hres : tryEach trial fallback cands final state = some (result, after)) :
    state ≤ after := by
  induction cands generalizing final state with
  | nil =>
    obtain ⟨_, rfl⟩ : _ ∧ state = after := by simpa [tryEach] using hres
    exact le_rfl
  | cons cand rest ih =>
    have hrest : ∀ other ∈ rest, ∀ before outcome after,
        trial other before = some (outcome, after) → before ≤ after :=
      fun other hother => hle other (mem_cons_of_mem _ hother)
    unfold tryEach at hres
    split at hres
    · contradiction
    · next reached htrial =>
        exact (hle cand mem_cons_self state _ reached htrial).trans (ih hrest hres)
    · next error reached htrial =>
        exact (hle cand mem_cons_self state _ reached htrial).trans (ih hrest hres)
    · next found reached htrial =>
        obtain ⟨rfl, rfl⟩ : found = result ∧ reached = after := by simpa using hres
        exact hle cand mem_cons_self state _ reached htrial

/-! ## Two searches over the same candidates -/

variable {other : Candidate → State → Option (Trial Solution Error × State)}

/-- The candidates are tried from a state, and the turn of a candidate comes at a later state. -/
inductive Turn (trial : Candidate → State → Option (Trial Solution Error × State)) :
    List Candidate → State → Candidate → State → Prop
  | here (cand : Candidate) (rest : List Candidate) (state : State) :
      Turn trial (cand :: rest) state cand state
  | skipped {cand chosen : Candidate} {rest : List Candidate} {state after reached : State}
      (htrial : trial cand state = some (.skipped, after))
      (hturn : Turn trial rest after chosen reached) :
      Turn trial (cand :: rest) state chosen reached
  | failed {cand chosen : Candidate} {rest : List Candidate} {state after reached : State}
      (error : Error) (htrial : trial cand state = some (.failed error, after))
      (hturn : Turn trial rest after chosen reached) :
      Turn trial (cand :: rest) state chosen reached

theorem Turn.mem {reached : State} {chosen : Candidate}
    (hturn : Turn trial cands state chosen reached) : chosen ∈ cands := by
  induction hturn with
  | here => exact mem_cons_self
  | skipped _ _ ih => exact mem_cons_of_mem _ ih
  | failed _ _ _ ih => exact mem_cons_of_mem _ ih

/-- The trial gives the turn to the next candidate, or it returns a result of some kind. -/
inductive GivesUpOr (target : Except Error Solution → Prop) :
    Trial Solution Error × State → Prop
  | skipped (after : State) : GivesUpOr target (.skipped, after)
  | failed (error : Error) (after : State) : GivesUpOr target (.failed error, after)
  | returned (result : Except Error Solution) (htgt : target result) (after : State) :
      GivesUpOr target (.returned result, after)

/-- If the other search returns a result of some kind at a candidate that has its turn, and where
it does not give up the candidates before, then this is the kind of its result. -/
theorem tryEach_of_turn (target : Except Error Solution → Prop) {reached : State}
    {chosen : Candidate} (hturn : Turn trial cands state chosen reached)
    (hgives : ∀ cand ∈ cands, GivesUp trial cand → ∀ state, ∃ outcome,
      other cand state = some outcome ∧ GivesUpOr target outcome)
    (hchosen : ∀ state, ∃ result after, other chosen state = some (.returned result, after) ∧
      target result) (final : Option Error) (start : State) :
    ∃ result after, tryEach other fallback cands final start = some (result, after) ∧
      target result := by
  induction hturn generalizing final start with
  | here cand rest state =>
    obtain ⟨result, after, hres, htgt⟩ := hchosen start
    exact ⟨result, after, by simp [tryEach, hres], htgt⟩
  | @skipped cand chosen rest state after reached htrial hrest ih =>
    obtain ⟨outcome, hout, hkind⟩ := hgives cand mem_cons_self ⟨state, after, .inl htrial⟩ start
    have hrest := ih (fun other hother => hgives other (mem_cons_of_mem _ hother)) hchosen
    unfold tryEach
    rw [hout]
    cases hkind with
    | skipped after => exact hrest final after
    | failed error after => exact hrest (some error) after
    | returned result htgt after => exact ⟨result, after, rfl, htgt⟩
  | @failed cand chosen rest state after reached error htrial hrest ih =>
    obtain ⟨outcome, hout, hkind⟩ :=
      hgives cand mem_cons_self ⟨state, after, .inr ⟨error, htrial⟩⟩ start
    have hrest := ih (fun other hother => hgives other (mem_cons_of_mem _ hother)) hchosen
    unfold tryEach
    rw [hout]
    cases hkind with
    | skipped after => exact hrest final after
    | failed error after => exact hrest (some error) after
    | returned result htgt after => exact ⟨result, after, rfl, htgt⟩

section

variable (related : State → State → Prop) (conflict : Error → Prop)
  (escapes : Except Error Solution → Prop)

/-- The second search comes to the same solution as the first, or both to a conflict, unless the
second escapes. -/
inductive Follows : Except Error Solution × State → Except Error Solution × State → Prop
  | solved (solution : Solution) {state reached : State} (hrel : related state reached) :
      Follows (.ok solution, state) (.ok solution, reached)
  | conflicts {error last : Error} (herror : conflict error) (hlast : conflict last)
      {state reached : State} (hrel : related state reached) :
      Follows (.error error, state) (.error last, reached)
  | escaped {result found : Except Error Solution} (hescapes : escapes found)
      {state reached : State} : Follows (result, state) (found, reached)

/-- The trials of the second search come to what those of the first do, unless it escapes. -/
inductive FollowsTrial : Trial Solution Error × State → Trial Solution Error × State → Prop
  | skipped {state reached : State} (hrel : related state reached) :
      FollowsTrial (.skipped, state) (.skipped, reached)
  | failed {error last : Error} (herror : conflict error) (hlast : conflict last)
      {state reached : State} (hrel : related state reached) :
      FollowsTrial (.failed error, state) (.failed last, reached)
  | solved (solution : Solution) {state reached : State} (hrel : related state reached) :
      FollowsTrial (.returned (.ok solution), state) (.returned (.ok solution), reached)
  | escaped {outcome : Trial Solution Error} {found : Except Error Solution}
      (hescapes : escapes found) {state reached : State} :
      FollowsTrial (outcome, state) (.returned found, reached)

variable {related conflict escapes}

theorem tryEach_follows {reached : State}
    (htrials : ∀ cand before, Turn trial cands state cand before →
      ∀ start, related before start → ∃ outcome found, trial cand before = some outcome ∧
        other cand start = some found ∧ FollowsTrial related conflict escapes outcome found)
    (htotal : ∀ cand ∈ cands, ∀ before, ∃ outcome, trial cand before = some outcome)
    (hfallback : conflict fallback) {last : Option Error}
    (hfinal : ∀ error, final = some error → conflict error)
    (hlast : ∀ error, last = some error → conflict error) (hrel : related state reached) :
    ∃ result found, tryEach trial fallback cands final state = some result ∧
      tryEach other fallback cands last reached = some found ∧
        Follows related conflict escapes result found := by
  induction cands generalizing state reached final last with
  | nil =>
    refine ⟨_, _, rfl, rfl, .conflicts ?_ ?_ hrel⟩
    · cases final with
      | none => exact hfallback
      | some error => exact hfinal error rfl
    · cases last with
      | none => exact hfallback
      | some error => exact hlast error rfl
  | cons cand rest ih =>
    obtain ⟨outcome, found, hout, hfound, hfollows⟩ :=
      htrials cand state (.here cand rest state) reached hrel
    have hrest : ∀ other ∈ rest, ∀ before, ∃ outcome, trial other before = some outcome :=
      fun other hother => htotal other (mem_cons_of_mem _ hother)
    have hsame : ∀ {error next : Error}, conflict error → some error = some next → conflict next := by
      rintro error _ herror ⟨rfl⟩
      exact herror
    cases hfollows with
    | skipped hafter =>
      simp only [tryEach, hout, hfound]
      apply ih _ hrest hfinal hlast hafter
      intro other before hturn
      exact htrials other before (.skipped hout hturn)
    | @failed error next herror hnext after start hafter =>
      simp only [tryEach, hout, hfound]
      apply ih _ hrest (fun _ => hsame herror) (fun _ => hsame hnext) hafter
      intro other before hturn
      exact htrials other before (.failed error hout hturn)
    | solved solution hafter =>
      exact ⟨_, _, by simp only [tryEach, hout], by simp only [tryEach, hfound],
        .solved solution hafter⟩
    | @escaped outcome found hescapes after start =>
      -- The other search is over; this one comes to some result all the same.
      have hsome : ∃ result after,
          tryEach trial fallback (cand :: rest) final state = some (result, after) ∧
            Step trial (cand :: rest) (fun _ => True) result after :=
        tryEach_step _ htotal (fun _ _ _ _ _ _ => trivial) trivial (fun _ _ => trivial) state
      obtain ⟨result, after, hres, _⟩ := hsome
      exact ⟨_, (found, start), hres, by simp only [tryEach, hfound], .escaped hescapes⟩

end

end Backtracking
