import Mathlib.Data.Finset.Insert

/-!
# Choosing releases that need each other

A problem says what the roots require, which releases are offered for a key, and what each
release needs of other keys. A selection gives some of the keys a release. It solves the
problem when everything that the roots and the selected releases require is met, nothing is
selected without a reason, and no key needs itself. A search builds a selection up from the
empty one, where each key is selected because something already requires it.
-/

/-- What the roots require, what is offered, and what the offered releases need. -/
structure DependencyProblem (Key Release Req : Type*) where
  root : Key → Req → Prop
  offered : Key → Release → Prop
  needs : Release → Key → Req → Prop
  met : Req → Release → Prop

namespace DependencyProblem

open Function

variable {Key Release Req : Type*} (problem : DependencyProblem Key Release Req)

/-- Something is required of the key, by a root or by a selected release. -/
def Required (selected : Key → Option Release) (key : Key) (req : Req) : Prop :=
  problem.root key req ∨
    ∃ other release, selected other = some release ∧ problem.needs release key req

/-- The key is required by a root, or by a selected release at a key that can be reached. -/
inductive Reachable (selected : Key → Option Release) : Key → Prop
  | root {key : Key} (req : Req) (hroot : problem.root key req) :
      Reachable selected key
  | needed {key other : Key} {release : Release} (hreach : Reachable selected other)
      (hsel : selected other = some release) (req : Req)
      (hneeds : problem.needs release key req) : Reachable selected key

/-- The release selected at the first key needs the second key. -/
def DependsOn (selected : Key → Option Release) (key next : Key) : Prop :=
  ∃ release, selected key = some release ∧ ∃ req, problem.needs release next req

def Acyclic (selected : Key → Option Release) : Prop :=
  ∀ key, ¬ Relation.TransGen (problem.DependsOn selected) key key

structure Solves (selected : Key → Option Release) : Prop where
  roots : ∀ key req, problem.root key req →
    ∃ release, selected key = some release ∧ problem.met req release
  dependencies : ∀ key release, selected key = some release → ∀ next req,
    problem.needs release next req → ∃ other, selected next = some other ∧ problem.met req other
  offered : ∀ key release, selected key = some release → problem.offered key release
  reachable : ∀ key release, selected key = some release → problem.Reachable selected key
  acyclic : problem.Acyclic selected

/-- A selection in which every release is offered and has been asked for. -/
structure Justified (selected : Key → Option Release) : Prop where
  offered : ∀ key release, selected key = some release → problem.offered key release
  reachable : ∀ key release, selected key = some release → problem.Reachable selected key

/-- Everything that is selected is selected in the larger selection too. -/
def Extends (selected larger : Key → Option Release) : Prop :=
  ∀ key release, selected key = some release → larger key = some release

variable {problem} {selected larger : Key → Option Release} {key : Key}

theorem Reachable.mono (hext : Extends selected larger)
    (hreach : problem.Reachable selected key) : problem.Reachable larger key := by
  induction hreach with
  | root req hroot => exact .root req hroot
  | needed _ hsel req hneeds ih =>
    exact .needed ih (hext _ _ hsel) req hneeds

theorem Acyclic.of_extends (hext : Extends selected larger)
    (hacyclic : problem.Acyclic larger) : problem.Acyclic selected := by
  intro key hcycle
  apply hacyclic key
  have hmono : problem.DependsOn selected ≤ problem.DependsOn larger := by
    rintro first second ⟨release, hsel, hneeds⟩
    exact ⟨release, hext first release hsel, hneeds⟩
  exact Relation.TransGen.mono hmono key key hcycle

variable {release : Release}

theorem extends_update [DecidableEq Key] (hnew : selected key = none) :
    Extends selected (Function.update selected key (some release)) := by
  intro other found hfound
  have hne : other ≠ key := by
    rintro rfl
    simp [hnew] at hfound
  rwa [update_of_ne hne]

theorem Extends.update [DecidableEq Key] (hext : Extends selected larger)
    (hkey : larger key = some release) :
    Extends (Function.update selected key (some release)) larger := by
  intro other found hfound
  by_cases heq : other = key
  · subst heq
    rw [update_self] at hfound
    rwa [← hfound]
  · rw [update_of_ne heq] at hfound
    exact hext other found hfound

variable {req : Req}

/-- What a new release adds to the requirements is what it needs. -/
theorem required_update [DecidableEq Key] (hnew : selected key = none) {other : Key} :
    problem.Required (Function.update selected key (some release)) other req ↔
      problem.Required selected other req ∨ problem.needs release other req := by
  constructor
  · rintro (hroot | ⟨src, found, hfound, hneeds⟩)
    · exact .inl (.inl hroot)
    · by_cases heq : src = key
      · subst heq
        obtain rfl : release = found := by simpa using hfound
        exact .inr hneeds
      · rw [update_of_ne heq] at hfound
        exact .inl (.inr ⟨src, found, hfound, hneeds⟩)
  · rintro ((hroot | ⟨src, found, hfound, hneeds⟩) | hneeds)
    · exact .inl hroot
    · exact .inr ⟨src, found, extends_update hnew src found hfound, hneeds⟩
    · exact .inr ⟨key, release, update_self key _ _, hneeds⟩

namespace Justified

theorem empty : problem.Justified fun _ => none := ⟨by simp, by simp⟩

theorem reachable_of_required (hjust : problem.Justified selected)
    (hreq : problem.Required selected key req) :
    problem.Reachable selected key := by
  rcases hreq with hroot | ⟨other, release, hsel, hneeds⟩
  · exact .root req hroot
  · exact .needed (hjust.reachable other release hsel) hsel req hneeds

/-- An offered release may be selected at a key that something requires. -/
theorem update [DecidableEq Key] (hjust : problem.Justified selected)
    (hreq : problem.Required selected key req) (hnew : selected key = none)
    (hoffered : problem.offered key release) :
    problem.Justified (Function.update selected key (some release)) where
  offered := by
    intro other found hfound
    by_cases heq : other = key
    · subst heq
      obtain rfl : release = found := by simpa using hfound
      exact hoffered
    · rw [update_of_ne heq] at hfound
      exact hjust.offered other found hfound
  reachable := by
    intro other found hfound
    apply Reachable.mono (extends_update hnew)
    by_cases heq : other = key
    · exact heq ▸ hjust.reachable_of_required hreq
    · rw [update_of_ne heq] at hfound
      exact hjust.reachable other found hfound

theorem exists_required (hjust : problem.Justified selected) (hsel : selected key = some release) :
    ∃ req, problem.Required selected key req := by
  cases hjust.reachable key release hsel with
  | root req hroot => exact ⟨req, .inl hroot⟩
  | needed _ hother req hneeds => exact ⟨req, .inr ⟨_, _, hother, hneeds⟩⟩

/-- A justified selection that meets what is required of it is a solution. -/
theorem solves (hjust : problem.Justified selected)
    (hmet : ∀ key req, problem.Required selected key req →
      ∃ release, selected key = some release ∧ problem.met req release)
    (hacyclic : problem.Acyclic selected) : problem.Solves selected where
  roots key req hroot := hmet key req (.inl hroot)
  dependencies key release hsel next req hneeds := hmet next req (.inr ⟨key, release, hsel, hneeds⟩)
  offered := hjust.offered
  reachable := hjust.reachable
  acyclic := hacyclic

end Justified

theorem Solves.met_of_required (hsolves : problem.Solves larger)
    (hext : Extends selected larger) (hreq : problem.Required selected key req) :
    ∃ release, larger key = some release ∧ problem.met req release := by
  rcases hreq with hroot | ⟨other, release, hsel, hneeds⟩
  · exact hsolves.roots key req hroot
  · exact hsolves.dependencies other release (hext other release hsel) key req hneeds

/-- There is a solution that keeps everything that has been selected. -/
def Solvable (problem : DependencyProblem Key Release Req)
    (selected : Key → Option Release) : Prop :=
  ∃ larger, problem.Solves larger ∧ Extends selected larger

/-- The release is offered for the key and meets what is required of it so far, what it needs
is offered, and the problem is still solvable when it is selected. -/
structure Promising [DecidableEq Key] (problem : DependencyProblem Key Release Req)
    (selected : Key → Option Release) (key : Key) (release : Release) : Prop where
  offered : problem.offered key release
  met : ∀ req, problem.Required selected key req → problem.met req release
  needs : ∀ next req, problem.needs release next req → ∃ other, problem.offered next other
  solvable : problem.Solvable (Function.update selected key (some release))

/-- A release that some solution selects beside what has been selected is promising. -/
theorem Solves.promising [DecidableEq Key] (hsolves : problem.Solves larger)
    (hext : Extends selected larger) (hkey : larger key = some release) :
    problem.Promising selected key release where
  offered := hsolves.offered key release hkey
  met := by
    intro req hreq
    obtain ⟨found, hfound, hmet⟩ := hsolves.met_of_required hext hreq
    obtain rfl : release = found := by simpa [hkey] using hfound
    exact hmet
  needs := by
    intro next req hneeds
    obtain ⟨found, hfound, _⟩ := hsolves.dependencies key release hkey next req hneeds
    exact ⟨found, hsolves.offered next found hfound⟩
  solvable := ⟨larger, hsolves, hext.update hkey⟩

/-- A key that something requires has a promising release as long as the problem is solvable. -/
theorem Solvable.exists_promising [DecidableEq Key] (hsolvable : problem.Solvable selected)
    (hreq : problem.Required selected key req) :
    ∃ release, problem.Promising selected key release := by
  obtain ⟨larger, hsolves, hext⟩ := hsolvable
  obtain ⟨release, hrel, _⟩ := hsolves.met_of_required hext hreq
  exact ⟨release, hsolves.promising hext hrel⟩

/-- What is selected in a solvable selection meets what is required of it. -/
theorem Solvable.met (hsolvable : problem.Solvable selected) (hsel : selected key = some release)
    (hreq : problem.Required selected key req) :
    problem.met req release := by
  obtain ⟨larger, hsolves, hext⟩ := hsolvable
  obtain ⟨found, hfound, hmet⟩ := hsolves.met_of_required hext hreq
  obtain rfl : release = found := by simpa [hext key release hsel] using hfound
  exact hmet

theorem Solvable.acyclic (hsolvable : problem.Solvable selected) : problem.Acyclic selected := by
  obtain ⟨larger, hsolves, hext⟩ := hsolvable
  exact hsolves.acyclic.of_extends hext

/-! ## Problems that offer more -/

/-- The second problem offers all that the first one does, and is the same otherwise. -/
structure Widens (problem wider : DependencyProblem Key Release Req) : Prop where
  root_eq : problem.root = wider.root
  needs_eq : problem.needs = wider.needs
  met_eq : problem.met = wider.met
  offered : ∀ key release, problem.offered key release → wider.offered key release

namespace Widens

variable {wider : DependencyProblem Key Release Req} (hwidens : problem.Widens wider)

include hwidens

theorem reachable : problem.Reachable selected key ↔ wider.Reachable selected key := by
  constructor
  · intro hreach
    induction hreach with
    | root req hroot => exact .root req (hwidens.root_eq ▸ hroot)
    | needed _ hsel req hneeds ih =>
      exact .needed ih hsel req (hwidens.needs_eq ▸ hneeds)
  · intro hreach
    induction hreach with
    | root req hroot => exact .root req (hwidens.root_eq ▸ hroot)
    | needed _ hsel req hneeds ih =>
      exact .needed ih hsel req (hwidens.needs_eq ▸ hneeds)

theorem acyclic : problem.Acyclic selected ↔ wider.Acyclic selected := by
  have hdepends : problem.DependsOn selected = wider.DependsOn selected := by
    unfold DependsOn
    rw [hwidens.needs_eq]
  rw [Acyclic, Acyclic, hdepends]

theorem justified (hjust : problem.Justified selected) : wider.Justified selected where
  offered key release hsel := hwidens.offered key release (hjust.offered key release hsel)
  reachable key release hsel := hwidens.reachable.mp (hjust.reachable key release hsel)

/-- A solution of the wider problem solves the other one if what it selects is offered there. -/
theorem solves_iff : problem.Solves selected ↔ wider.Solves selected ∧
    ∀ key release, selected key = some release → problem.offered key release := by
  constructor
  · intro hsolves
    refine ⟨⟨?_, ?_, ?_, ?_, ?_⟩, hsolves.offered⟩
    · rw [← hwidens.root_eq, ← hwidens.met_eq]
      exact hsolves.roots
    · rw [← hwidens.needs_eq, ← hwidens.met_eq]
      exact hsolves.dependencies
    · intro key release hsel
      exact hwidens.offered key release (hsolves.offered key release hsel)
    · intro key release hsel
      exact hwidens.reachable.mp (hsolves.reachable key release hsel)
    · exact hwidens.acyclic.mp hsolves.acyclic
  · rintro ⟨hsolves, hoffered⟩
    refine ⟨?_, ?_, hoffered, ?_, ?_⟩
    · rw [hwidens.root_eq, hwidens.met_eq]
      exact hsolves.roots
    · rw [hwidens.needs_eq, hwidens.met_eq]
      exact hsolves.dependencies
    · intro key release hsel
      exact hwidens.reachable.mpr (hsolves.reachable key release hsel)
    · exact hwidens.acyclic.mpr hsolves.acyclic

end Widens

end DependencyProblem
