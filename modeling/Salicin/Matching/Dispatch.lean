import Salicin.Codegen.LayoutValidation
import Salicin.Matching.Patterns

/-!
# Dispatching a match

The analysis accepts a match if its arms cover all values, and the emitter makes blocks of the arms:
a chain of candidates for each tag of an enum, one chain for a tuple or a struct. A candidate with a
guard goes on to the next one where the guard is false.
-/

namespace Salicin.Matching

open Option List Codegen Source

structure HirMatchArm where
  matcher : HirMatcher
  bindings : List HirPatternBinding
  guard : Option Expr
  body : Expr

/-- The comparisons of literals stand in front of the guard of the arm. -/
def combinedGuard (conditions : List Expr) (guard : Option Expr) : Option Expr :=
  let pattern := match conditions with
    | [] => none
    | first :: rest => some (rest.foldl (fun left right => .binary left .and right) first)
  match pattern, guard with
  | some pattern, some guard => some (.binary pattern .and guard)
  | some pattern, none => some pattern
  | none, guard => guard

/-- What the analysis has of a match: its errors, which variants are covered, and the arms. The
variants of a tuple or a struct are one. -/
structure MatchLowering where
  diagnostics : List String
  covered : List Bool
  arms : List HirMatchArm

def cover (matcher : HirMatcher) (covered : List Bool) : List Bool :=
  match matcher with
  | .variant index => covered.set index true
  | .all => covered.map fun _ => true

section

variable (nominals : Nominals)

/-- The lowering of one arm, with the number of its first local. Its guard and its body are lowered
elsewhere. -/
def lowerArm (scrutinee : Ty) (access : ScrutineeAccess) (state : MatchLowering)
    (arm : MatchArm × Nat) : MatchLowering :=
  let (matcher, lowered) := lowerArmPattern nominals scrutinee access arm.1.pattern arm.2
  let guard := combinedGuard lowered.conditions arm.1.guard
  { diagnostics := state.diagnostics ++ lowered.diagnostics
    covered := if guard.isNone then cover matcher state.covered else state.covered
    arms := state.arms ++ [⟨matcher, lowered.bindings, guard, arm.1.body⟩] }

def lowerArms (scrutinee : Ty) (access : ScrutineeAccess) (variants : Nat)
    (arms : List (MatchArm × Nat)) : MatchLowering :=
  arms.foldl (lowerArm nominals scrutinee access) ⟨[], List.replicate variants false, []⟩

/-- What `lower_match_with_scrutinee` makes of a match, but for the flows and the result type. -/
def lowerMatch (scrutinee : Ty) (access : ScrutineeAccess) (arms : List (MatchArm × Nat)) :
    MatchLowering :=
  match scrutinee with
  | .enum name =>
    match nominals.layouts.enumLayout name with
    | none => ⟨[nominals.layoutError scrutinee], [], []⟩
    | some layout =>
      let state := lowerArms nominals scrutinee access layout.variants.length arms
      let missing := ((layout.variants.zip state.covered).filter fun (_, covered) =>
        !covered).map fun (variant, _) => variant.name
      { state with diagnostics := state.diagnostics ++
          (if missing.isEmpty then [] else [s!"match on `{name}` is not exhaustive; missing " ++
            ", ".intercalate missing]) ++
          (if arms.isEmpty ∧ layout.variants.isEmpty = false then
            ["match must contain at least one arm"] else []) }
  | .tuple _ | .struct _ =>
    let state := lowerArms nominals scrutinee access 1 arms
    let aggregateName := match scrutinee with
      | .struct name => s!"struct `{name}`"
      | _ => "tuple"
    { state with diagnostics := state.diagnostics ++
        if state.covered.all id then [] else [s!"match on {aggregateName} is not exhaustive; " ++
          "add an unguarded aggregate, wildcard, or binding arm"] }
  | _ => ⟨[s!"match currently requires an enum value, found " ++
      s!"`{nominals.display scrutinee}`"], [], []⟩

end

/-- The matcher is for values of the variant. -/
def HirMatcher.Covers (matcher : HirMatcher) (variant : Nat) : Prop :=
  matcher = .all ∨ matcher = .variant variant

instance (matcher : HirMatcher) (variant : Nat) : Decidable (matcher.Covers variant) :=
  inferInstanceAs (Decidable (_ ∨ _))

/-! ## Emission -/

/-- The labels of the blocks of a match, by what they are made for. -/
inductive Label
  | entry
  | candidate (variant position : Nat)
  | body (variant position : Nat)
  | invalid
  | merge
  deriving DecidableEq

/-- A step of an arm, by the position of the arm. -/
inductive MatchStep
  /-- `prepare_match_pattern_ownership` or `prepare_irrefutable_pattern_ownership`. -/
  | prepare (arm : Nat)
  /-- `emit_pattern_bindings`. -/
  | bind (arm : Nat) (activateOwnership : Bool)
  | guard (arm : Nat)
  /-- `activate_pattern_binding_ownership`. -/
  | activate (arm : Nat)
  | body (arm : Nat)
  | cleanup
  deriving DecidableEq

inductive Terminator
  | switch (cases : List (Nat × Label)) (default : Label)
  | jump (target : Label)
  /-- Branch on the value of the guard. -/
  | test (ifTrue ifFalse : Label)
  | unreachable
  /-- Control does not come to the end of the block. -/
  | left

structure Block where
  steps : List MatchStep
  terminator : Terminator

/-- What the emitter has of a match. -/
structure Emission where
  arms : List HirMatchArm
  /-- The scrutinee has a drop slot. -/
  rooted : Bool
  /-- Emitting the guard of an arm, or its body, terminates the block. -/
  guardTerminates : Nat → Bool
  bodyTerminates : Nat → Bool

namespace Emission

variable (emission : Emission)

/-- The candidates for a variant: the arms that cover it, up to the first one without a guard. -/
def candidatesFrom (variant : Nat) : List (HirMatchArm × Nat) → List (HirMatchArm × Nat)
  | [] => []
  | (arm, index) :: rest =>
    if arm.matcher.Covers variant then
      (arm, index) :: if arm.guard.isNone then [] else candidatesFrom variant rest
    else candidatesFrom variant rest

def candidates (variant : Nat) : List (HirMatchArm × Nat) :=
  candidatesFrom variant emission.arms.zipIdx

def prepareSteps (index : Nat) : List MatchStep := if emission.rooted then [.prepare index] else []

/-- The end of the block that runs the body. -/
def bodyBlock (index : Nat) (steps : List MatchStep) : Block :=
  if emission.bodyTerminates index then ⟨steps ++ [.body index], .left⟩
  else ⟨steps ++ [.body index, .cleanup], .jump .merge⟩

def candidateBlock (variant position : Nat) (arm : HirMatchArm) (index : Nat) (ifFalse : Label) :
    Block :=
  match arm.guard with
  | none => emission.bodyBlock index (emission.prepareSteps index ++ [.bind index true])
  | some _ =>
    let steps := [.bind index false, .guard index]
    if emission.guardTerminates index then ⟨steps, .left⟩
    else ⟨steps, .test (.body variant position) ifFalse⟩

/-- The block behind the guard of a candidate. -/
def guardedBlock (arm : HirMatchArm) (index : Nat) : Option Block :=
  match arm.guard with
  | none => none
  | some _ =>
    if emission.guardTerminates index then none
    else some (emission.bodyBlock index (emission.prepareSteps index ++ [.activate index]))

/-- The label of a candidate, or the one of the block that is never reached. -/
def candidateLabel (chain : List (HirMatchArm × Nat)) (variant position : Nat) : Label :=
  if position < chain.length then .candidate variant position else .invalid

/-- The blocks of the chain of a variant. -/
def chainBlock (chain : List (HirMatchArm × Nat)) : Label → Option Block
  | .candidate variant position => chain[position]?.map fun (arm, index) =>
    emission.candidateBlock variant position arm index
      (candidateLabel chain variant (position + 1))
  | .body _ position => chain[position]?.bind fun (arm, index) => emission.guardedBlock arm index
  | _ => none

/-- `emit_match`: the blocks of a match over an enum, by their labels. -/
def emitMatch (variants : Nat) : Label → Option Block
  | .entry =>
    let cases := (List.range variants).filter fun variant =>
      (emission.candidates variant).isEmpty = false
    some ⟨[], .switch (cases.map fun variant => (variant, .candidate variant 0)) .invalid⟩
  | .candidate variant position =>
    if variant < variants then
      emission.chainBlock (emission.candidates variant) (.candidate variant position)
    else none
  | .body variant position =>
    if variant < variants then
      emission.chainBlock (emission.candidates variant) (.body variant position)
    else none
  | .invalid => some ⟨[], .unreachable⟩
  | .merge => none

/-- `emit_irrefutable_match`: all arms are candidates. -/
def emitIrrefutableMatch : Label → Option Block
  | .entry => some ⟨[], .jump (candidateLabel emission.arms.zipIdx 0 0)⟩
  | .candidate 0 position => emission.chainBlock emission.arms.zipIdx (.candidate 0 position)
  | .body 0 position => emission.chainBlock emission.arms.zipIdx (.body 0 position)
  | .invalid => some ⟨[], .unreachable⟩
  | _ => none

end Emission

/-! ## Runs -/

/-- What the guards and the bodies come to in a run; without a value, control leaves the match. -/
structure Outcomes (emission : Emission) where
  guard : Nat → Option Bool
  body : Nat → Bool
  guardTerminated : ∀ index, emission.guardTerminates index = true → guard index = none
  bodyTerminated : ∀ index, emission.bodyTerminates index = true → body index = false

/-- How the run of a match ends. -/
inductive Ending
  | merged
  | left
  | unreachable
  deriving DecidableEq

/-- The value of the last guard behind a step, unless control has left. -/
def stepValue {emission : Emission} (outcomes : Outcomes emission) (step : MatchStep)
    (value : Bool) : Option Bool :=
  match step with
  | .guard index => outcomes.guard index
  | .body index => if outcomes.body index then some value else none
  | _ => some value

/-- Run the steps of a block: those that have been run, and the value of the last guard. -/
def runSteps {emission : Emission} (outcomes : Outcomes emission) :
    List MatchStep → Bool → List MatchStep × Option Bool
  | [], value => ([], some value)
  | step :: rest, value =>
    match stepValue outcomes step value with
    | none => ([step], none)
    | some value =>
      let (steps, result) := runSteps outcomes rest value
      (step :: steps, result)

/-- Where control goes at the end of a block. -/
def Terminator.next (tag : Nat) (value : Bool) : Terminator → Ending ⊕ Label
  | switch cases default => .inr ((cases.lookup tag).getD default)
  | jump target => .inr target
  | test ifTrue ifFalse => .inr (if value then ifTrue else ifFalse)
  | unreachable => .inl .unreachable
  | left => .inl .left

/-- Run the blocks from a label, for a value with the tag. -/
def runBlocks {emission : Emission} (blocks : Label → Option Block) (outcomes : Outcomes emission)
    (tag : Nat) : Nat → Label → Option (List MatchStep × Ending)
  | 0, _ => none
  | fuel + 1, label =>
    if label = .merge then some ([], .merged)
    else
      match blocks label with
      | none => none
      | some block =>
        match runSteps outcomes block.steps false with
        | (steps, none) => some (steps, .left)
        | (steps, some value) =>
          match block.terminator.next tag value with
          | .inl ending => some (steps, ending)
          | .inr target => (runBlocks blocks outcomes tag fuel target).map
              fun (later, ending) => (steps ++ later, ending)

/-! ## Matching in the order of the source -/

variable {arms : List (HirMatchArm × Nat)} {variant : Nat}

section

variable {emission : Emission} (outcomes : Outcomes emission)

/-- The end of an arm whose body is run. -/
def runBody (index : Nat) (steps : List MatchStep) : List MatchStep × Ending :=
  if outcomes.body index then (steps ++ [.body index, .cleanup], .merged)
  else (steps ++ [.body index], .left)

/-- The steps that come to the guard of an arm and through it. -/
def guardSteps (index : Nat) : List MatchStep := [.bind index false, .guard index]

/-- The arms in the order of the source: those that do not cover the value are passed over, and so
are those whose guards are false. -/
def sourceRun (variant : Nat) : List (HirMatchArm × Nat) → List MatchStep × Ending
  | [] => ([], .unreachable)
  | (arm, index) :: rest =>
    if arm.matcher.Covers variant then
      match arm.guard with
      | none => runBody outcomes index (emission.prepareSteps index ++ [.bind index true])
      | some _ =>
        match outcomes.guard index with
        | none => (guardSteps index, .left)
        | some true => runBody outcomes index
            (guardSteps index ++ emission.prepareSteps index ++ [.activate index])
        | some false =>
          let (steps, ending) := sourceRun variant rest
          (guardSteps index ++ steps, ending)
    else sourceRun variant rest

/-- Arms behind the first one that takes every value of the variant are not looked at. -/
theorem sourceRun_candidatesFrom (variant : Nat) (arms : List (HirMatchArm × Nat)) :
    sourceRun outcomes variant (Emission.candidatesFrom variant arms) =
      sourceRun outcomes variant arms := by
  induction arms with
  | nil => rfl
  | cons entry rest ih =>
    obtain ⟨arm, index⟩ := entry
    rw [Emission.candidatesFrom, sourceRun]
    by_cases hcovers : arm.matcher.Covers variant
    · rw [if_pos hcovers, if_pos hcovers, sourceRun, if_pos hcovers]
      cases hguard : arm.guard with
      | none => rfl
      | some guard =>
        simp only [isNone_some, Bool.false_eq_true, if_false, ih]
    · rw [if_neg hcovers, if_neg hcovers, ih]

theorem runBody_append (index : Nat) (first second : List MatchStep) :
    runBody outcomes index (first ++ second) =
      (first ++ (runBody outcomes index second).1, (runBody outcomes index second).2) := by
  unfold runBody
  split <;> simp only [append_assoc]

/-! ## Runs of chains -/

variable {blocks : Label → Option Block} {tag : Nat} {steps : List MatchStep}

/-- A step that leaves the value of the guard as it is. -/
def Silent (step : MatchStep) : Prop :=
  match step with
  | .guard _ | .body _ => False
  | _ => True

theorem runSteps_silent (hsilent : ∀ step ∈ steps, Silent step) (rest : List MatchStep)
    (value : Bool) :
    runSteps outcomes (steps ++ rest) value =
      (steps ++ (runSteps outcomes rest value).1, (runSteps outcomes rest value).2) := by
  induction steps with
  | nil => rfl
  | cons step steps ih =>
    obtain ⟨hstep, hsteps⟩ := forall_mem_cons.mp hsilent
    have hval : stepValue outcomes step value = some value := by
      cases step <;> first | rfl | exact hstep.elim
    rw [cons_append, runSteps, hval]
    simp only [ih hsteps, cons_append]

theorem silent_prepare {last : MatchStep} (hlast : Silent last) (index : Nat) :
    ∀ step ∈ emission.prepareSteps index ++ [last], Silent step := by
  intro step hstep
  rcases mem_append.mp hstep with hprepare | hstep
  · unfold Emission.prepareSteps at hprepare
    split at hprepare
    · rw [mem_singleton.mp hprepare]
      trivial
    · exact nomatch hprepare
  · rw [mem_singleton.mp hstep]
    exact hlast

/-- The block of a body runs the body, and goes on to the end of the match if the body does. -/
theorem runBlocks_bodyBlock {label : Label} {index : Nat} (hlabel : label ≠ .merge)
    (hblock : blocks label = some (emission.bodyBlock index steps))
    (hsilent : ∀ step ∈ steps, Silent step) (fuel : Nat) :
    runBlocks blocks outcomes tag (fuel + 2) label = some (runBody outcomes index steps) := by
  rw [runBlocks, if_neg hlabel]
  simp only [hblock]
  cases hterminates : emission.bodyTerminates index with
  | true =>
    have hbody := outcomes.bodyTerminated index hterminates
    simp [Emission.bodyBlock, hterminates, runSteps_silent outcomes hsilent, runSteps, stepValue,
      runBody, hbody]
  | false =>
    cases hbody : outcomes.body index with
    | false =>
      simp [Emission.bodyBlock, hterminates, runSteps_silent outcomes hsilent, runSteps,
        stepValue, runBody, hbody]
    | true =>
      simp [Emission.bodyBlock, hterminates, runSteps_silent outcomes hsilent, runSteps,
        stepValue, runBody, hbody, Terminator.next, runBlocks]

/-- A part of the blocks is the chain. -/
structure IsChain (blocks : Label → Option Block) (emission : Emission) (variant : Nat)
    (chain : List (HirMatchArm × Nat)) : Prop where
  candidate : ∀ position, blocks (.candidate variant position) =
    emission.chainBlock chain (.candidate variant position)
  body : ∀ position, blocks (.body variant position) =
    emission.chainBlock chain (.body variant position)
  invalid : blocks .invalid = some ⟨[], .unreachable⟩

/-- The chain of the candidates of a variant does what the source says of them. -/
theorem runBlocks_chain {chain : List (HirMatchArm × Nat)}
    (hchain : IsChain blocks emission variant chain)
    (hcovers : ∀ entry ∈ chain, entry.1.matcher.Covers variant) {pos fuel : Nat}
    (hfuel : 2 * (chain.length - pos) + 2 ≤ fuel) :
    runBlocks blocks outcomes tag fuel (Emission.candidateLabel chain variant pos) =
      some (sourceRun outcomes variant (chain.drop pos)) := by
  induction hlen : chain.length - pos generalizing pos fuel with
  | zero =>
    obtain ⟨fuel, rfl⟩ : ∃ rest, fuel = rest + 1 := ⟨fuel - 1, by omega⟩
    have hend : ¬ pos < chain.length := by omega
    rw [Emission.candidateLabel, if_neg hend, drop_eq_nil_of_le (by omega), runBlocks]
    simp [hchain.invalid, runSteps, Terminator.next, sourceRun]
  | succ length ih =>
    have hlt : pos < chain.length := by omega
    obtain ⟨fuel, rfl⟩ : ∃ rest, fuel = rest + 4 := ⟨fuel - 4, by omega⟩
    have hnext : runBlocks blocks outcomes tag (fuel + 3)
        (Emission.candidateLabel chain variant (pos + 1)) =
          some (sourceRun outcomes variant (chain.drop (pos + 1))) :=
      ih (by omega) (by omega)
    have hget : chain[pos]? = some chain[pos] := getElem?_eq_getElem hlt
    have hmatches := hcovers _ (getElem_mem hlt)
    rw [Emission.candidateLabel, if_pos hlt, drop_eq_getElem_cons hlt]
    generalize chain[pos] = entry at hget hmatches ⊢
    obtain ⟨arm, index⟩ := entry
    have hblock := hchain.candidate pos
    have hbody := hchain.body pos
    simp only [Emission.chainBlock, hget, map_some, bind_some] at hblock hbody
    rw [sourceRun, if_pos hmatches]
    cases hguard : arm.guard with
    | none =>
      simp only [Emission.candidateBlock, hguard] at hblock
      exact runBlocks_bodyBlock outcomes (by simp) hblock (silent_prepare (by trivial) index)
        (fuel + 2)
    | some guard =>
      simp only [Emission.candidateBlock, Emission.guardedBlock, hguard] at hblock hbody
      rw [runBlocks, if_neg (by simp)]
      simp only [hblock]
      cases hterminates : emission.guardTerminates index with
      | true =>
        have hleft := outcomes.guardTerminated index hterminates
        simp [runSteps, stepValue, hleft, guardSteps]
      | false =>
        simp only [hterminates, Bool.false_eq_true, if_false] at hbody ⊢
        cases hval : outcomes.guard index with
        | none => simp [runSteps, stepValue, hval, guardSteps]
        | some value =>
          simp only [runSteps, stepValue, hval, Terminator.next]
          cases value with
          | true =>
            rw [if_pos rfl, runBlocks_bodyBlock outcomes (by simp) hbody
              (silent_prepare (by trivial) index) (fuel + 1), append_assoc,
              runBody_append outcomes index (guardSteps index)]
            rfl
          | false =>
            simp only [Bool.false_eq_true, if_false]
            rw [hnext]
            rfl

/-! ## Accepted matches -/

/-- Some arm without a guard covers each of the variants. -/
def Exhaustive (arms : List HirMatchArm) (variants : Nat) : Prop :=
  ∀ variant < variants, ∃ arm ∈ arms, arm.matcher.Covers variant ∧ arm.guard = none

/-- The arms in front of an arm are not for the variant, or their guards are false. -/
def Passed (outcomes : Outcomes emission) (variant : Nat) (front : List (HirMatchArm × Nat)) :
    Prop :=
  ∀ entry ∈ front, entry.1.matcher.Covers variant →
    entry.1.guard.isSome ∧ outcomes.guard entry.2 = some false

/-- The guards of the arms that are passed. -/
def passedSteps (variant : Nat) (front : List (HirMatchArm × Nat)) : List MatchStep :=
  (front.filter fun entry => entry.1.matcher.Covers variant).flatMap fun entry =>
    guardSteps entry.2

/-- The steps that come to the body of an arm. -/
def enterSteps (emission : Emission) (arm : HirMatchArm) (index : Nat) : List MatchStep :=
  if arm.guard.isSome then guardSteps index ++ emission.prepareSteps index ++ [.activate index]
  else emission.prepareSteps index ++ [.bind index true]

/-- A run of a match in the order of the source: the first arm that covers the value and whose guard
is true is run, behind the guards of the arms in front of it that cover the value. Control may leave
the match in a guard. -/
inductive Dispatched (outcomes : Outcomes emission) (arms : List (HirMatchArm × Nat))
    (variant : Nat) : List MatchStep × Ending → Prop
  | ran (front back : List (HirMatchArm × Nat)) (arm : HirMatchArm) (index : Nat)
      (hsplit : arms = front ++ (arm, index) :: back) (hpassed : Passed outcomes variant front)
      (hcovers : arm.matcher.Covers variant)
      (hguard : arm.guard.isSome → outcomes.guard index = some true) :
      Dispatched outcomes arms variant
        (runBody outcomes index (passedSteps variant front ++ enterSteps emission arm index))
  | left (front back : List (HirMatchArm × Nat)) (arm : HirMatchArm) (index : Nat)
      (hsplit : arms = front ++ (arm, index) :: back) (hpassed : Passed outcomes variant front)
      (hcovers : arm.matcher.Covers variant) (hguard : arm.guard.isSome)
      (hleft : outcomes.guard index = none) :
      Dispatched outcomes arms variant (passedSteps variant front ++ guardSteps index, .left)

theorem passedSteps_cons (variant : Nat) (entry : HirMatchArm × Nat)
    (front : List (HirMatchArm × Nat)) :
    passedSteps variant (entry :: front) =
      passedSteps variant [entry] ++ passedSteps variant front := by
  rw [passedSteps, ← singleton_append, filter_append, flatMap_append]
  rfl

/-- An arm in front that is passed does not change what is run behind it. -/
theorem Dispatched.cons {index : Nat} {arm : HirMatchArm} {ending : Ending}
    (hpassed : arm.matcher.Covers variant → arm.guard.isSome ∧ outcomes.guard index = some false)
    (hrun : Dispatched outcomes arms variant (steps, ending)) :
    Dispatched outcomes ((arm, index) :: arms) variant
      (passedSteps variant [(arm, index)] ++ steps, ending) := by
  generalize hres : (steps, ending) = res at hrun
  cases hrun with
  | ran front back first number hsplit hfront hcovers hguard =>
    subst hsplit
    have hran : Dispatched outcomes ((arm, index) :: (front ++ (first, number) :: back))
        variant _ :=
      .ran ((arm, index) :: front) back first number rfl
        (forall_mem_cons.mpr ⟨hpassed, hfront⟩) hcovers hguard
    rw [passedSteps_cons, append_assoc, runBody_append, ← hres] at hran
    exact hran
  | left front back first number hsplit hfront hcovers hguard hleft =>
    subst hsplit
    cases hres
    have hleaves : Dispatched outcomes ((arm, index) :: (front ++ (first, number) :: back))
        variant _ :=
      .left ((arm, index) :: front) back first number rfl
        (forall_mem_cons.mpr ⟨hpassed, hfront⟩) hcovers hguard hleft
    rw [passedSteps_cons, append_assoc] at hleaves
    exact hleaves

/-- Where some arm without a guard covers the variant, the source order comes to an arm. -/
theorem sourceRun_dispatched
    (hcovered : ∃ entry ∈ arms, entry.1.matcher.Covers variant ∧ entry.1.guard = none) :
    Dispatched outcomes arms variant (sourceRun outcomes variant arms) := by
  induction arms with
  | nil => exact absurd hcovered (by simp)
  | cons entry rest ih =>
    obtain ⟨arm, index⟩ := entry
    rw [sourceRun]
    split
    next hcovers =>
      have hfst (hguard : arm.guard.isSome → outcomes.guard index = some true) :
          Dispatched outcomes ((arm, index) :: rest) variant _ :=
        .ran [] rest arm index rfl nofun hcovers hguard
      cases hguard : arm.guard with
      | none => simpa [passedSteps, enterSteps, hguard] using hfst
      | some guard =>
        cases hval : outcomes.guard index with
        | none =>
          have hleaves : Dispatched outcomes ((arm, index) :: rest) variant _ :=
            .left [] rest arm index rfl nofun hcovers (by simp [hguard]) hval
          simpa [passedSteps] using hleaves
        | some value =>
          cases value with
          | true => simpa [passedSteps, enterSteps, hguard, hval] using hfst
          | false =>
            have hrest : Dispatched outcomes rest variant
                (sourceRun outcomes variant rest) := by
              apply ih
              obtain ⟨entry, hentry, hmatches, hnone⟩ := hcovered
              rcases mem_cons.mp hentry with rfl | hentry
              · rw [hguard] at hnone
                cases hnone
              · exact ⟨entry, hentry, hmatches, hnone⟩
            have hcons : Dispatched outcomes ((arm, index) :: rest) variant _ :=
              hrest.cons outcomes fun _ => ⟨by simp [hguard], hval⟩
            simpa [passedSteps, hcovers] using hcons
    next hcovers =>
      have hrest : Dispatched outcomes rest variant (sourceRun outcomes variant rest) := by
        apply ih
        obtain ⟨entry, hentry, hmatches, hnone⟩ := hcovered
        rcases mem_cons.mp hentry with rfl | hentry
        · exact absurd hmatches hcovers
        · exact ⟨entry, hentry, hmatches, hnone⟩
      have hcons : Dispatched outcomes ((arm, index) :: rest) variant _ :=
        hrest.cons outcomes fun hmatches => absurd hmatches hcovers
      simpa [passedSteps, hcovers] using hcons

end

/-! ### The arms cover the variants -/

/-- A variant is covered only if some arm without a guard is for it. -/
structure Accounted (variants : Nat) (state : MatchLowering) : Prop where
  length : state.covered.length = variants
  covered : ∀ variant, state.covered[variant]? = some true →
    ∃ arm ∈ state.arms, arm.matcher.Covers variant ∧ arm.guard = none

theorem length_cover (matcher : HirMatcher) (covered : List Bool) :
    (cover matcher covered).length = covered.length := by
  cases matcher <;> simp [cover]

theorem covers_of_cover {matcher : HirMatcher} {covered : List Bool}
    (hcovered : (cover matcher covered)[variant]? = some true) :
    matcher.Covers variant ∨ covered[variant]? = some true := by
  cases matcher with
  | all => exact .inl (.inl rfl)
  | variant index =>
    by_cases hidx : index = variant
    · exact .inl (.inr (hidx ▸ rfl))
    · rw [cover, getElem?_set_ne hidx] at hcovered
      exact .inr hcovered

section

variable {nominals : Nominals} {scrutinee : Ty} {access : ScrutineeAccess}

theorem Accounted.lowerArm {variants : Nat} {state : MatchLowering}
    (haccounted : Accounted variants state) (arm : MatchArm × Nat) :
    Accounted variants (lowerArm nominals scrutinee access state arm) := by
  have hkept (variant : Nat) (hcovered : state.covered[variant]? = some true) (last : HirMatchArm) :
      ∃ arm ∈ state.arms ++ [last], arm.matcher.Covers variant ∧ arm.guard = none := by
    obtain ⟨arm, harm, hcovers⟩ := haccounted.covered variant hcovered
    exact ⟨arm, mem_append_left _ harm, hcovers⟩
  unfold Matching.lowerArm
  obtain ⟨matcher, lowered⟩ := lowerArmPattern nominals scrutinee access arm.1.pattern arm.2
  dsimp only
  split
  next hguard =>
    refine ⟨(length_cover _ _).trans haccounted.length, fun variant hcovered => ?_⟩
    rcases covers_of_cover hcovered with hcovers | hcovered
    · exact ⟨_, mem_append_right _ (mem_singleton.mpr rfl), hcovers, isNone_iff_eq_none.mp hguard⟩
    · exact hkept variant hcovered _
  next => exact ⟨haccounted.length, fun variant hcovered => hkept variant hcovered _⟩

theorem lowerArms_accounted (variants : Nat) (arms : List (MatchArm × Nat)) :
    Accounted variants (lowerArms nominals scrutinee access variants arms) := by
  have hstart : Accounted variants ⟨[], List.replicate variants false, []⟩ := by
    refine ⟨length_replicate, fun variant hcovered => ?_⟩
    exact absurd (eq_of_mem_replicate (mem_of_getElem? hcovered)) (by simp)
  unfold lowerArms
  generalize (⟨[], List.replicate variants false, []⟩ : MatchLowering) = start at hstart
  induction arms generalizing start with
  | nil => exact hstart
  | cons arm rest ih => exact ih _ (hstart.lowerArm arm)

theorem Accounted.exhaustive {variants : Nat} {state : MatchLowering}
    (haccounted : Accounted variants state) (hall : ∀ covered ∈ state.covered, covered = true) :
    Exhaustive state.arms variants := by
  intro variant hvar
  have hlt : variant < state.covered.length := haccounted.length ▸ hvar
  apply haccounted.covered variant
  rw [getElem?_eq_getElem hlt, hall _ (getElem_mem hlt)]

end

/-- How many variants a value of the type has; a tuple and a struct have one. -/
def Nominals.variants (nominals : Nominals) : Ty → Nat
  | .enum name => ((nominals.layouts.enumLayout name).map (·.variants.length)).getD 0
  | .tuple _ | .struct _ => 1
  | _ => 0

section

variable {nominals : Nominals} {scrutinee : Ty} {access : ScrutineeAccess}
  {arms : List (MatchArm × Nat)}

theorem lowerMatch_exhaustive
    (hclean : (lowerMatch nominals scrutinee access arms).diagnostics = []) :
    Exhaustive (lowerMatch nominals scrutinee access arms).arms (nominals.variants scrutinee) := by
  have haggr {msg : String} (hclean : (lowerArms nominals scrutinee access 1
      arms).diagnostics ++ (if (lowerArms nominals scrutinee access 1 arms).covered.all id then []
        else [msg]) = []) :
      Exhaustive (lowerArms nominals scrutinee access 1 arms).arms 1 := by
    apply (lowerArms_accounted 1 arms).exhaustive
    by_contra hmiss
    have hall : (lowerArms nominals scrutinee access 1 arms).covered.all id = false := by
      simpa using hmiss
    simp [hall] at hclean
  unfold lowerMatch at hclean ⊢
  cases scrutinee with
  | enum name =>
    dsimp only at hclean ⊢
    cases hlayout : nominals.layouts.enumLayout name with
    | none => simp [hlayout] at hclean
    | some layout =>
      simp only [hlayout, Nominals.variants, map_some, getD_some] at hclean ⊢
      have haccounted : Accounted layout.variants.length (lowerArms nominals (.enum name) access
        layout.variants.length arms) := lowerArms_accounted _ arms
      apply haccounted.exhaustive
      intro covered hmem
      obtain ⟨index, hidx, rfl⟩ := mem_iff_getElem.mp hmem
      have hlt : index < layout.variants.length := haccounted.length ▸ hidx
      by_contra hcovered
      have hmiss : layout.variants[index] ∈ ((layout.variants.zip (lowerArms nominals
          (.enum name) access layout.variants.length arms).covered).filter fun (_, covered) =>
            !covered).map fun (variant, _) => variant := by
        refine mem_map.mpr ⟨(layout.variants[index], _), mem_filter.mpr
          ⟨mem_iff_getElem.mpr ⟨index, by simpa using ⟨hlt, hidx⟩,
            getElem_zip⟩, by simpa using hcovered⟩, rfl⟩
      have hnone := hclean
      simp only [List.append_eq_nil_iff, ite_eq_left_iff, List.isEmpty_iff,
        List.cons_ne_nil, imp_false, not_not, List.map_eq_nil_iff] at hnone
      rw [hnone.1.2] at hmiss
      exact absurd hmiss (by simp)
  | tuple fields => exact haggr hclean
  | struct name => exact haggr hclean
  | _ => simp at hclean

theorem lowerArms_all (hscrut : (∃ fields, scrutinee = .tuple fields) ∨
    ∃ name, scrutinee = .struct name) (variants : Nat) :
    ∀ arm ∈ (lowerArms nominals scrutinee access variants arms).arms, arm.matcher = .all := by
  unfold lowerArms
  have hstart : ∀ arm ∈ (⟨[], List.replicate variants false, []⟩ : MatchLowering).arms,
      arm.matcher = .all := nofun
  generalize (⟨[], List.replicate variants false, []⟩ : MatchLowering) = start at hstart
  induction arms generalizing start with
  | nil => exact hstart
  | cons arm rest ih =>
    refine ih _ fun lowered hlowered => ?_
    rcases mem_append.mp hlowered with hlowered | hlowered
    · exact hstart lowered hlowered
    · rw [mem_singleton.mp hlowered]
      rcases hscrut with ⟨fields, rfl⟩ | ⟨name, rfl⟩ <;> rfl

end

/-! ## Emitted matches -/

/-- The blocks that are emitted for a match over the type. -/
def Emission.emit (emission : Emission) (nominals : Nominals) (scrutinee : Ty) :
    Label → Option Block :=
  match scrutinee with
  | .tuple _ | .struct _ => emission.emitIrrefutableMatch
  | _ => emission.emitMatch (nominals.variants scrutinee)

section

variable {emission : Emission} (outcomes : Outcomes emission) {tag fuel : Nat}

theorem emitIrrefutableMatch_isChain :
    IsChain emission.emitIrrefutableMatch emission 0 emission.arms.zipIdx :=
  ⟨fun _ => rfl, fun _ => rfl, rfl⟩

theorem emitMatch_isChain {variants : Nat} (htag : tag < variants) :
    IsChain (emission.emitMatch variants) emission tag (emission.candidates tag) :=
  ⟨fun _ => if_pos htag, fun _ => if_pos htag, rfl⟩

theorem candidatesFrom_covers :
    ∀ entry ∈ Emission.candidatesFrom variant arms, entry.1.matcher.Covers variant := by
  induction arms with
  | nil => exact nofun
  | cons entry rest ih =>
    obtain ⟨arm, index⟩ := entry
    rw [Emission.candidatesFrom]
    split
    next hcovers =>
      refine forall_mem_cons.mpr ⟨hcovers, fun entry hentry => ?_⟩
      split at hentry
      · exact nomatch hentry
      · exact ih entry hentry
    next => exact ih

theorem length_candidatesFrom_le (variant : Nat) (arms : List (HirMatchArm × Nat)) :
    (Emission.candidatesFrom variant arms).length ≤ arms.length := by
  induction arms with
  | nil => exact le_rfl
  | cons entry rest ih =>
    obtain ⟨arm, index⟩ := entry
    rw [Emission.candidatesFrom]
    split
    next =>
      split
      · simp
      · simpa using ih
    next => exact ih.trans (by simp)

theorem lookup_map_of_notMem {target : Nat → Label} {variants : List Nat} (hmem : tag ∉ variants) :
    (variants.map fun variant => (variant, target variant)).lookup tag = none := by
  rw [lookup_eq_none_iff]
  intro entry hentry
  obtain ⟨variant, hvar, rfl⟩ := mem_map.mp hentry
  refine bne_iff_ne.mpr ?_
  rintro rfl
  exact hmem hvar

/-- The switch on the tag comes to the first candidate of the variant, where there is one. -/
theorem Emission.switch_target (emission : Emission) {variants : Nat} (htag : tag < variants) :
    (List.lookup tag (((List.range variants).filter fun variant =>
      (emission.candidates variant).isEmpty = false).map fun variant =>
        (variant, Label.candidate variant 0))).getD .invalid =
      candidateLabel (emission.candidates tag) tag 0 := by
  unfold candidateLabel
  split
  next hsome =>
    rw [lookup_graph (Label.candidate · 0), getD_some]
    refine mem_filter.mpr ⟨mem_range.mpr htag, ?_⟩
    simpa using ne_nil_of_length_pos hsome
  next hnone =>
    rw [lookup_map_of_notMem, getD_none]
    intro hmem
    have hsome := (mem_filter.mp hmem).2
    simp only [decide_eq_true_eq, isEmpty_eq_false_iff] at hsome
    exact hnone (length_pos_of_ne_nil hsome)

/-- The blocks of a tuple or a struct run the arms in the order of the source. -/
theorem runBlocks_emitIrrefutableMatch
    (hall : ∀ entry ∈ emission.arms.zipIdx, entry.1.matcher.Covers 0)
    (hfuel : 2 * emission.arms.length + 3 ≤ fuel) :
    runBlocks emission.emitIrrefutableMatch outcomes tag fuel .entry =
      some (sourceRun outcomes 0 emission.arms.zipIdx) := by
  obtain ⟨fuel, rfl⟩ : ∃ rest, fuel = rest + 1 := ⟨fuel - 1, by omega⟩
  have hchain : runBlocks emission.emitIrrefutableMatch outcomes tag fuel
      (Emission.candidateLabel emission.arms.zipIdx 0 0) = some _ :=
    runBlocks_chain outcomes emitIrrefutableMatch_isChain hall
      (by rw [length_zipIdx]; omega)
  rw [runBlocks, if_neg (by simp)]
  simp only [Emission.emitIrrefutableMatch, runSteps, Terminator.next, hchain, map_some,
    nil_append, drop_zero]

/-- The blocks of an enum run the arms in the order of the source. -/
theorem runBlocks_emitMatch {variants : Nat} (htag : tag < variants)
    (hfuel : 2 * emission.arms.length + 3 ≤ fuel) :
    runBlocks (emission.emitMatch variants) outcomes tag fuel .entry =
      some (sourceRun outcomes tag emission.arms.zipIdx) := by
  obtain ⟨fuel, rfl⟩ : ∃ rest, fuel = rest + 1 := ⟨fuel - 1, by omega⟩
  have hlen : (emission.candidates tag).length ≤ emission.arms.length :=
    (length_candidatesFrom_le tag emission.arms.zipIdx).trans (by simp)
  have hchain : runBlocks (emission.emitMatch variants) outcomes tag fuel
      (Emission.candidateLabel (emission.candidates tag) tag 0) = some _ :=
    runBlocks_chain outcomes (emitMatch_isChain htag) candidatesFrom_covers (by omega)
  rw [drop_zero, Emission.candidates, sourceRun_candidatesFrom, ← Emission.candidates] at hchain
  rw [runBlocks, if_neg (by simp)]
  simp only [Emission.emitMatch, runSteps, Terminator.next, emission.switch_target htag, hchain,
    map_some, nil_append]

/-- The blocks that are emitted run the arms in the order of the source. -/
theorem runBlocks_emit {nominals : Nominals} {scrutinee : Ty} {access : ScrutineeAccess}
    {arms : List (MatchArm × Nat)}
    (harms : emission.arms = (lowerMatch nominals scrutinee access arms).arms)
    (htag : tag < nominals.variants scrutinee) (hfuel : 2 * emission.arms.length + 3 ≤ fuel) :
    runBlocks (emission.emit nominals scrutinee) outcomes tag fuel .entry =
      some (sourceRun outcomes tag emission.arms.zipIdx) := by
  have haggr (htag : tag < 1) (hall : ∀ arm ∈ emission.arms, arm.matcher = .all) :
      runBlocks emission.emitIrrefutableMatch outcomes tag fuel .entry =
        some (sourceRun outcomes tag emission.arms.zipIdx) := by
    obtain rfl : tag = 0 := Nat.lt_one_iff.mp htag
    refine runBlocks_emitIrrefutableMatch outcomes (fun entry hentry => ?_) hfuel
    exact .inl (hall _ (fst_mem_of_mem_zipIdx hentry))
  cases scrutinee with
  | tuple fields => exact haggr htag (harms ▸ lowerArms_all (.inl ⟨_, rfl⟩) 1)
  | struct name => exact haggr htag (harms ▸ lowerArms_all (.inr ⟨_, rfl⟩) 1)
  | enum name => exact runBlocks_emitMatch outcomes htag hfuel
  | _ => exact absurd htag (by simp [Nominals.variants])

theorem Dispatched.ending_ne {res : List MatchStep × Ending}
    (hrun : Dispatched outcomes arms variant res) :
    res.2 ≠ .unreachable := by
  cases hrun with
  | ran front back arm index =>
    unfold runBody
    split <;> simp
  | left => simp

theorem lowerMatch_dispatched {nominals : Nominals} {scrutinee : Ty} {access : ScrutineeAccess}
    {arms : List (MatchArm × Nat)}
    (hclean : (lowerMatch nominals scrutinee access arms).diagnostics = [])
    (harms : emission.arms = (lowerMatch nominals scrutinee access arms).arms)
    (htag : tag < nominals.variants scrutinee) :
    Dispatched outcomes emission.arms.zipIdx tag
      (sourceRun outcomes tag emission.arms.zipIdx) := by
  obtain ⟨arm, harm, hcovers, hguard⟩ := lowerMatch_exhaustive hclean tag htag
  apply sourceRun_dispatched outcomes
  obtain ⟨index, hidx⟩ := getElem?_of_mem (harms ▸ harm)
  exact ⟨(arm, index), mem_zipIdx_iff_getElem?.mpr hidx, hcovers, hguard⟩

/-- The blocks that are emitted for an accepted match run the first arm that covers the value and
whose guard is true, and of the others only the guards in front of it. -/
theorem emit_dispatched {nominals : Nominals} {scrutinee : Ty} {access : ScrutineeAccess}
    {arms : List (MatchArm × Nat)}
    (hclean : (lowerMatch nominals scrutinee access arms).diagnostics = [])
    (harms : emission.arms = (lowerMatch nominals scrutinee access arms).arms)
    (htag : tag < nominals.variants scrutinee) (hfuel : 2 * emission.arms.length + 3 ≤ fuel) :
    ∃ result, runBlocks (emission.emit nominals scrutinee) outcomes tag fuel .entry = some result ∧
      Dispatched outcomes emission.arms.zipIdx tag result ∧ result.2 ≠ .unreachable := by
  have hrun := lowerMatch_dispatched outcomes hclean harms htag
  exact ⟨_, runBlocks_emit outcomes harms htag hfuel, hrun, hrun.ending_ne⟩

end

/-- Types whose fields hold no nominal types are no part of themselves. -/
theorem not_cyclic_of_held {layouts : NominalLayouts} (hheld : ∀ name, layouts.held name = []) :
    ¬ NominalLayouts.Cyclic layouts.held := by
  rintro ⟨name, hcycle⟩
  obtain ⟨next, hfst, _⟩ := Relation.TransGen.head'_iff.mp hcycle
  have hnext : next ∈ layouts.held name := CycleReports.step_iff.mp hfst
  rw [hheld] at hnext
  exact nomatch hnext

/-- `enum lamp { on, off }`. -/
def lampLayouts : NominalLayouts where
  structs := []
  enums := [⟨"lamp", [⟨"on", []⟩, ⟨"off", []⟩]⟩]
  distinct := by decide

theorem fieldTypes_lamp (name : String) : lampLayouts.fieldTypes name = [] := by
  simp only [NominalLayouts.fieldTypes, structLayout?, enumLayout?, lampLayouts, List.find?_cons,
    List.find?_nil]
  by_cases hlamp : name = "lamp"
  · simp [hlamp]
  · simp [Ne.symm hlamp]

theorem not_cyclic_lamp : ¬ NominalLayouts.Cyclic lampLayouts.held :=
  not_cyclic_of_held fun name => by simp [NominalLayouts.held, fieldTypes_lamp]

theorem fieldsWithoutCallables_lamp : lampLayouts.FieldsWithoutCallables := by
  intro name ty hty
  rw [fieldTypes_lamp] at hty
  exact nomatch hty

def lampNominals : Nominals where
  layouts := lampLayouts.toLayouts (fun _ => false) fieldsWithoutCallables_lamp not_cyclic_lamp
  tuples _ := rfl
  copyNominals _ := true
  neverName := "never"
  template _ := none
  named _ _ := false
  accessErrors _ _ := []
  layoutError _ := "missing layout"
  display _ := "lamp"

/-- `match lamp { on if guarded => 1, _ => 2 }`. -/
def lampArms : List (MatchArm × Nat) :=
  [(⟨.binding "on", some (.bool true), .integer 1⟩, 0), (⟨.wildcard, none, .integer 2⟩, 0)]

def lampEmission : Emission where
  arms := (lowerMatch lampNominals (.enum "lamp") .consumed lampArms).arms
  rooted := false
  guardTerminates _ := false
  bodyTerminates _ := false

/-- The guard is false, and no body leaves the match. -/
def lampOutcomes : Outcomes lampEmission where
  guard _ := some false
  body _ := true
  guardTerminated := nofun
  bodyTerminated := nofun

theorem emit_dispatched_lamp : ∃ result,
    runBlocks (lampEmission.emit lampNominals (.enum "lamp")) lampOutcomes 0 7 .entry =
        some result ∧
      Dispatched lampOutcomes lampEmission.arms.zipIdx 0 result ∧ result.2 ≠ .unreachable :=
  @emit_dispatched lampEmission lampOutcomes 0 7 lampNominals (.enum "lamp") .consumed lampArms
    rfl rfl (by decide) (by decide)

/-- The guard of the first arm is false, and the second arm is run. -/
example : runBlocks (lampEmission.emit lampNominals (.enum "lamp")) lampOutcomes 0 7 .entry =
    some ([.bind 0 false, .guard 0, .bind 1 true, .body 1, .cleanup], .merged) := by
  decide

end Salicin.Matching
