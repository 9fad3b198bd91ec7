import Salicin.Codegen.Calls.Hir

/-!
# The state of lowering

Local ids are handed out in ascending order, and a lowered expression has no ids but those
handed out before or for it. A step is a part of lowering outside the calls; all that is known
of it is that it keeps to this and takes no diagnostic back.
-/

namespace Salicin.Codegen.Calls

open List

/-! ## The locals of an expression -/

section Mentions

variable {Code : Type}

mutual

/-- The expression reads or borrows the local. -/
def HirExprKind.Mentions : HirExprKind Code → LocalId → Prop
  | .read place _, id => place.localId = id
  | .call _ arguments _ _, id => argumentsMention arguments id
  | .indirectCall callee arguments _, id => callee.Mentions id ∨ argumentsMention arguments id
  | .partialCall _ _ captures, id => argumentsMention captures id
  | .block statements none, id => statementsMention statements id
  | .block statements (some tail), id => statementsMention statements id ∨ tail.Mentions id
  | .matchExpr scrutinee _, id => scrutinee.Mentions id
  | .unit, _ | .function _, _ | .partialCapture _ _ _ _, _ | .localClosure _, _ | .other _, _ =>
    False

def HirExpr.Mentions : HirExpr Code → LocalId → Prop
  | ⟨_, kind⟩, id => kind.Mentions id

def HirArgument.Mentions : HirArgument Code → LocalId → Prop
  | .copy value, id | .move value, id => value.Mentions id
  | .sharedBorrow place, id | .mutBorrow place, id => place.localId = id
  | .callableCaptureBorrow _ _ _ _ _, _ => False

def HirStmt.Mentions : HirStmt Code → LocalId → Prop
  | .letBinding binding, id => binding.Mentions id
  | .expr value, id => value.Mentions id

def HirBinding.Mentions : HirBinding Code → LocalId → Prop
  | ⟨_, _, _, _, value⟩, id => value.Mentions id

def argumentsMention : List (HirArgument Code) → LocalId → Prop
  | [], _ => False
  | argument :: rest, id => argument.Mentions id ∨ argumentsMention rest id

def statementsMention : List (HirStmt Code) → LocalId → Prop
  | [], _ => False
  | statement :: rest, id => statement.Mentions id ∨ statementsMention rest id

end

@[simp] theorem HirBinding.mentions_iff {binding : HirBinding Code} {id : LocalId} :
    binding.Mentions id ↔ binding.value.Mentions id := by
  cases binding
  rfl

end Mentions

/-! ## States -/

/-- The state of lowering; what it keeps beside its diagnostics and the next local id is the
rest. -/
structure State (Rest : Type) where
  diagnostics : List String
  nextLocal : LocalId
  rest : Rest

variable {Rest : Type}

namespace State

/-- The second state comes after the first: no diagnostic is taken back and no id is handed out
again. -/
structure Grows (first second : State Rest) : Prop where
  diagnostics : first.diagnostics <+: second.diagnostics
  nextLocal : first.nextLocal ≤ second.nextLocal

theorem Grows.refl (state : State Rest) : state.Grows state := ⟨prefix_rfl, le_rfl⟩

theorem Grows.trans {first second third : State Rest} (hfst : first.Grows second)
    (hsnd : second.Grows third) : first.Grows third :=
  ⟨hfst.diagnostics.trans hsnd.diagnostics, hfst.nextLocal.trans hsnd.nextLocal⟩

/-- A state without diagnostics comes after states without diagnostics. -/
theorem Grows.quiet {first second : State Rest} (hgrows : first.Grows second)
    (hquiet : second.diagnostics = []) : first.diagnostics = [] :=
  prefix_nil.mp (hquiet ▸ hgrows.diagnostics)

end State

/-- Lowering changes the state. -/
abbrev Lower (Rest : Type) (Result : Type) := StateM (State Rest) Result

/-- Report a diagnostic. -/
def report (msg : String) : Lower Rest PUnit :=
  modify fun state => { state with diagnostics := state.diagnostics ++ [msg] }

/-- Do something under a condition. -/
def onlyIf (cond : Bool) (action : Lower Rest PUnit) : Lower Rest PUnit :=
  if cond then action else pure ()

/-- `fresh_local`. -/
def freshLocal : Lower Rest LocalId := fun state =>
  (state.nextLocal, { state with nextLocal := state.nextLocal + 1 })

/-- A part of lowering outside the calls. The locals that its result has are given; they have
been handed out. -/
structure Step (Rest : Type) (Result : Type)
    (mentions : Result → LocalId → Prop := fun _ _ => False) where
  run : Lower Rest Result
  grows : ∀ state : State Rest, state.Grows (run state).2
  mentions_lt : ∀ state id, mentions (run state).1 id → id < (run state).2.nextLocal

theorem bind_lower {First Second : Type} (first : Lower Rest First)
    (next : First → Lower Rest Second) (state : State Rest) :
    (first >>= next) state = next (first state).1 (first state).2 := rfl

theorem pure_lower {Result : Type} (res : Result) (state : State Rest) :
    (pure res : Lower Rest Result) state = (res, state) := rfl

/-! ## What lowering keeps to -/

/-- From an id that has been handed out on, lowering takes nothing back, and its result and the
next id are as given. -/
def Meets {Result : Type} (run : Lower Rest Result) (start : LocalId)
    (post : Result → LocalId → Prop) : Prop :=
  ∀ state : State Rest, start ≤ state.nextLocal →
    state.Grows (run state).2 ∧ post (run state).1 (run state).2.nextLocal

/-- Lowering takes nothing back. -/
def Advances {Result : Type} (run : Lower Rest Result) : Prop :=
  ∀ state : State Rest, state.Grows (run state).2

section Rules

variable {First Second : Type} {first : Lower Rest First} {next : First → Lower Rest Second}

theorem Step.advances {mentions : First → LocalId → Prop} (step : Step Rest First mentions) :
    Advances step.run := step.grows

theorem Step.meets {mentions : First → LocalId → Prop} (step : Step Rest First mentions)
    (start : LocalId) :
    Meets step.run start fun res limit => ∀ id, mentions res id → id < limit :=
  fun state _ => ⟨step.grows state, step.mentions_lt state⟩

theorem report_advances (msg : String) : Advances (report msg : Lower Rest PUnit) :=
  fun _ => ⟨prefix_append _ _, le_rfl⟩

theorem pure_advances (res : First) : Advances (pure res : Lower Rest First) :=
  fun state => State.Grows.refl state

theorem onlyIf_advances {cond : Bool} {action : Lower Rest PUnit}
    (haction : Advances action) : Advances (onlyIf cond action) := by
  cases cond
  · exact pure_advances _
  · exact haction

theorem Advances.bind (hfst : Advances first) (hnext : ∀ res, Advances (next res)) :
    Advances (first >>= next) :=
  fun state => (hfst state).trans (hnext _ _)

theorem Advances.ite {cond : Prop} [Decidable cond] {second : Lower Rest First}
    (hfst : Advances first) (hsnd : Advances second) :
    Advances (if cond then first else second) := by
  split
  · exact hfst
  · exact hsnd

variable {start : LocalId} {post : First → LocalId → Prop}

theorem Meets.ite {cond : Prop} [Decidable cond] {second : Lower Rest First}
    (hfst : Meets first start post) (hsnd : Meets second start post) :
    Meets (if cond then first else second) start post := by
  split
  · exact hfst
  · exact hsnd

theorem pure_meets {res : First} (hpost : ∀ limit, start ≤ limit → post res limit) :
    Meets (pure res : Lower Rest First) start post :=
  fun state hstart => ⟨State.Grows.refl state, hpost _ hstart⟩

theorem freshLocal_meets (start : LocalId) :
    Meets (freshLocal : Lower Rest LocalId) start fun id limit => start ≤ id ∧ id < limit :=
  fun _ hstart => ⟨⟨prefix_rfl, Nat.le_succ _⟩, hstart, Nat.lt_succ_self _⟩

theorem Meets.after {post : Second → LocalId → Prop} (hfst : Advances first)
    (hnext : ∀ res, Meets (next res) start post) : Meets (first >>= next) start post := by
  intro state hstart
  obtain ⟨hgrows, hpost⟩ := hnext _ (first state).2 (hstart.trans (hfst state).nextLocal)
  exact ⟨(hfst state).trans hgrows, hpost⟩

theorem Meets.bind {middle : First → LocalId → Prop} {post : Second → LocalId → Prop}
    (hfst : Meets first start middle)
    (hnext : ∀ res limit, start ≤ limit → middle res limit →
      Meets (next res) limit post) : Meets (first >>= next) start post := by
  intro state hstart
  obtain ⟨hbefore, hmid⟩ := hfst state hstart
  obtain ⟨hafter, hpost⟩ := hnext _ _ (hstart.trans hbefore.nextLocal) hmid (first state).2 le_rfl
  exact ⟨hbefore.trans hafter, hpost⟩

theorem Meets.mono {post' : First → LocalId → Prop} (hmeets : Meets first start post)
    (hpost : ∀ res limit, start ≤ limit → post res limit → post' res limit) :
    Meets first start post' := by
  intro state hstart
  obtain ⟨hgrows, hres⟩ := hmeets state hstart
  exact ⟨hgrows, hpost _ _ (hstart.trans hgrows.nextLocal) hres⟩

end Rules

end Salicin.Codegen.Calls
