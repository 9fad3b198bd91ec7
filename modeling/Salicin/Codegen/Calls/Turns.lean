import Salicin.Codegen.Calls.Evaluation
import Salicin.Codegen.Calls.Groups

/-!
# Arguments at their turn

The arguments of a call are evaluated one after the other. At its turn an argument binds its
temporary, and it is handed over as the value or the place that it denotes then.
-/

namespace Salicin.Codegen.Calls

open List Runs HirExprKind Env

section Environments

variable {Value : Type} {env : Env Value}

theorem Env.extend_append (first second : List (LocalId × Value)) :
    env.extend (first ++ second) = (env.extend first).extend second := by
  simp [extend]

theorem Env.extend_eq_of_ne {bound : List (LocalId × Value)} {id : LocalId}
    (hne : ∀ entry ∈ bound, entry.1 ≠ id) : env.extend bound id = env id := by
  induction bound generalizing env with
  | nil => rfl
  | cons entry rest ih =>
    rw [forall_mem_cons] at hne
    rw [extend, foldl_cons, ← extend, ih hne.2]
    exact Function.update_of_ne (Ne.symm hne.1) _ _

theorem Env.extend_congr {first second : Env Value} {id : LocalId} (heq : first id = second id)
    (bound : List (LocalId × Value)) : first.extend bound id = second.extend bound id := by
  induction bound generalizing first second with
  | nil => exact heq
  | cons entry rest ih =>
    apply ih
    by_cases hid : id = entry.1
    · simp [hid]
    · simp [Function.update_of_ne hid, heq]

end Environments

variable {Code Value Address World Exit : Type} (machine : Machine Code Value Address World Exit)

/-! ## Evaluation depends on the locals that are mentioned -/

theorem Machine.readPlace_congr {first second : Env Value} {place : HirPlace}
    (hagree : first place.localId = second place.localId) (kind : HirReadKind) :
    machine.readPlace first place kind = machine.readPlace second place kind := by
  rw [Machine.readPlace, Machine.readPlace, hagree]

theorem Machine.borrow_congr {first second : Env Value} {place : HirPlace}
    (hagree : first place.localId = second place.localId) (mutable : Bool) :
    machine.borrow first mutable place = machine.borrow second mutable place := by
  rw [Machine.borrow, Machine.borrow, hagree]

mutual

theorem HirExprKind.eval_congr {first second : Env Value} (kind : HirExprKind Code)
    (hagree : ∀ id, kind.Mentions id → first id = second id) :
    kind.eval machine first = kind.eval machine second := by
  cases kind with
  | read place kind => exact machine.readPlace_congr (hagree _ rfl) kind
  | call name arguments consumedCallable diverges =>
    rw [eval, eval, evalArguments_congr arguments hagree]
  | indirectCall callee arguments diverges =>
    rw [eval, eval, HirExpr.eval_congr callee fun id hid => hagree id (.inl hid),
      evalArguments_congr arguments fun id hid => hagree id (.inr hid)]
  | partialCall name consumedGroups captures =>
    rw [eval, eval, evalArguments_congr captures hagree]
  | block stmts tail =>
    cases tail with
    | none => rw [eval, eval, evalStatements_congr stmts hagree]
    | some tail =>
      rw [eval, eval, evalStatements_congr stmts fun id hid => hagree id (.inl hid)]
      congr 1
      funext bound
      exact HirExpr.eval_congr tail fun id hid =>
        extend_congr (hagree id (.inr hid)) bound
  | matchExpr scrutinee arms =>
    rw [eval, eval, HirExpr.eval_congr scrutinee hagree]
  | unit => rfl
  | function name => rfl
  | partialCapture binding index moves callableTy => rfl
  | localClosure closure => rfl
  | other code => rfl

theorem HirExpr.eval_congr {first second : Env Value} (val : HirExpr Code)
    (hagree : ∀ id, val.Mentions id → first id = second id) :
    val.eval machine first = val.eval machine second := by
  cases val with
  | mk ty kind => exact HirExprKind.eval_congr kind hagree

theorem HirArgument.eval_congr {first second : Env Value} (arg : HirArgument Code)
    (hagree : ∀ id, arg.Mentions id → first id = second id) :
    arg.eval machine first = arg.eval machine second := by
  cases arg with
  | copy val => rw [HirArgument.eval, HirArgument.eval, HirExpr.eval_congr val hagree]
  | move val => rw [HirArgument.eval, HirArgument.eval, HirExpr.eval_congr val hagree]
  | sharedBorrow place => exact machine.borrow_congr (hagree _ rfl) false
  | mutBorrow place => exact machine.borrow_congr (hagree _ rfl) true
  | callableCaptureBorrow binding index callableTy captureTy mutable => rfl

theorem evalArguments_congr {first second : Env Value} (arguments : List (HirArgument Code))
    (hagree : ∀ id, argumentsMention arguments id → first id = second id) :
    evalArguments machine first arguments = evalArguments machine second arguments := by
  cases arguments with
  | nil => rfl
  | cons arg rest =>
    rw [evalArguments, evalArguments, HirArgument.eval_congr arg fun id hid => hagree id (.inl hid),
      evalArguments_congr rest fun id hid => hagree id (.inr hid)]

theorem evalStatements_congr {first second : Env Value} (stmts : List (HirStmt Code))
    (hagree : ∀ id, statementsMention stmts id → first id = second id) :
    evalStatements machine first stmts = evalStatements machine second stmts := by
  cases stmts with
  | nil => rfl
  | cons stmt rest =>
    rw [evalStatements, evalStatements, HirStmt.eval_congr stmt fun id hid => hagree id (.inl hid)]
    congr 1
    funext bound
    rw [evalStatements_congr rest fun id hid => extend_congr (hagree id (.inr hid)) bound]

theorem HirStmt.eval_congr {first second : Env Value} (stmt : HirStmt Code)
    (hagree : ∀ id, stmt.Mentions id → first id = second id) :
    stmt.eval machine first = stmt.eval machine second := by
  cases stmt with
  | letBinding binding => exact HirBinding.eval_congr binding hagree
  | expr val => rw [HirStmt.eval, HirStmt.eval, HirExpr.eval_congr val hagree]

theorem HirBinding.eval_congr {first second : Env Value} (binding : HirBinding Code)
    (hagree : ∀ id, binding.Mentions id → first id = second id) :
    binding.eval machine first = binding.eval machine second := by
  cases binding with
  | mk id name ty mutable val =>
    rw [HirBinding.eval, HirBinding.eval, HirExpr.eval_congr val hagree]

end

/-! ## Turns -/

/-- The temporaries of an argument as statements. -/
def LoweredArgument.lets (turn : LoweredArgument Code) : List (HirStmt Code) :=
  turn.bindings.map .letBinding

/-- The argument or the value of a temporary of it reads or borrows the local. -/
def LoweredArgument.Mentions (turn : LoweredArgument Code) (id : LocalId) : Prop :=
  statementsMention turn.lets id ∨ turn.argument.Mentions id

/-- What the turn of an argument comes to, with the temporaries it binds. -/
def evalTurn (env : Env Value) (turn : LoweredArgument Code) :
    Run World Exit (Passed Value Address × List (LocalId × Value)) := do
  let bound ← evalStatements machine env turn.lets
  let passed ← turn.argument.eval machine (env.extend bound)
  pure (passed, bound)

/-- Evaluate the arguments in their order. -/
def evalTurns (env : Env Value) :
    List (LoweredArgument Code) → Run World Exit (List (Passed Value Address))
  | [] => pure []
  | turn :: rest => do
    let handed ← evalTurn machine env turn
    let others ← evalTurns (env.extend handed.2) rest
    pure (handed.1 :: others)

variable {machine}

theorem evalTurn_congr {first second : Env Value} {turn : LoweredArgument Code}
    (hagree : ∀ id, turn.Mentions id → first id = second id) :
    evalTurn machine first turn = evalTurn machine second turn := by
  rw [evalTurn, evalTurn, evalStatements_congr machine _ fun id hid => hagree id (.inl hid)]
  congr 1
  funext bound
  rw [HirArgument.eval_congr machine _ fun id hid =>
    extend_congr (hagree id (.inr hid)) bound]

theorem evalTurns_congr {turns : List (LoweredArgument Code)} {first second : Env Value}
    (hagree : ∀ turn ∈ turns, ∀ id, turn.Mentions id → first id = second id) :
    evalTurns machine first turns = evalTurns machine second turns := by
  induction turns generalizing first second with
  | nil => rfl
  | cons turn rest ih =>
    rw [forall_mem_cons] at hagree
    rw [evalTurns, evalTurns, evalTurn_congr hagree.1]
    congr 1
    funext handed
    rw [ih fun other hother id hid => extend_congr (hagree.2 other hother id hid) handed.2]

/-- Without temporaries the turns are the arguments of an ordinary call. -/
theorem evalTurns_eq_evalArguments {turns : List (LoweredArgument Code)}
    (hnone : temporaries turns = []) (env : Env Value) :
    evalTurns machine env turns = evalArguments machine env (arguments turns) := by
  induction turns with
  | nil => rfl
  | cons turn rest ih =>
    simp only [temporaries, flatMap_cons, append_eq_nil_iff] at hnone
    have hturn : evalTurn machine env turn =
        (fun passed => (passed, [])) <$> turn.argument.eval machine env := by
      rw [evalTurn, LoweredArgument.lets, hnone.1]
      simp [evalStatements, extend]
    rw [evalTurns, hturn, arguments, map_cons, evalArguments, bind_map_left]
    congr 1
    funext passed
    have hrest := ih hnone.2
    simp only [arguments] at hrest
    simp [extend, hrest]

end Salicin.Codegen.Calls
