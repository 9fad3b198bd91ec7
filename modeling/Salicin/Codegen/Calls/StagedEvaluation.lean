import Salicin.Codegen.Calls.Turns

/-!
# Staged arguments are evaluated at their turn

The statements that staging puts in front of a call do what the turns of the arguments do, in
their order, and the rewritten arguments hand over what the turns came to.
-/

namespace Salicin.Codegen.Calls

open List Runs HirArgument LoweredArgument Env

variable {Rest : Type} {Code Value Address World Exit : Type}
  {machine : Machine Code Value Address World Exit}

/-! ## Turns that keep apart -/

/-- The argument reads or borrows the local and has no other use for it. -/
def HirArgument.Takes (id : LocalId) : HirArgument Code → Prop
  | .copy val | .move val => ∃ place kind, val.kind = .read place kind ∧ place.localId = id
  | .sharedBorrow place | .mutBorrow place => place.localId = id
  | .callableCaptureBorrow _ _ _ _ _ => False

/-- The locals of the arguments are below the limit, and a temporary is used at its own turn
alone. -/
inductive Separate (limit : LocalId) : List (LoweredArgument Code) → Prop
  | nil : Separate limit []
  | plain {turn : LoweredArgument Code} {rest : List (LoweredArgument Code)}
      (hbinds : turn.bindings = [])
      (harg : ∀ id, turn.argument.Mentions id →
        id < limit ∧ ∀ later ∈ temporaries rest, later.id ≠ id)
      (hrest : Separate limit rest) : Separate limit (turn :: rest)
  | bound {turn : LoweredArgument Code} {rest : List (LoweredArgument Code)}
      {binding : HirBinding Code} (hbinds : turn.bindings = [binding])
      (htakes : turn.argument.Takes binding.id) (hlt : binding.id < limit)
      (hval : ∀ id, binding.value.Mentions id → id < limit)
      (hids : ∀ later ∈ temporaries rest, later.id ≠ binding.id)
      (hrest : Separate limit rest) : Separate limit (turn :: rest)

theorem temporaries_cons (turn : LoweredArgument Code) (rest : List (LoweredArgument Code)) :
    temporaries (turn :: rest) = turn.bindings ++ temporaries rest := by
  simp [temporaries]

theorem arguments_cons (turn : LoweredArgument Code) (rest : List (LoweredArgument Code)) :
    arguments (turn :: rest) = turn.argument :: arguments rest := rfl

variable {arg : HirArgument Code} {id : LocalId}

theorem HirArgument.Takes.eq_of_mentions {taken : LocalId} (htakes : arg.Takes taken)
    (hmentions : arg.Mentions id) : id = taken := by
  cases arg with
  | copy val | move val =>
    obtain ⟨place, kind, hkind, hplace⟩ := htakes
    cases val with
    | mk ty valueKind =>
      obtain rfl : valueKind = .read place kind := hkind
      exact (hmentions : place.localId = id).symm.trans hplace
  | sharedBorrow place | mutBorrow place =>
    exact (hmentions : place.localId = id).symm.trans htakes
  | callableCaptureBorrow binding index callableTy captureTy mutable => exact htakes.elim

variable {turn : LoweredArgument Code}

theorem LoweredArgument.mentions_of_plain (hbinds : turn.bindings = [])
    (hmentions : turn.Mentions id) : turn.argument.Mentions id := by
  rw [LoweredArgument.Mentions, lets, hbinds] at hmentions
  exact hmentions.resolve_left fun hnone => hnone

variable {turns : List (LoweredArgument Code)} {limit : LocalId}

theorem Separate.mentions_lt (hsep : Separate limit turns) :
    ∀ turn ∈ turns, ∀ id, turn.Mentions id → id < limit := by
  induction hsep with
  | nil => simp
  | plain hbinds harg hrest ih =>
    refine forall_mem_cons.mpr ⟨fun id hid => ?_, ih⟩
    exact (harg id (mentions_of_plain hbinds hid)).1
  | @bound turn rest binding hbinds htakes hlt hval hids hrest ih =>
    refine forall_mem_cons.mpr ⟨fun id hid => ?_, ih⟩
    rw [LoweredArgument.Mentions, lets, hbinds] at hid
    rcases hid with hid | hid
    · exact hval id (by simpa [statementsMention, HirStmt.Mentions] using hid)
    · rw [htakes.eq_of_mentions hid]
      exact hlt

variable {rest : List (LoweredArgument Code)}

theorem Separate.tail (hsep : Separate limit (turn :: rest)) : Separate limit rest := by
  cases hsep <;> assumption

/-! ## Taking the temporary of a turn -/

/-- The local whose temporary staging takes for an argument. -/
def HirArgument.takenLocal : HirArgument Code → Option LocalId
  | .copy val | .move val =>
    if isFunctionConstant val.kind then none else readLocal val.kind
  | .sharedBorrow place | .mutBorrow place => some place.localId
  | .callableCaptureBorrow _ _ _ _ _ => none

/-- The statement of the temporary that is taken, and the temporaries that remain. -/
def takeFor (arg : HirArgument Code) (borrowed : List (HirBinding Code)) :
    List (HirStmt Code) × List (HirBinding Code) :=
  match arg.takenLocal with
  | some id => takeBinding id borrowed
  | none => ([], borrowed)

theorem takeBinding_of_ne {borrowed : List (HirBinding Code)}
    (hne : ∀ binding ∈ borrowed, binding.id ≠ id) : takeBinding id borrowed = ([], borrowed) := by
  have hfind : borrowed.find? (fun binding => binding.id = id) = none := by
    simpa using hne
  have hfilter : borrowed.filter (fun binding => binding.id ≠ id) = borrowed := by
    simpa using hne
  rw [takeBinding, hfind, hfilter]
  rfl

theorem takeBinding_head {binding : HirBinding Code} {borrowed : List (HirBinding Code)}
    (hne : ∀ other ∈ borrowed, other.id ≠ binding.id) :
    takeBinding binding.id (binding :: borrowed) = ([.letBinding binding], borrowed) := by
  simpa [takeBinding] using hne

theorem HirArgument.mentions_of_takenLocal (htaken : arg.takenLocal = some id) :
    arg.Mentions id := by
  cases arg with
  | copy val | move val =>
    obtain ⟨ty, kind⟩ := val
    cases kind <;> simp_all [takenLocal, isFunctionConstant, readLocal, HirArgument.Mentions,
      HirExpr.Mentions, HirExprKind.Mentions]
  | sharedBorrow place | mutBorrow place => exact Option.some.inj htaken
  | callableCaptureBorrow binding index callableTy captureTy mutable => simp [takenLocal] at htaken

theorem HirArgument.Takes.takenLocal (htakes : arg.Takes id) : arg.takenLocal = some id := by
  cases arg with
  | copy val | move val =>
    obtain ⟨place, kind, hkind, hplace⟩ := htakes
    simp [HirArgument.takenLocal, hkind, isFunctionConstant, readLocal, hplace]
  | sharedBorrow place | mutBorrow place => exact congrArg some htakes
  | callableCaptureBorrow binding index callableTy captureTy mutable => exact htakes.elim

theorem Separate.takeFor_eq (hsep : Separate limit (turn :: rest)) :
    takeFor turn.argument (temporaries (turn :: rest)) = (turn.lets, temporaries rest) := by
  cases hsep with
  | plain hbinds harg hrest =>
    rw [temporaries_cons, hbinds, nil_append, lets, hbinds, takeFor]
    cases htaken : turn.argument.takenLocal with
    | none => rfl
    | some id =>
      exact takeBinding_of_ne (harg id (mentions_of_takenLocal htaken)).2
  | bound hbinds htakes hlt hval hids hrest =>
    rw [temporaries_cons, hbinds, lets, hbinds, takeFor, htakes.takenLocal]
    exact takeBinding_head hids

/-! ## One argument -/

/-- The value that staging binds to a local, and the argument that reads it back. -/
def HirArgument.stagedValue : HirArgument Code →
    Option (HirExpr Code × (HirExpr Code → HirArgument Code) × HirReadKind)
  | .copy val => if isFunctionConstant val.kind then none else some (val, .copy, .copy)
  | .move val => if isFunctionConstant val.kind then none else some (val, .move, .move)
  | _ => none

/-- The local that holds a staged value. -/
def stagedBinding (id : LocalId) (val : HirExpr Code) : HirBinding Code where
  id := id
  name := "$staged call argument"
  ty := val.ty
  mutable := false
  value := val

/-- The expression that reads a staged value back. -/
def stagedRead (id : LocalId) (ty : Ty) (kind : HirReadKind) : HirExpr Code where
  ty := ty
  kind := .read (.whole id ty false) kind

variable {pass : HirExpr Code → HirArgument Code} {val : HirExpr Code} {kind : HirReadKind}

theorem stageArgument_value (hstaged : arg.stagedValue = some (val, pass, kind))
    (borrowed : List (HirBinding Code)) (state : State Rest) :
    (stageArgument arg borrowed state).1 =
        { statements := (takeFor arg borrowed).1 ++
            [.letBinding (stagedBinding state.nextLocal val)]
          argument := pass (stagedRead state.nextLocal val.ty kind)
          borrowed := (takeFor arg borrowed).2 } ∧
      (stageArgument arg borrowed state).2.nextLocal = state.nextLocal + 1 := by
  cases arg with
  | copy val' | move val' =>
    simp only [stagedValue, Option.ite_none_left_eq_some, Option.some.injEq,
      Prod.mk.injEq] at hstaged
    obtain ⟨hconst, rfl, rfl, rfl⟩ := hstaged
    cases hread : readLocal val'.kind with
    | none =>
      simp only [stageArgument, stageValue, hconst, hread, takeFor, HirArgument.takenLocal]
      exact ⟨rfl, rfl⟩
    | some id =>
      simp only [stageArgument, stageValue, hconst, hread, takeFor, HirArgument.takenLocal]
      exact ⟨rfl, rfl⟩
  | sharedBorrow place | mutBorrow place => simp [stagedValue] at hstaged
  | callableCaptureBorrow binding index callableTy captureTy mutable =>
    simp [stagedValue] at hstaged

theorem stageArgument_other (hstaged : arg.stagedValue = none)
    (borrowed : List (HirBinding Code)) (state : State Rest) :
    stageArgument arg borrowed state =
      ({ statements := (takeFor arg borrowed).1
         argument := arg
         borrowed := (takeFor arg borrowed).2 }, state) := by
  cases arg with
  | copy val | move val =>
    have hconst : isFunctionConstant val.kind = true := by
      by_contra hconst
      simp [stagedValue, hconst] at hstaged
    simp only [stageArgument, stageValue, hconst, takeFor, HirArgument.takenLocal]
    rfl
  | sharedBorrow place | mutBorrow place => rfl
  | callableCaptureBorrow binding index callableTy captureTy mutable => rfl

/-! ## The turn of a staged argument -/

theorem evalStatements_append (env : Env Value) (first second : List (HirStmt Code)) :
    evalStatements machine env (first ++ second) =
      evalStatements machine env first >>= fun bound =>
        evalStatements machine (env.extend bound) second >>= fun others =>
          pure (bound ++ others) := by
  induction first generalizing env with
  | nil => simp [evalStatements, extend]
  | cons statement rest ih =>
    simp only [cons_append, evalStatements, ih, extend_append, bind_assoc, pure_bind,
      append_assoc]

variable (machine) in
/-- The address of the place that an argument hands over. -/
def HirArgument.address (world : World) : HirArgument Code → Option Address
  | .sharedBorrow place | .mutBorrow place => some (machine.address place world)
  | .callableCaptureBorrow binding index callableTy _ _ =>
    some (machine.captureAddress binding index callableTy world)
  | .copy _ | .move _ => none

variable (machine) in
/-- The address of the place outside the call that a turn hands over. -/
def LoweredArgument.address (turn : LoweredArgument Code) (world : World) : Option Address :=
  if turn.bindings.isEmpty then turn.argument.address machine world else none

variable (machine) in
/-- The loan of a place that a call borrows holds until the call: the turns of the arguments
after it do not change what the place denotes. -/
def LoansHold (turns : List (LoweredArgument Code)) : Prop :=
  turns.Pairwise fun turn later => ∀ env world handed after,
    evalTurn machine env later world = some (.ok handed, after) →
      turn.address machine after = turn.address machine world

variable (machine) in
/-- An argument that is not staged is handed over without a change of the world. -/
theorem HirArgument.eval_of_not_staged (hstaged : arg.stagedValue = none) (env : Env Value)
    (world : World) :
    ∃ passed, arg.eval machine env world = some (.ok passed, world) ∧
      ∀ later, arg.address machine later = arg.address machine world →
        arg.eval machine env later = some (.ok passed, later) := by
  cases arg with
  | copy val | move val =>
    obtain ⟨ty, kind⟩ := val
    cases kind with
    | function name =>
      exact ⟨.value (machine.function name), rfl, fun later _ => rfl⟩
    | _ => simp [stagedValue, isFunctionConstant] at hstaged
  | sharedBorrow place | mutBorrow place =>
    simp only [eval, Machine.borrow, HirArgument.address, Option.some.injEq]
    cases env place.localId with
    | none => exact ⟨_, rfl, fun later haddr => by rw [← haddr]; rfl⟩
    | some held => exact ⟨_, rfl, fun later _ => rfl⟩
  | callableCaptureBorrow binding index callableTy captureTy mutable =>
    simp only [eval, HirArgument.address, Option.some.injEq]
    exact ⟨_, rfl, fun later haddr => by rw [← haddr]; rfl⟩

variable (machine) in
/-- The place of a bound local is handed over with what it holds, in every world. -/
theorem HirArgument.eval_of_takes (htakes : arg.Takes id)
    (hstaged : arg.stagedValue = none) {env : Env Value} {held : Value}
    (hheld : env id = some held) :
    ∃ passed, ∀ world, arg.eval machine env world = some (.ok passed, world) := by
  cases arg with
  | copy val | move val =>
    obtain ⟨place, kind, hkind, hplace⟩ := htakes
    simp [stagedValue, hkind, isFunctionConstant] at hstaged
  | sharedBorrow place | mutBorrow place =>
    obtain rfl : place.localId = id := htakes
    simp only [eval, Machine.borrow, hheld]
    exact ⟨_, fun world => rfl⟩
  | callableCaptureBorrow binding index callableTy captureTy mutable => exact htakes.elim

theorem evalStatements_lets {bindings : List (HirBinding Code)} {env : Env Value}
    {world after : World} {bound : List (LocalId × Value)}
    (hrun : evalStatements machine env (bindings.map .letBinding) world =
      some (.ok bound, after)) : bound.map Prod.fst = bindings.map HirBinding.id := by
  induction bindings generalizing env world bound with
  | nil =>
    rw [map_nil, evalStatements, pure_run, Option.some.injEq, Prod.mk.injEq,
      Except.ok.injEq] at hrun
    rw [← hrun.1, map_nil, map_nil]
  | cons binding rest ih =>
    rw [map_cons, evalStatements] at hrun
    obtain ⟨first, between, hfst, hrest⟩ := bind_run_eq_ok hrun
    obtain ⟨others, final, hothers, hpure⟩ := bind_run_eq_ok hrest
    rw [pure_run, Option.some.injEq, Prod.mk.injEq, Except.ok.injEq] at hpure
    obtain ⟨id, name, ty, mutable, val⟩ := binding
    rw [HirStmt.eval, HirBinding.eval] at hfst
    obtain ⟨held, later, -, hheld⟩ := bind_run_eq_ok hfst
    rw [pure_run, Option.some.injEq, Prod.mk.injEq, Except.ok.injEq] at hheld
    have hids := ih (hpure.2 ▸ hothers)
    rw [← hpure.1, ← hheld.1, map_append, hids]
    rfl

section Head

variable {limit : LocalId} {turn : LoweredArgument Code} {rest : List (LoweredArgument Code)}

variable (machine) in
/-- What the statements of a staged argument have bound, beside what the turn hands over: its
temporary and maybe the staged value; the rewritten argument hands over the same. -/
structure HandedOver (env : Env Value) (staged : LocalId) (turn : LoweredArgument Code)
    (arg : HirArgument Code)
    (handed : Passed Value Address × List (LocalId × Value)) (bound : List (LocalId × Value))
    (after : World) : Prop where
  bound_eq : ∃ extra, bound = handed.2 ++ extra ∧ ∀ entry ∈ extra, entry.1 = staged
  eval_eq : ∀ later, turn.address machine later = turn.address machine after →
    arg.eval machine (env.extend bound) later = some (.ok handed.1, later)

variable (machine) in
/-- The argument that is staged passes its value in the mode that reads it back. -/
theorem HirArgument.eq_of_staged (hstaged : arg.stagedValue = some (val, pass, kind)) :
    arg = pass val ∧ ∀ (val : HirExpr Code) (env : Env Value),
      (pass val).eval machine env =
        val.eval machine env >>= fun res => pure (.value res) := by
  cases arg with
  | copy val' | move val' =>
    simp only [stagedValue, Option.ite_none_left_eq_some, Option.some.injEq,
      Prod.mk.injEq] at hstaged
    obtain ⟨-, rfl, rfl, -⟩ := hstaged
    exact ⟨rfl, fun val env => by rw [eval]⟩
  | sharedBorrow place | mutBorrow place => simp [stagedValue] at hstaged
  | callableCaptureBorrow binding index callableTy captureTy mutable =>
    simp [stagedValue] at hstaged

/-- The argument that reads a staged value back mentions the local that holds it. -/
theorem HirArgument.stagedRead_mentions {staged : LocalId}
    (hstaged : arg.stagedValue = some (val, pass, kind))
    (hmentions : (pass (stagedRead staged val.ty kind)).Mentions id) : staged = id := by
  cases arg with
  | copy val' | move val' =>
    simp only [stagedValue, Option.ite_none_left_eq_some, Option.some.injEq,
      Prod.mk.injEq] at hstaged
    obtain ⟨-, rfl, rfl, rfl⟩ := hstaged
    exact hmentions
  | sharedBorrow place | mutBorrow place => simp [stagedValue] at hstaged
  | callableCaptureBorrow binding index callableTy captureTy mutable =>
    simp [stagedValue] at hstaged

theorem matches_refl {Result : Type} (outcome : Option (Except Exit Result × World)) :
    Matches (fun res res' _ => res = res') outcome outcome :=
  Matches.refl (fun _ _ => rfl) outcome

theorem evalTurn_staged_value (hstaged : turn.argument.stagedValue = some (val, pass, kind))
    (env : Env Value) (id : LocalId) (world : World) :
    Matches (HandedOver machine env id turn (pass (stagedRead id val.ty kind)))
      (evalTurn machine env turn world)
      (evalStatements machine env (turn.lets ++ [.letBinding (stagedBinding id val)]) world) := by
  obtain ⟨harg, hpass⟩ := eq_of_staged machine hstaged
  rw [evalTurn, evalStatements_append, harg]
  refine Matches.bind (matches_refl _) fun bound bound' middle _ hbound => ?_
  subst hbound
  simp only [hpass, evalStatements, HirStmt.eval, stagedBinding, HirBinding.eval, bind_assoc,
    pure_bind, append_nil]
  refine Matches.bind (matches_refl _) fun result result' after _ hres => ?_
  subst hres
  refine .returned ⟨⟨[(id, result)], rfl, by simp⟩, fun later _ => ?_⟩
  have hread : (env.extend (bound ++ [(id, result)])) id = some result := by
    simp [extend]
  rw [hpass]
  simp only [stagedRead, HirExpr.eval, HirExprKind.eval, Machine.readPlace, HirPlace.whole, hread]
  rfl

/-- An argument that is handed over as it is comes to the same when the call is made. -/
theorem evalTurn_not_staged (hstaged : turn.argument.stagedValue = none)
    (hsep : Separate limit (turn :: rest)) (env : Env Value) (id : LocalId) (world : World) :
    Matches (HandedOver machine env id turn turn.argument) (evalTurn machine env turn world)
      (evalStatements machine env turn.lets world) := by
  rw [evalTurn]
  cases hsep with
  | plain hbinds harg hrest =>
    obtain ⟨passed, hnow, hlater⟩ := eval_of_not_staged machine hstaged env
      world
    have hrun : (turn.argument.eval machine env >>= fun passed =>
        pure (passed, ([] : List (LocalId × Value)))) world = some (.ok (passed, []), world) := by
      rw [bind_run_of_eq hnow]
      rfl
    rw [lets, hbinds, map_nil, evalStatements, pure_bind, extend,
      foldl_nil, hrun, pure_run]
    refine .returned ⟨⟨[], rfl, by simp⟩, fun later haddr => hlater later ?_⟩
    simpa [LoweredArgument.address, hbinds] using haddr
  | @bound _ _ binding hbinds htakes hlt hval hids hrest =>
    have hmatches : Matches (HandedOver machine env id turn turn.argument)
        ((evalStatements machine env turn.lets >>= fun bound =>
          turn.argument.eval machine (env.extend bound) >>= fun passed =>
            pure (passed, bound)) world)
        ((evalStatements machine env turn.lets >>= pure) world) := by
      refine Matches.bind (matches_refl _) fun bound bound' after hrun hbound => ?_
      subst hbound
      obtain ⟨held, rfl⟩ : ∃ held, bound = [(binding.id, held)] := by
        rw [lets] at hrun
        have hids := evalStatements_lets hrun
        rw [hbinds, map_singleton, map_eq_singleton_iff] at hids
        obtain ⟨entry, rfl, hid⟩ := hids
        exact ⟨entry.2, by rw [← hid]⟩
      have hheld : env.extend [(binding.id, held)] binding.id = some held := by
        simp [extend]
      obtain ⟨passed, hpassed⟩ := eval_of_takes machine htakes hstaged hheld
      rw [bind_run_of_eq (hpassed after), pure_run, pure_run]
      exact .returned ⟨⟨[], by simp, by simp⟩, fun later _ => hpassed later⟩
    rwa [bind_pure] at hmatches

end Head

/-! ## All the turns -/

/-- Staging the argument of a turn: its statements do what the turn does, and the temporaries
of the later turns remain. -/
structure StagesTurn (machine : Machine Code Value Address World Exit) (env : Env Value)
    (world : World) (turn : LoweredArgument Code) (remaining : List (HirBinding Code))
    (before : LocalId) (staged : StagedArgument Code) (after : LocalId) : Prop where
  runs : Matches (HandedOver machine env before turn staged.argument)
    (evalTurn machine env turn world) (evalStatements machine env staged.statements world)
  borrowed : staged.borrowed = remaining
  le : before ≤ after
  /-- The rewritten argument has no local of a later turn. -/
  mentions : ∀ id, staged.argument.Mentions id → id < after ∧ ∀ later ∈ remaining, later.id ≠ id

theorem Separate.temporary_lt (hsep : Separate limit turns) :
    ∀ later ∈ temporaries turns, later.id < limit := by
  induction hsep with
  | nil => simp [temporaries]
  | plain hbinds harg hrest ih => simpa [temporaries_cons, hbinds] using ih
  | bound hbinds htakes hlt hval hids hrest ih =>
    simpa [temporaries_cons, hbinds, hlt] using ih

theorem Separate.argument_mentions (hsep : Separate limit (turn :: rest)) :
    ∀ id, turn.argument.Mentions id → id < limit ∧ ∀ later ∈ temporaries rest, later.id ≠ id := by
  cases hsep with
  | plain hbinds harg hrest => exact harg
  | bound hbinds htakes hlt hval hids hrest =>
    intro id hid
    rw [htakes.eq_of_mentions hid]
    exact ⟨hlt, hids⟩

variable (machine) in
theorem stageArgument_stagesTurn (hsep : Separate limit (turn :: rest)) {state : State Rest}
    (hlimit : limit ≤ state.nextLocal) (env : Env Value) (world : World) :
    StagesTurn machine env world turn (temporaries rest) state.nextLocal
      (stageArgument turn.argument (temporaries (turn :: rest)) state).1
      (stageArgument turn.argument (temporaries (turn :: rest)) state).2.nextLocal := by
  cases hstaged : turn.argument.stagedValue with
  | none =>
    rw [stageArgument_other hstaged, hsep.takeFor_eq]
    exact
      { runs := evalTurn_not_staged hstaged hsep env state.nextLocal world
        borrowed := rfl
        le := le_rfl
        mentions := fun id hid =>
          ⟨(hsep.argument_mentions id hid).1.trans_le hlimit,
            (hsep.argument_mentions id hid).2⟩ }
  | some staged =>
    obtain ⟨val, pass, kind⟩ := staged
    obtain ⟨harg, hnext⟩ := stageArgument_value hstaged (temporaries (turn :: rest)) state
    rw [harg, hnext, hsep.takeFor_eq]
    refine
      { runs := evalTurn_staged_value hstaged env state.nextLocal world
        borrowed := rfl
        le := Nat.le_succ _
        mentions := fun id hid => ?_ }
    obtain rfl : state.nextLocal = id := stagedRead_mentions hstaged hid
    exact ⟨Nat.lt_succ_self _, fun later hlater =>
      ((hsep.tail.temporary_lt later hlater).trans_le hlimit).ne⟩

theorem evalTurns_address (hholds : ∀ later ∈ turns, ∀ env world handed after,
      evalTurn machine env later world = some (.ok handed, after) →
        turn.address machine after = turn.address machine world) {env : Env Value}
    {world after : World} {passed : List (Passed Value Address)}
    (hrun : evalTurns machine env turns world = some (.ok passed, after)) :
    turn.address machine after = turn.address machine world := by
  induction turns generalizing env world after passed with
  | nil =>
    rw [evalTurns, pure_run, Option.some.injEq, Prod.mk.injEq] at hrun
    rw [hrun.2]
  | cons later rest ih =>
    rw [forall_mem_cons] at hholds
    obtain ⟨handed, between, hlater, hrest⟩ := bind_run_eq_ok hrun
    obtain ⟨others, final, hothers, hpure⟩ := bind_run_eq_ok hrest
    rw [pure_run, Option.some.injEq, Prod.mk.injEq] at hpure
    calc turn.address machine after
        = turn.address machine final := by rw [hpure.2]
      _ = turn.address machine between := ih hholds.2 hothers
      _ = turn.address machine world := hholds.1 env world handed between hlater

theorem evalTurn_bound {env : Env Value} {world after : World}
    {handed : Passed Value Address × List (LocalId × Value)}
    (hrun : evalTurn machine env turn world = some (.ok handed, after)) :
    ∀ entry ∈ handed.2, ∃ binding ∈ turn.bindings, binding.id = entry.1 := by
  obtain ⟨bound, between, hlets, harg⟩ := bind_run_eq_ok hrun
  obtain ⟨passed, final, -, hpure⟩ := bind_run_eq_ok harg
  rw [pure_run, Option.some.injEq, Prod.mk.injEq, Except.ok.injEq] at hpure
  rw [lets] at hlets
  intro entry hentry
  rw [← hpure.1] at hentry
  have hmem : entry.1 ∈ turn.bindings.map HirBinding.id :=
    evalStatements_lets hlets ▸ mem_map_of_mem hentry
  exact mem_map.mp hmem

theorem stageArguments_cons (arg : HirArgument Code) (others : List (HirArgument Code))
    (borrowed : List (HirBinding Code)) (state : State Rest) :
    stageArguments (arg :: others) borrowed state =
      let staged := stageArgument arg borrowed state
      let further := stageArguments others staged.1.borrowed staged.2
      ((staged.1.statements ++ further.1.1, staged.1.argument :: further.1.2), further.2) := rfl

variable (machine) in
/-- What the statements of all the staged arguments have bound: no local but the temporaries and
fresh ones. The rewritten arguments hand over what the turns came to. -/
structure AllHandedOver (env : Env Value) (remaining : List (HirBinding Code)) (before : LocalId)
    (arguments : List (HirArgument Code)) (passed : List (Passed Value Address))
    (bound : List (LocalId × Value)) (after : World) : Prop where
  bound_ids : ∀ entry ∈ bound, (∃ binding ∈ remaining, binding.id = entry.1) ∨ before ≤ entry.1
  eval_eq : evalArguments machine (env.extend bound) arguments after = some (.ok passed, after)

/-- What the staged arguments bind later does not change an argument that is staged first. -/
theorem StagesTurn.eval_extend {env : Env Value} {world : World}
    {remaining : List (HirBinding Code)} {before after : LocalId} {staged : StagedArgument Code}
    (hstages : StagesTurn machine env world turn remaining before staged after)
    {bound : List (LocalId × Value)}
    (hbound : ∀ entry ∈ bound, (∃ binding ∈ remaining, binding.id = entry.1) ∨ after ≤ entry.1)
    (env' : Env Value) :
    staged.argument.eval machine (env'.extend bound) = staged.argument.eval machine env' := by
  apply eval_congr
  intro id hid
  obtain ⟨hlt, hne⟩ := hstages.mentions id hid
  apply extend_eq_of_ne
  intro entry hentry heq
  cases hbound entry hentry with
  | inl hbind =>
    obtain ⟨binding, hmem, hbind⟩ := hbind
    exact hne binding hmem (hbind.trans heq)
  | inr hafter => exact absurd hlt (Nat.not_lt.mpr (heq ▸ hafter))

/-- The statements in front of a call do what the turns of its arguments do, in their order. -/
theorem evalTurns_staged (hsep : Separate limit turns) (hloans : LoansHold machine turns)
    {state : State Rest} (hlimit : limit ≤ state.nextLocal) (env : Env Value) (world : World) :
    Matches
      (AllHandedOver machine env (temporaries turns) state.nextLocal
        (stageArguments (arguments turns) (temporaries turns) state).1.2)
      (evalTurns machine env turns world)
      (evalStatements machine env
        (stageArguments (arguments turns) (temporaries turns) state).1.1 world) := by
  induction turns generalizing state env world with
  | nil => exact .returned ⟨by simp, rfl⟩
  | cons turn rest ih =>
    have hstages := stageArgument_stagesTurn machine hsep hlimit env world
    rw [arguments_cons, stageArguments_cons, evalTurns, evalStatements_append, hstages.borrowed]
    generalize hstaged : stageArgument turn.argument (temporaries (turn :: rest)) state = staged
      at hstages
    refine Matches.bind hstages.runs fun handed bound middle hturn hhanded => ?_
    obtain ⟨⟨extra, hbound, hextra⟩, heval⟩ := hhanded
    have hsame : evalTurns machine (env.extend handed.2) rest =
        evalTurns machine (env.extend bound) rest := by
      apply evalTurns_congr
      intro later hlater id hid
      rw [hbound, extend_append]
      refine (extend_eq_of_ne fun entry hentry => ?_).symm
      rw [hextra entry hentry]
      exact ((hsep.tail.mentions_lt later hlater id hid).trans_le hlimit).ne'
    rw [hsame]
    refine Matches.bind
      (ih hsep.tail hloans.of_cons (hlimit.trans hstages.le) (env.extend bound) middle)
      fun passed others after hrun hothers => ?_
    have hholds : turn.address machine after = turn.address machine middle :=
      evalTurns_address (fun later => rel_of_pairwise_cons hloans) hrun
    have harg := heval after hholds
    rw [← hstages.eval_extend hothers.bound_ids, ← extend_append] at harg
    have hrest := hothers.eval_eq
    rw [← extend_append] at hrest
    refine .returned ⟨fun entry hentry => ?_, ?_⟩
    · rw [hbound, append_assoc, mem_append, mem_append] at hentry
      rcases hentry with hentry | hentry | hentry
      · obtain ⟨binding, hmem, hid⟩ := evalTurn_bound hturn entry hentry
        exact .inl ⟨binding, by simp [temporaries_cons, hmem], hid⟩
      · exact .inr (hextra entry hentry).ge
      · refine (hothers.bound_ids entry hentry).imp ?_ hstages.le.trans
        intro hbind
        obtain ⟨binding, hmem, hid⟩ := hbind
        exact ⟨binding, by simp [temporaries_cons, hmem], hid⟩
    · rw [evalArguments, bind_run_of_eq harg, hstages.borrowed, bind_run_of_eq hrest]
      rfl

end Salicin.Codegen.Calls
