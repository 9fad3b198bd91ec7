import Salicin.Modules.ScopeAgreement

/-!
# Lexical exactness of the replaced names

The result of the rewriting is compared, node by node, with what the binders around each name
ask for.
-/

namespace Salicin.Modules

open List Salicin.Source Naming Rewriting

namespace NameResolver

variable (resolver : NameResolver) (ctx : ResolveContext) (hides : Bool)

/-- How the paths in a module of the program are read. -/
def naming : Naming where
  declared path := (resolver.findName path ctx).map (·.canonical)
  underModule path := 0 < resolver.longestModulePrefix ctx path
  hidesTypes := hides

variable {resolver ctx}

/-! ## Single names -/

theorem value_resolvePath (path : List String) : (resolver.resolvePath ctx path).value =
      (resolver.naming ctx hides).declared path := by
  simp only [resolvePath, Resolver.resolveLogicalPath, naming]
  cases resolver.findName path ctx with
  | none => rfl
  | some reference => rfl

theorem value_renamePath (path : List String) (usage name : String) :
    (resolver.renamePath ctx path usage name).value =
      (resolver.naming ctx hides).canonical path name := by
  simp only [renamePath, value_bind, value_resolvePath hides, Naming.canonical]
  cases (resolver.naming ctx hides).declared path with
  | none => rfl
  | some canonical => rfl

theorem value_resolveLongestPrefix (segs : List String) :
    (resolver.resolveLongestPrefix ctx segs).value =
      longestPrefix (resolver.naming ctx hides).declared segs segs.length := by
  unfold resolveLongestPrefix
  induction segs.length with
  | zero => rfl
  | succ len ih =>
    simp only [resolveLongestPrefixUpTo, longestPrefix, value_bind, value_resolvePath hides]
    cases (resolver.naming ctx hides).declared (segs.take (len + 1)) with
    | none => exact ih
    | some canonical => rfl

/-- Leaving a name alone and replacing it come to the same for a name that keeps itself. -/
theorem ite_eq_ite_iff {Kind : Type} {seen bound : Prop} [Decidable seen] [Decidable bound]
    {name replaced : Kind} :
    (if seen then name else replaced) = (if bound then name else replaced) ↔
      decide seen = decide bound ∨ replaced = name := by
  by_cases hseen : seen <;> by_cases hbound : bound <;> simp [hseen, hbound, eq_comm]

variable {hides}

theorem splitName_ne_nil (name : String) : splitName name ≠ [] := by
  simp [splitName, splitOn, splitOnP_ne_nil]

variable {name : String}

/-- A dotted name that leads to a declaration as a whole is replaced as a whole. -/
theorem longestCanonical_of_declared {naming : Naming} {canonical : String}
    (hdecl : naming.declared (splitName name) = some canonical) :
    naming.longestCanonical (splitName name) name = canonical := by
  obtain ⟨first, rest, hpath⟩ := exists_cons_of_ne_nil (splitName_ne_nil name)
  rw [hpath] at hdecl ⊢
  simp [longestCanonical, longestPrefix, hdecl]

variable {bound seen : List String}

/-- What the code makes of a dotted name that it has looked up in a scope. -/
theorem dotted_exact_iff {naming : Naming} :
    (if startsIn seen (splitName name) then name else naming.canonical (splitName name) name) =
        naming.exactPathName bound name ↔
      naming.DottedAgrees seen bound name := by
  unfold exactPathName Naming.DottedAgrees
  cases hseen : startsIn seen (splitName name) <;> cases hbound : startsIn bound (splitName name)
  · cases hdecl : naming.declared (splitName name) with
    | none => simp [Naming.canonical, hdecl, eq_comm]
    | some canonical =>
      simp [Naming.canonical, hdecl, longestCanonical_of_declared hdecl]
  · simp [Naming.KeepsName]
  · simp [eq_comm]
  · simp

theorem rewriteTypeName_exact_iff {types : List String} :
    (resolver.rewriteTypeName ctx types name).value =
        (resolver.naming ctx hides).exactPathName bound name ↔
      (resolver.naming ctx hides).DottedAgrees types bound name := by
  have hval : (resolver.rewriteTypeName ctx types name).value =
      if startsIn types (splitName name) then name
      else (resolver.naming ctx hides).canonical (splitName name) name := by
    unfold rewriteTypeName
    split
    · rfl
    · exact value_renamePath hides _ _ _
  rw [hval, dotted_exact_iff]

theorem renamePath_exactPathName_iff {usage : String} :
    (resolver.renamePath ctx (splitName name) usage name).value =
        (resolver.naming ctx hides).exactPathName bound name ↔
      (resolver.naming ctx hides).DottedAgrees [] bound name := by
  have hunseen : startsIn [] (splitName name) = false := by simp [startsIn]
  rw [value_renamePath hides, ← dotted_exact_iff, hunseen]
  simp

theorem value_rewriteName (hides : Bool) (values : List String) (name : String) :
    (resolver.rewriteName ctx values name).value =
      (resolver.naming ctx hides).exactName values name := by
  unfold rewriteName exactName
  split
  · rfl
  · exact value_renamePath hides _ _ _

theorem value_rewriteCompileArgumentName (hides : Bool) (types : List String)
    (name : String) : (resolver.rewriteCompileArgumentName ctx types name).value =
      if name ∈ builtinCompileArguments then name
      else (resolver.naming ctx hides).exactName types name := by
  unfold rewriteCompileArgumentName exactName
  by_cases hbuiltin : name ∈ builtinCompileArguments <;> by_cases hbound : name ∈ types
  all_goals simp only [hbuiltin, hbound, or_true, true_or, or_self, if_true, if_false]
  · rfl
  · rfl
  · rfl
  · exact value_renamePath hides _ _ _

theorem exactName_eq_iff {naming : Naming} :
    naming.exactName seen name = naming.exactName bound name ↔
      naming.PlainAgrees seen bound name := by
  rw [exactName, exactName, ite_eq_ite_iff]
  rfl

/-! ## Lengths and types -/

attribute [local simp] rewriteStaticExpression rewriteStaticGroups rewriteStaticArguments
  rewriteType rewriteTypes rewriteTypeGroups rewriteTypeArguments rewriteEffects exactStatic
  exactStaticGroups exactStaticArguments exactType exactTypes
  exactTypeGroups exactTypeArguments exactEffects Naming.StaticAgrees
  Naming.StaticGroupsAgree Naming.StaticArgumentsAgree Naming.TypeAgrees Naming.TypesAgree
  Naming.TypeGroupsAgree Naming.TypeArgumentsAgree Naming.EffectsAgree

theorem value_rewriteStaticName (hides : Bool) (scope : List String) (name : String) :
    (resolver.rewriteStaticExpression ctx scope (.name name)).value =
      .name ((resolver.naming ctx hides).exactName scope name) := by
  unfold rewriteStaticExpression exactName
  split
  · rfl
  · exact congrArg StaticExpr.name (value_renamePath hides _ _ _)

mutual

theorem rewriteStaticExpression_exact_iff {seen : List String} {bound : Scopes} :
    ∀ expression : StaticExpr, (resolver.rewriteStaticExpression ctx seen expression).value =
          (resolver.naming ctx hides).exactStatic bound expression ↔
        (resolver.naming ctx hides).StaticAgrees seen bound expression
  | .usize _ => by simp
  | .bool _ => by simp
  | .name name => by
    rw [Naming.StaticAgrees, ← exactName_eq_iff, value_rewriteStaticName hides]
    simp
  | .unary _ opnd => by
    simp [rewriteStaticExpression_exact_iff opnd]
  | .binary left _ right => by
    simp [rewriteStaticExpression_exact_iff left, rewriteStaticExpression_exact_iff right]
  | .call fn groups => by
    simp [renamePath_exactPathName_iff, rewriteStaticGroups_exact_iff groups]

theorem rewriteStaticGroups_exact_iff {seen : List String} {bound : Scopes} :
    ∀ groups : List (List (Option String × StaticExpr)),
      (resolver.rewriteStaticGroups ctx seen groups).value =
          (resolver.naming ctx hides).exactStaticGroups bound groups ↔
        (resolver.naming ctx hides).StaticGroupsAgree seen bound groups
  | [] => by simp
  | group :: rest => by
    simp [rewriteStaticArguments_exact_iff group, rewriteStaticGroups_exact_iff rest]

theorem rewriteStaticArguments_exact_iff {seen : List String} {bound : Scopes} :
    ∀ args : List (Option String × StaticExpr),
      (resolver.rewriteStaticArguments ctx seen args).value =
          (resolver.naming ctx hides).exactStaticArguments bound args ↔
        (resolver.naming ctx hides).StaticArgumentsAgree seen bound args
  | [] => by
    simp
  | (_, value) :: rest => by
    simp [rewriteStaticExpression_exact_iff value, rewriteStaticArguments_exact_iff rest]

end

theorem rewriteLength_exact_iff {bound : Scopes} (len : USizeConst) :
    (resolver.rewriteLength ctx seen len).value =
        (resolver.naming ctx hides).exactLength bound len ↔
      (resolver.naming ctx hides).LengthAgrees seen bound len := by
  cases len with
  | literal value => simp [rewriteLength, exactLength, Naming.LengthAgrees]
  | expression expression =>
    simp [rewriteLength, exactLength, Naming.LengthAgrees,
      rewriteStaticExpression_exact_iff expression]
  | parameter name =>
    by_cases hbound : name ∈ bound.values
    · simp [rewriteLength, exactLength, Naming.LengthAgrees, exactName,
        Naming.NeverReplaced, Naming.NameAgrees, startsIn, hbound]
    · simp [rewriteLength, exactLength, Naming.LengthAgrees, exactName,
        Naming.NeverReplaced, Naming.NameAgrees, Naming.KeepsName, startsIn, hbound, eq_comm]

mutual

theorem rewriteType_exact_iff {seen : List String} {bound : Scopes} :
    ∀ ty : SourceType, (resolver.rewriteType ctx seen ty).value =
          (resolver.naming ctx hides).exactType bound ty ↔
        (resolver.naming ctx hides).TypeAgrees seen bound ty
  | .integer _ | .bool | .unit | .compileUSize _ => by
    simp
  | .tuple fields => by
    simp [rewriteTypes_exact_iff fields]
  | .borrow _ _ _ pointee => by
    simp [rewriteType_exact_iff pointee]
  | .array elem _ => by
    simp [rewriteType_exact_iff elem]
  | .arrayApplication constructor elem len => by
    simp [renamePath_exactPathName_iff, rewriteType_exact_iff elem, rewriteLength_exact_iff len]
  | .function groups effects res => by
    simp [rewriteTypeGroups_exact_iff groups, rewriteEffects_exact_iff effects,
      rewriteType_exact_iff res]
  | .named name args => by
    simp [rewriteTypeName_exact_iff, rewriteTypes_exact_iff args]
  | .namedArgs name args => by
    simp [rewriteTypeName_exact_iff, rewriteTypeArguments_exact_iff args]

theorem rewriteTypes_exact_iff {seen : List String} {bound : Scopes} :
    ∀ types : List SourceType, (resolver.rewriteTypes ctx seen types).value =
          (resolver.naming ctx hides).exactTypes bound types ↔
        (resolver.naming ctx hides).TypesAgree seen bound types
  | [] => by simp
  | ty :: rest => by
    simp [rewriteType_exact_iff ty, rewriteTypes_exact_iff rest]

theorem rewriteTypeGroups_exact_iff {seen : List String} {bound : Scopes} :
    ∀ groups : List (List SourceType), (resolver.rewriteTypeGroups ctx seen groups).value =
          (resolver.naming ctx hides).exactTypeGroups bound groups ↔
        (resolver.naming ctx hides).TypeGroupsAgree seen bound groups
  | [] => by simp
  | group :: rest => by
    simp [rewriteTypes_exact_iff group, rewriteTypeGroups_exact_iff rest]

theorem rewriteTypeArguments_exact_iff {seen : List String} {bound : Scopes} :
    ∀ args : List TypeArg, (resolver.rewriteTypeArguments ctx seen args).value =
          (resolver.naming ctx hides).exactTypeArguments bound args ↔
        (resolver.naming ctx hides).TypeArgumentsAgree seen bound args
  | [] => by simp
  | .mk _ ty :: rest => by
    simp [rewriteType_exact_iff ty, rewriteTypeArguments_exact_iff rest]

theorem rewriteEffects_exact_iff {seen : List String} {bound : Scopes} :
    ∀ effects : FunctionEffects, (resolver.rewriteEffects ctx seen effects).value =
          (resolver.naming ctx hides).exactEffects bound effects ↔
        (resolver.naming ctx hides).EffectsAgree seen bound effects
  | .mk _ none custom _ => by
    simp [rewriteTypes_exact_iff custom]
  | .mk _ (some failure) custom _ => by
    simp [rewriteType_exact_iff failure, rewriteTypes_exact_iff custom]

end

theorem rewriteTypeOption_exact_iff {bound : Scopes} (given : Option SourceType) :
    (resolver.rewriteTypeOption ctx seen given).value =
        given.map ((resolver.naming ctx hides).exactType bound) ↔
      (resolver.naming ctx hides).TypeOptionAgrees seen bound given := by
  cases given with
  | none => simp [rewriteTypeOption, Naming.TypeOptionAgrees]
  | some ty => simp [rewriteTypeOption, Naming.TypeOptionAgrees, rewriteType_exact_iff ty]

/-! ## Patterns and parameters -/

attribute [local simp] rewritePattern rewritePatterns rewritePatternFields rewriteNamedPatterns
  exactPattern exactPatterns exactPatternFields exactNamedPatterns
  Naming.PatternAgrees Naming.PatternsAgree Naming.PatternFieldsAgree Naming.NamedPatternsAgree

theorem rewriteConstructorPath_exact_iff {values path : List String} :
    (resolver.rewriteConstructorPath ctx values path).value = (if startsIn bound path then path
          else (resolver.naming ctx hides).exactPath path) ↔
      startsIn values path = startsIn bound path ∨
        (resolver.naming ctx hides).exactPath path = path := by
  have hval : (resolver.rewriteConstructorPath ctx values path).value =
      if startsIn values path then path
      else (resolver.naming ctx hides).exactPath path := by
    unfold rewriteConstructorPath exactPath
    split
    · rfl
    · rw [← value_resolveLongestPrefix hides, value_bind]
      cases (resolver.resolveLongestPrefix ctx path).value <;> rfl
  rw [hval, ite_eq_ite_iff]
  simp

mutual

theorem rewritePattern_exact_iff {seen : List String} {bound : Scopes} :
    ∀ pat : Pattern, (resolver.rewritePattern ctx seen pat).value =
          (resolver.naming ctx hides).exactPattern bound pat ↔
        (resolver.naming ctx hides).PatternAgrees seen bound pat
  | .wildcard | .integer _ | .bool _ | .binding _ => by
    simp
  | .tuple pats => by
    simp [rewritePatterns_exact_iff pats]
  | .constructor path fields => by
    simp [rewriteConstructorPath_exact_iff, rewritePatternFields_exact_iff fields]

theorem rewritePatterns_exact_iff {seen : List String} {bound : Scopes} :
    ∀ pats : List Pattern, (resolver.rewritePatterns ctx seen pats).value =
          (resolver.naming ctx hides).exactPatterns bound pats ↔
        (resolver.naming ctx hides).PatternsAgree seen bound pats
  | [] => by simp
  | pat :: rest => by
    simp [rewritePattern_exact_iff pat, rewritePatterns_exact_iff rest]

theorem rewritePatternFields_exact_iff {seen : List String} {bound : Scopes} :
    ∀ fields : PatternFields, (resolver.rewritePatternFields ctx seen fields).value =
          (resolver.naming ctx hides).exactPatternFields bound fields ↔
        (resolver.naming ctx hides).PatternFieldsAgree seen bound fields
  | .unit => by
    simp
  | .positional pats => by
    simp [rewritePatterns_exact_iff pats]
  | .named fields => by
    simp [rewriteNamedPatterns_exact_iff fields]

theorem rewriteNamedPatterns_exact_iff {seen : List String} {bound : Scopes} :
    ∀ fields : List PatternField, (resolver.rewriteNamedPatterns ctx seen fields).value =
          (resolver.naming ctx hides).exactNamedPatterns bound fields ↔
        (resolver.naming ctx hides).NamedPatternsAgree seen bound fields
  | [] => by
    simp
  | ⟨_, pat⟩ :: rest => by
    simp [rewritePattern_exact_iff pat, rewriteNamedPatterns_exact_iff rest]

end

theorem rewriteParameters_exact_iff {bound : Scopes} (parameters : List Param) :
    (resolver.rewriteParameters ctx seen parameters).value =
        (resolver.naming ctx hides).exactParameters bound parameters ↔
      (resolver.naming ctx hides).ParametersAgree seen bound parameters := by
  induction parameters with
  | nil => simp [rewriteParameters, exactParameters, Naming.ParametersAgree]
  | cons param rest ih =>
    simp only [exactParameters, Naming.ParametersAgree] at ih ⊢
    simp [rewriteParameters, rewriteParameter, rewriteType_exact_iff, ih]

/-! ## Member chains -/

variable {segs : List String} {member : String}

theorem longestPrefix_take {Found : Type} {find : List String → Option Found} {len : Nat}
    (hlen : len ≤ segs.length) :
    longestPrefix find (segs ++ [member]) len = longestPrefix find segs len := by
  induction len with
  | zero => rfl
  | succ len ih =>
    rw [longestPrefix, longestPrefix, take_append_of_le_length hlen, ih (by omega)]

/-- If nothing is found for a chain, nothing is found for its base. -/
theorem longestPrefix_none_of_snoc {Found : Type} {find : List String → Option Found}
    (hnone : longestPrefix find (segs ++ [member]) (segs ++ [member]).length = none) :
    longestPrefix find segs segs.length = none := by
  rw [length_append, length_singleton, longestPrefix] at hnone
  cases hfound : find ((segs ++ [member]).take (segs.length + 1)) with
  | some found => simp [hfound] at hnone
  | none =>
    simp only [hfound] at hnone
    rwa [longestPrefix_take le_rfl] at hnone

theorem longestPrefix_pos {Found : Type} {find : List String → Option Found} {bound len : Nat}
    {found : Found} (hfound : longestPrefix find segs bound = some (found, len)) :
    0 < len := by
  induction bound with
  | zero => simp [longestPrefix] at hfound
  | succ bound ih =>
    unfold longestPrefix at hfound
    split at hfound
    · simp only [Option.some.injEq, Prod.mk.injEq] at hfound
      omega
    · exact ih hfound

theorem longestModulePrefix_eq_zero_iff :
    resolver.longestModulePrefix ctx segs = 0 ↔
      longestPrefix (fun path => if resolver.namesModule ctx path then some () else none)
        segs segs.length = none := by
  unfold longestModulePrefix
  cases hfound : longestPrefix
      (fun path => if resolver.namesModule ctx path then some () else none)
      segs segs.length with
  | none => simp
  | some found =>
    obtain ⟨found, len⟩ := found
    simp [(longestPrefix_pos hfound).ne']

variable {expression : Expr}

theorem memberSegments_eq_some (hsegs : memberSegments expression = some segs) :
    (∃ name, expression = .name name ∧ segs = [name]) ∨
      ∃ base member front, expression = .member base member ∧
        memberSegments base = some front ∧ segs = front ++ [member] := by
  cases expression
  case name name => exact .inl ⟨name, rfl, by simpa [memberSegments, eq_comm] using hsegs⟩
  case member base member =>
    obtain ⟨front, hfront, rfl⟩ := Option.map_eq_some_iff.mp hsegs
    exact .inr ⟨base, member, front, rfl, hfront, rfl⟩
  all_goals simp [memberSegments] at hsegs

/-- No part of the path leads to a declaration, and none is a module. -/
def Unknown (resolver : NameResolver) (ctx : ResolveContext) (segs : List String) : Prop :=
  longestPrefix (resolver.naming ctx false).declared segs segs.length = none ∧
    resolver.longestModulePrefix ctx segs = 0

theorem Unknown.front {front : List String}
    (hunknown : Unknown resolver ctx (front ++ [member])) : Unknown resolver ctx front :=
  ⟨longestPrefix_none_of_snoc hunknown.1, longestModulePrefix_eq_zero_iff.mpr
    (longestPrefix_none_of_snoc (longestModulePrefix_eq_zero_iff.mp hunknown.2))⟩

theorem Unknown.canonical_eq (hunknown : Unknown resolver ctx [name]) :
    (resolver.naming ctx hides).canonical [name] name = name := by
  obtain ⟨hnone, _⟩ := hunknown
  have hdecl : (resolver.naming ctx hides).declared [name] = none := by
    by_contra hsome
    obtain ⟨canonical, hcanon⟩ := Option.ne_none_iff_exists'.mp hsome
    have hfound : (resolver.naming ctx false).declared [name] = some canonical := hcanon
    simp [longestPrefix, hfound] at hnone
  simp [Naming.canonical, hdecl]

theorem startsIn_append {scope front : List String} (hfront : front ≠ []) :
    startsIn scope (front ++ [member]) = startsIn scope front := by
  unfold startsIn
  rw [List.head?_append_of_ne_nil _ hfront]

theorem memberSegments_ne_nil (hsegs : memberSegments expression = some segs) : segs ≠ [] := by
  rcases memberSegments_eq_some hsegs with ⟨_, _, rfl⟩ | ⟨_, _, _, _, _, rfl⟩ <;> simp

/-- What `rewrite_member_chain` puts in place of a chain, if anything. -/
theorem value_rewriteMemberChain (hides : Bool) {values : List String}
    (hsegs : memberSegments expression = some segs) :
    (resolver.rewriteMemberChain ctx values expression).value = if startsIn values segs then none
      else
        match longestPrefix (resolver.naming ctx hides).declared segs
          segs.length with
        | some (canonical, consumed) =>
          some (memberChain (.name canonical) (segs.drop consumed))
        | none =>
          if (resolver.rejectUnimportedStandard ctx segs).value then some expression
          else if 0 < resolver.longestModulePrefix ctx segs then
            some (.name (".".intercalate segs))
          else none := by
  simp only [rewriteMemberChain, hsegs]
  split
  · rfl
  · rw [← value_resolveLongestPrefix hides, value_bind]
    cases (resolver.resolveLongestPrefix ctx segs).value with
    | some found => rfl
    | none =>
      simp only [value_bind]
      split
      · rfl
      · split
        · split <;> rfl
        · rfl

theorem value_rewriteExpr_member (scopes : Scopes) (base : Expr) (member : String) :
    (resolver.rewriteExpr ctx .value scopes (.member base member)).value =
      match (resolver.rewriteMemberChain ctx scopes.values (.member base member)).value with
      | some expression => expression
      | none => .member (resolver.rewriteExpr ctx .value scopes base).value member := by
  simp only [rewriteExpr, value_bind]
  cases (resolver.rewriteMemberChain ctx scopes.values (.member base member)).value <;> rfl

variable {scopes : Scopes}

/-- A chain of values stays as it is if its first segment is in scope or it is unknown. -/
theorem rewriteExpr_chain_stays (hsegs : memberSegments expression = some segs)
    (hstays : startsIn scopes.values segs ∨ Unknown resolver ctx segs) :
    (resolver.rewriteExpr ctx .value scopes expression).value = expression := by
  induction segs using reverseRecOn generalizing expression with
  | nil => exact absurd rfl (memberSegments_ne_nil hsegs)
  | append_singleton front member ih =>
    rcases memberSegments_eq_some hsegs with
      ⟨name, rfl, hname⟩ | ⟨base, last, before, rfl, hbase, hlast⟩
    · simp only [rewriteExpr, value_bind, value_pure, value_rewriteName false, exactName]
      rw [hname] at hstays
      rcases hstays with hbound | hunknown
      · have hmem : name ∈ scopes.values := by simpa [startsIn] using hbound
        rw [if_pos hmem]
      · rw [hunknown.canonical_eq, ite_self]
    · obtain ⟨rfl, hmember⟩ := append_inj' hlast rfl
      have hbaseStays : (resolver.rewriteExpr ctx .value scopes base).value = base := by
        apply ih hbase
        rw [startsIn_append (memberSegments_ne_nil hbase)] at hstays
        exact hstays.imp id Unknown.front
      rw [value_rewriteExpr_member, value_rewriteMemberChain false hsegs, hbaseStays]
      rcases hstays with hbound | ⟨hnone, hmod⟩
      · simp [hbound]
      · simp only [hnone, hmod, lt_irrefl, if_false]
        split_ifs <;> rfl

theorem longestModulePrefix_of_unimported
    (hunimported : (resolver.rejectUnimportedStandard ctx segs).value = true) :
    resolver.longestModulePrefix ctx segs = 0 := by
  by_contra hmod
  simp [rejectUnimportedStandard, Nat.pos_of_ne_zero hmod, done] at hunimported

/-- A chain of values is replaced unless its first segment is in scope. -/
theorem value_rewriteExpr_chain {base : Expr}
    (hsegs : memberSegments (.member base member) = some segs) :
    (resolver.rewriteExpr ctx .value scopes (.member base member)).value =
      if startsIn scopes.values segs then .member base member
      else (resolver.naming ctx hides).exactChain segs (.member base member) := by
  split
  next hbound => exact rewriteExpr_chain_stays hsegs (.inl hbound)
  next hfree =>
    have hunderModule : (resolver.naming ctx hides).underModule segs =
        decide (0 < resolver.longestModulePrefix ctx segs) := rfl
    by_cases hunknown : Unknown resolver ctx segs
    · rw [rewriteExpr_chain_stays hsegs (.inr hunknown)]
      have hnone : longestPrefix (resolver.naming ctx hides).declared segs
          segs.length = none := hunknown.1
      simp [exactChain, hnone, hunderModule, hunknown.2]
    · rw [value_rewriteExpr_member, value_rewriteMemberChain hides hsegs, exactChain]
      cases hfound : longestPrefix (resolver.naming ctx hides).declared segs
          segs.length with
      | some found => simp [hfree]
      | none =>
        have hmod : 0 < resolver.longestModulePrefix ctx segs :=
          Nat.pos_of_ne_zero fun hzero => hunknown ⟨hfound, hzero⟩
        have himported : (resolver.rejectUnimportedStandard ctx segs).value = false := by
          by_contra hunimported
          have hzero := longestModulePrefix_of_unimported (Bool.eq_true_of_not_eq_false hunimported)
          omega
        simp [hfree, hmod, himported, hunderModule]

theorem value_rewriteCompileArgumentMemberChain (hides : Bool) {types : List String}
    (hsegs : memberSegments expression = some segs) :
    (resolver.rewriteCompileArgumentMemberChain ctx types expression).value =
      if startsIn types segs then none
      else some ((resolver.naming ctx hides).exactMember .compileArgument segs
        expression) := by
  simp only [rewriteCompileArgumentMemberChain, hsegs]
  split
  · rfl
  · have hfind : (resolver.resolveLongestPrefix ctx segs).value = _ :=
      value_resolveLongestPrefix hides segs
    simp only [value_bind, exactMember, exactChain, hfind]
    cases longestPrefix (resolver.naming ctx hides).declared segs segs.length with
    | some found => rfl
    | none => rfl

theorem value_rewriteExpr_argumentMember (scopes : Scopes) (base : Expr) (member : String) :
    (resolver.rewriteExpr ctx .compileArgument scopes (.member base member)).value =
      match (resolver.rewriteCompileArgumentMemberChain ctx scopes.types
        (.member base member)).value with
      | some expression => expression
      | none =>
        .member (resolver.rewriteExpr ctx .compileArgument scopes base).value member := by
  simp only [rewriteExpr, value_bind]
  cases (resolver.rewriteCompileArgumentMemberChain ctx scopes.types
    (.member base member)).value <;> rfl

/-- A chain of compile-time arguments stays as it is if its first segment is in scope. -/
theorem rewriteExpr_argumentChain_stays (hsegs : memberSegments expression = some segs)
    (hbound : startsIn scopes.types segs) :
    (resolver.rewriteExpr ctx .compileArgument scopes expression).value = expression := by
  induction segs using reverseRecOn generalizing expression with
  | nil => exact absurd rfl (memberSegments_ne_nil hsegs)
  | append_singleton front member ih =>
    rcases memberSegments_eq_some hsegs with
      ⟨name, rfl, hname⟩ | ⟨base, last, before, rfl, hbase, hlast⟩
    · rw [hname] at hbound
      have hmem : name ∈ scopes.types := by simpa [startsIn] using hbound
      simp [rewriteExpr, value_rewriteCompileArgumentName false, exactName, hmem]
    · obtain ⟨rfl, hmember⟩ := append_inj' hlast rfl
      rw [value_rewriteExpr_argumentMember, value_rewriteCompileArgumentMemberChain false hsegs]
      simp only [hbound, if_true]
      rw [startsIn_append (memberSegments_ne_nil hbase)] at hbound
      rw [ih hbase hbound]

variable {reading : Reading}

/-- A chain is replaced unless its first segment is in the scope that it is looked up in. -/
theorem value_rewriteExpr_segments (hides : Bool) {base : Expr}
    (hsegs : memberSegments (.member base member) = some segs) :
    (resolver.rewriteExpr ctx reading scopes (.member base member)).value =
      if startsIn (chainScope reading scopes) segs then .member base member
      else (resolver.naming ctx hides).exactMember reading segs
        (.member base member) := by
  cases reading with
  | value => exact value_rewriteExpr_chain hsegs
  | compileArgument =>
    split
    next hbound => exact rewriteExpr_argumentChain_stays hsegs hbound
    next hfree =>
      rw [value_rewriteExpr_argumentMember, value_rewriteCompileArgumentMemberChain hides hsegs]
      simp only [chainScope, Bool.not_eq_true] at hfree
      simp [hfree]

theorem value_rewriteExpr_unnamed {base : Expr}
    (hnone : memberSegments (.member base member) = none) :
    (resolver.rewriteExpr ctx reading scopes (.member base member)).value =
      .member (resolver.rewriteExpr ctx reading scopes base).value member := by
  cases reading with
  | value =>
    rw [value_rewriteExpr_member]
    simp [rewriteMemberChain, hnone]
  | compileArgument =>
    rw [value_rewriteExpr_argumentMember]
    simp [rewriteCompileArgumentMemberChain, hnone]

/-! ## Expressions -/

attribute [local simp] rewriteExpr rewriteExprs rewriteOptional rewriteArguments
  rewriteArgumentGroups rewriteStatements rewriteMatchArms exactExpr exactExprs
  exactOptional exactArguments exactArgumentGroups exactStatements
  exactMatchArms Naming.ExprAgrees Naming.ExprsAgree Naming.OptionalAgrees
  Naming.ArgumentsAgree Naming.ArgumentGroupsAgree Naming.StatementsAgree Naming.MatchArmsAgree

theorem rewriteMember_exact_iff {seen bound : Scopes} {base : Expr}
    (hbase : (resolver.rewriteExpr ctx reading seen base).value =
        (resolver.naming ctx hides).exactExpr reading bound base ↔
      (resolver.naming ctx hides).ExprAgrees reading seen bound base) :
    (resolver.rewriteExpr ctx reading seen (.member base member)).value =
        (resolver.naming ctx hides).exactExpr reading bound (.member base member) ↔
      (resolver.naming ctx hides).ExprAgrees reading seen bound (.member base member) := by
  rw [exactExpr, Naming.ExprAgrees]
  cases hsegs : memberSegments (.member base member) with
  | none =>
    rw [value_rewriteExpr_unnamed hsegs]
    simpa using hbase
  | some segs =>
    rw [value_rewriteExpr_segments hides hsegs]
    simp only [ite_eq_ite_iff, Naming.ChainAgrees, Bool.decide_eq_true]

theorem rewriteName_exact_iff {seen bound : Scopes} :
    (resolver.rewriteExpr ctx reading seen (.name name)).value =
        (resolver.naming ctx hides).exactExpr reading bound (.name name) ↔
      (resolver.naming ctx hides).ExprAgrees reading seen bound (.name name) := by
  cases reading with
  | value =>
    simp [value_rewriteName hides, exactName_eq_iff]
  | compileArgument =>
    by_cases hbuiltin : name ∈ builtinCompileArguments <;>
    simp [exactArgumentName, value_rewriteCompileArgumentName hides, exactName_eq_iff, hbuiltin]

mutual

theorem rewriteExpr_exact_iff {reading : Reading} {seen bound : Scopes} :
    ∀ expression : Expr, (resolver.rewriteExpr ctx reading seen expression).value =
          (resolver.naming ctx hides).exactExpr reading bound expression ↔
        (resolver.naming ctx hides).ExprAgrees reading seen bound expression
  | .unit | .integer _ | .bool _ | .string _ | .continueExpr => by
    simp
  | .type ty => by simp [eq_comm]
  | .name name => rewriteName_exact_iff
  | .member base member => rewriteMember_exact_iff (rewriteExpr_exact_iff base)
  | .located _ _ _ _ value => by
    simp [rewriteExpr_exact_iff value]
  | .unary _ opnd | .tryExpr opnd | .throw opnd | .unsafeExpr opnd
  | .borrow _ _ opnd | .doBlock opnd | .async opnd | .await opnd
  | .chainMember opnd _ | .loop opnd => by
    simp [rewriteExpr_exact_iff opnd]
  | .binary left _ right | .coalesce left right | .assign left right
  | .compoundAssign left _ right | .index left right | .whileExpr left right _ => by
    simp [rewriteExpr_exact_iff left, rewriteExpr_exact_iff right]
  | .handlerCoalesce scrut _ success fallback => by
    simp [rewriteExpr_exact_iff scrut, rewriteExpr_exact_iff success,
      rewriteExpr_exact_iff fallback]
  | .handlerChainCall ⟨scrut, _, _, _, groups, success, residual⟩ => by
    simp [rewriteExpr_exact_iff scrut, rewriteArgumentGroups_exact_iff groups,
      rewriteExpr_exact_iff success, rewriteExpr_exact_iff residual]
  | .call callee args => by
    simp [rewriteExpr_exact_iff callee, rewriteArguments_exact_iff args]
  | .structLiteral constructor fields => by
    simp [rewriteExpr_exact_iff constructor, rewriteArguments_exact_iff fields]
  | .array elems | .tuple elems => by
    simp [rewriteExprs_exact_iff elems]
  | .block stmts tail => by
    simp [rewriteStatements_exact_iff stmts, rewriteOptional_exact_iff tail]
  | .closure params body => by
    simp [rewriteParameters_exact_iff, rewriteExpr_exact_iff body]
  | .patternClosure pat guard body => by
    simp [rewritePattern_exact_iff, rewriteOptional_exact_iff guard, rewriteExpr_exact_iff body]
  | .ifExpr cond thenBranch elseBranch => by
    simp [rewriteExpr_exact_iff cond, rewriteExpr_exact_iff thenBranch,
      rewriteOptional_exact_iff elseBranch]
  | .returnExpr value | .breakExpr value => by
    simp [rewriteOptional_exact_iff value]
  | .matchExpr scrut arms => by
    simp [rewriteExpr_exact_iff scrut, rewriteMatchArms_exact_iff arms]

theorem rewriteExprs_exact_iff {seen bound : Scopes} :
    ∀ exprs : List Expr, (resolver.rewriteExprs ctx seen exprs).value =
          (resolver.naming ctx hides).exactExprs bound exprs ↔
        (resolver.naming ctx hides).ExprsAgree seen bound exprs
  | [] => by simp
  | expression :: rest => by
    simp [rewriteExpr_exact_iff expression, rewriteExprs_exact_iff rest]

theorem rewriteOptional_exact_iff {seen bound : Scopes} :
    ∀ expression : Option Expr, (resolver.rewriteOptional ctx seen expression).value =
          (resolver.naming ctx hides).exactOptional bound expression ↔
        (resolver.naming ctx hides).OptionalAgrees seen bound expression
  | none => by simp
  | some expression => by
    simp [rewriteExpr_exact_iff expression]

theorem rewriteArguments_exact_iff {reading : Reading} {seen bound : Scopes} :
    ∀ args : List CallArg, (resolver.rewriteArguments ctx reading seen args).value =
          (resolver.naming ctx hides).exactArguments reading bound args ↔
        (resolver.naming ctx hides).ArgumentsAgree reading seen bound args
  | [] => by simp
  | ⟨_, value⟩ :: rest => by
    simp [rewriteExpr_exact_iff value, rewriteArguments_exact_iff rest]

theorem rewriteArgumentGroups_exact_iff {seen bound : Scopes} :
    ∀ groups : List (List CallArg), (resolver.rewriteArgumentGroups ctx seen groups).value =
          (resolver.naming ctx hides).exactArgumentGroups bound groups ↔
        (resolver.naming ctx hides).ArgumentGroupsAgree seen bound groups
  | [] => by simp
  | group :: rest => by
    simp [rewriteArguments_exact_iff group, rewriteArgumentGroups_exact_iff rest]

theorem rewriteStatements_exact_iff {seen bound : Scopes} :
    ∀ stmts : List Stmt, (resolver.rewriteStatements ctx seen stmts).value =
          (resolver.naming ctx hides).exactStatements bound stmts ↔
        (resolver.naming ctx hides).StatementsAgree seen bound stmts
  | [] => by simp
  | .letBinding ⟨_, _, annotation, value⟩ :: rest => by
    simp [rewriteTypeOption_exact_iff, rewriteExpr_exact_iff value,
      rewriteStatements_exact_iff rest, and_assoc]
  | .expr expression :: rest => by
    simp [rewriteExpr_exact_iff expression, rewriteStatements_exact_iff rest]

theorem rewriteMatchArms_exact_iff {seen bound : Scopes} :
    ∀ arms : List MatchArm, (resolver.rewriteMatchArms ctx seen arms).value =
          (resolver.naming ctx hides).exactMatchArms bound arms ↔
        (resolver.naming ctx hides).MatchArmsAgree seen bound arms
  | [] => by simp
  | ⟨pat, guard, body⟩ :: rest => by
    simp [rewritePattern_exact_iff, rewriteOptional_exact_iff guard, rewriteExpr_exact_iff body,
      rewriteMatchArms_exact_iff rest, and_assoc]

end

end NameResolver

end Salicin.Modules
