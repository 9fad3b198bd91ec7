import Salicin.Modules.Symbols

/-!
# What a clean collection has seen

As long as symbol collection reports nothing, its three maps describe the declarations it
has gone through. `Admits` says of a declaration and the ones before it that collecting it
reports nothing, and `Collected` is the invariant that the loop keeps.
-/

namespace Salicin.Modules

open Collection Function Option List Salicin.Source

/-- A declared item with the unit it belongs to. -/
abbrev Declaration := UnitHeader × DeclaredItem

namespace Declaration

/-- The logical path of a declaration; extensions declare no name. -/
def path (decl : Declaration) : Option (List String) :=
  (declarationName decl.2.item).map fun name => decl.1.modulePath ++ [name]

def ownNamespace (decl : Declaration) : DeclarationNamespace := declarationNamespace decl.2.item

/-- Two declarations of one name in one module. -/
def SamePath (first second : Declaration) : Prop := first.path = second.path ∧ second.path ≠ none

/-- The later function has the parameter labels of the earlier one, and is not one of the
builtin declarations of `foreign`. -/
def Repeats (earlier later : Declaration) : Prop :=
  ∃ first second, earlier.2.item = .function first ∧ later.2.item = .function second ∧
    overloadShape first = overloadShape second ∧ ¬ (second.name = "foreign" ∧ second.builtin = true)

/-- The declaration names a dependency of its package or a child of its module. -/
def NameTaken (units : List ParsedUnit) (deps : DependencyTable)
    (decl : Declaration) : Prop :=
  ∃ name, declarationName decl.2.item = some name ∧ ((decl.1.modulePath = decl.1.packageRoot ∧
        hasDependencyAlias deps decl.1.packageRoot name = true) ∨
      isChildModule units decl.1.modulePath name = true)

/-- Two declarations of one name that may follow each other. -/
structure PairOk (earlier later : Declaration) : Prop where
  visibility : earlier.2.visibility = later.2.visibility
  type : ¬ (earlier.ownNamespace = .type ∧ later.ownNamespace = .type)
  other : ¬ (earlier.ownNamespace = .other ∧ later.ownNamespace = .other)
  overload : ¬ Repeats earlier later

end Declaration

open Declaration

/-- Collecting the declaration after the earlier ones reports nothing. -/
structure Admits (units : List ParsedUnit) (deps : DependencyTable)
    (earlier : List Declaration) (decl : Declaration) : Prop where
  free : ¬ decl.NameTaken units deps
  pair : ∀ other ∈ earlier, SamePath other decl → PairOk other decl
  /-- A value is declared after the type it shares its name with. -/
  value : decl.ownNamespace = .other → (∃ other ∈ earlier, SamePath other decl) →
      ∃ other ∈ earlier, SamePath other decl ∧ other.ownNamespace = .type
  /-- The first overload is declared before a value of the name. -/
  function : decl.ownNamespace = .function →
    (∃ other ∈ earlier, SamePath other decl ∧ other.ownNamespace = .other) →
      ∃ other ∈ earlier, SamePath other decl ∧ other.ownNamespace = .function

/-- Every declaration is admitted after the ones before it. -/
def Accepted (units : List ParsedUnit) (deps : DependencyTable)
    (decls : List Declaration) : Prop :=
  ∀ earlier decl later, decls = earlier ++ decl :: later → Admits units deps earlier decl

/-- The symbol of one of the declarations. -/
def IsDeclared (decls : List Declaration) (path : List String) (symbol : Symbol) : Prop :=
  ∃ decl ∈ decls, ∃ name, declarationName decl.2.item = some name ∧
    path = decl.1.modulePath ++ [name] ∧ symbol = symbolOf decl.1 decl.2.visibility name

/-- The symbol of a member of a sort that is the first declaration of its name. -/
def IsSortMember (decls : List Declaration) (path : List String) (symbol : Symbol) : Prop :=
  ∃ earlier decl later, decls = earlier ++ decl :: later ∧
    (∀ other ∈ earlier, ¬ SamePath other decl) ∧ ∃ name, declarationName decl.2.item = some name ∧
        ∃ member ∈ sortMembers decl.2.item, path = decl.1.modulePath ++ [name, member] ∧
            symbol = memberSymbol decl.1 decl.2.visibility name member

/-- The maps describe the declarations collected so far, none of which was reported. -/
structure Collected (units : List ParsedUnit) (decls : List Declaration)
    (state : Collection) : Prop where
  clean : state.diagnostics = []
  namespaces : ∀ path name, name ∈ state.symbolNamespaces path ↔
    ∃ decl ∈ decls, decl.path = some path ∧ decl.ownNamespace = name
  overloads : ∀ path, state.functionOverloads path = none ↔ ∀ decl ∈ decls, decl.path = some path →
      decl.ownNamespace ≠ .function
  shapes : ∀ path shapes, state.functionOverloads path = some shapes →
    ∀ shape, shape ∈ shapes ↔ ∃ decl ∈ decls, decl.path = some path ∧
      ∃ function, decl.2.item = .function function ∧ overloadShape function = shape
  visibility : ∀ first ∈ decls, ∀ second ∈ decls, SamePath first second →
    first.2.visibility = second.2.visibility
  childless : ∀ decl ∈ decls, ∀ name, declarationName decl.2.item = some name →
      isChildModule units decl.1.modulePath name = false
  symbols : ∀ path symbol, state.symbols path = some symbol ↔
    IsDeclared decls path symbol ∨ IsSortMember decls path symbol

variable {units : List ParsedUnit} {deps : DependencyTable}

/-! ## Paths -/

variable {path : List String} {name : String} {decl : Declaration}

namespace Declaration

theorem ownNamespace_function :
    decl.ownNamespace = .function ↔
      ∃ function, decl.2.item = .function function := by
  unfold ownNamespace
  cases decl.2.item with
  | function function => exact iff_of_true rfl ⟨function, rfl⟩
  | _ => simp [declarationNamespace]

theorem path_eq (hname : declarationName decl.2.item = some name) :
    decl.path = some (decl.1.modulePath ++ [name]) := by
  rw [path, hname, map_some]

theorem path_eq_some :
    decl.path = some path ↔ ∃ name, declarationName decl.2.item = some name ∧
      decl.1.modulePath ++ [name] = path := by
  simp [Declaration.path]

variable {second first : Declaration}

theorem samePath_iff (hpath : second.path = some path) :
    SamePath first second ↔ first.path = some path := by
  simp [SamePath, hpath]

theorem SamePath.symm (hsame : SamePath first second) : SamePath second first :=
  ⟨hsame.1.symm, hsame.1 ▸ hsame.2⟩

theorem SamePath.trans {third : Declaration} (hfst : SamePath first second)
    (hsnd : SamePath second third) : SamePath first third :=
  ⟨hfst.1.trans hsnd.1, hsnd.2⟩

/-- Declarations of one path agree in their module and their name. -/
theorem eq_of_path_eq (hfst : first.path = some path) (hsnd : second.path = some path)
    (hname : declarationName second.2.item = some name) :
    first.1.modulePath = second.1.modulePath ∧ declarationName first.2.item = some name := by
  obtain ⟨other, hother, hpath⟩ := path_eq_some.mp hfst
  rw [path_eq hname, Option.some.injEq, ← hpath] at hsnd
  obtain ⟨hmod, hlast⟩ := append_inj' hsnd rfl
  obtain rfl : name = other := head_eq_of_cons_eq hlast
  exact ⟨hmod.symm, hother⟩

end Declaration

/-- A module that declares the path of a sort's member is a child of the sort's name. -/
theorem isChildModule_of_split {unit : ParsedUnit} (hunit : unit ∈ units) {modulePath : List String}
    {owner member : String}
    (hsplit : unit.header.modulePath ++ [name] = modulePath ++ [owner, member]) :
    isChildModule units modulePath owner = true := by
  have hsplit : unit.header.modulePath ++ [name] = (modulePath ++ [owner]) ++ [member] := by
    simpa using hsplit
  refine any_eq_true.mpr ⟨unit, hunit, ?_⟩
  rw [(append_inj' hsplit rfl).1, isPrefixOf_iff_prefix]

variable {decls : List Declaration} {symbol : Symbol}

theorem isDeclared_snoc (hname : declarationName decl.2.item = some name) :
    IsDeclared (decls ++ [decl]) path symbol ↔
      IsDeclared decls path symbol ∨ path = decl.1.modulePath ++ [name] ∧
        symbol = symbolOf decl.1 decl.2.visibility name := by
  constructor
  · rintro ⟨other, hmem, otherName, hother, hpath, hsym⟩
    rcases mem_append.mp hmem with hmem | hmem
    · exact .inl ⟨other, hmem, otherName, hother, hpath, hsym⟩
    · obtain rfl := mem_singleton.mp hmem
      cases hname.symm.trans hother
      exact .inr ⟨hpath, hsym⟩
  · rintro (⟨other, hmem, hother⟩ | ⟨hpath, hsym⟩)
    · exact ⟨other, mem_append_left _ hmem, hother⟩
    · exact ⟨decl, by simp, name, hname, hpath, hsym⟩

theorem isSortMember_snoc (hname : declarationName decl.2.item = some name) :
    IsSortMember (decls ++ [decl]) path symbol ↔ IsSortMember decls path symbol ∨
        (∀ other ∈ decls, ¬ SamePath other decl) ∧ ∃ member ∈ sortMembers decl.2.item,
            path = decl.1.modulePath ++ [name, member] ∧
              symbol = memberSymbol decl.1 decl.2.visibility name member := by
  constructor
  · rintro ⟨earlier, sort, later, hsplit, hfst, hmember⟩
    rcases eq_nil_or_concat later with rfl | ⟨later, last, rfl⟩
    · obtain ⟨rfl, hlast⟩ := append_inj' hsplit rfl
      obtain rfl := head_eq_of_cons_eq hlast
      obtain ⟨sortName, hsort, hmember⟩ := hmember
      cases hname.symm.trans hsort
      exact .inr ⟨hfst, hmember⟩
    · rw [concat_eq_append, ← cons_append, ← append_assoc] at hsplit
      exact .inl ⟨earlier, sort, later, (append_inj' hsplit rfl).1, hfst, hmember⟩
  · rintro (⟨earlier, sort, later, rfl, hmember⟩ | ⟨hfst, hmember⟩)
    · exact ⟨earlier, sort, later ++ [decl], by simp, hmember⟩
    · exact ⟨decls, decl, [], rfl, hfst, name, hname, hmember⟩

/-! ## The parts of a step -/

namespace Collection

variable {state : Collection} {header : UnitHeader} {origin : ItemOrigin} {msg : String}

theorem report_ne_nil : (state.report header origin msg).diagnostics ≠ [] := by
  simp [report]

theorem report_extends : state.diagnostics <+: (state.report header origin msg).diagnostics :=
  prefix_append _ _

end Collection

section Members

variable {header : UnitHeader} {visibility : Visibility} {name : String} {members : List String}
  {state : Collection}

theorem insertSortMembers_rest :
    (insertSortMembers header visibility name members state).symbolNamespaces =
        state.symbolNamespaces ∧
      (insertSortMembers header visibility name members state).functionOverloads =
        state.functionOverloads ∧
      (insertSortMembers header visibility name members state).diagnostics =
        state.diagnostics := by
  induction members generalizing state with
  | nil => exact ⟨rfl, rfl, rfl⟩
  | cons member members ih =>
    rw [insertSortMembers, foldl_cons]
    exact ih

theorem insertSortMembers_symbols :
    (insertSortMembers header visibility name members state).symbols path = some symbol ↔
      (∃ member ∈ members, path = header.modulePath ++ [name, member] ∧
          symbol = memberSymbol header visibility name member) ∨
        (∀ member ∈ members, path ≠ header.modulePath ++ [name, member]) ∧
          state.symbols path = some symbol := by
  induction members generalizing state with
  | nil => simp [insertSortMembers]
  | cons member members ih =>
    rw [insertSortMembers, foldl_cons]
    refine ih.trans ?_
    by_cases hpath : path = header.modulePath ++ [name, member]
    · subst hpath
      by_cases hmem : member ∈ members
      · simp [hmem]
      · have hne : ∀ other ∈ members,
            header.modulePath ++ [name, member] ≠ header.modulePath ++ [name, other] := by
          intro other hother heq
          have heq : member = other := by simpa using heq
          exact hmem (heq ▸ hother)
        constructor
        · rintro (⟨other, hother, heq, _⟩ | ⟨_, hsome⟩)
          · exact absurd heq (hne other hother)
          · rw [insertSymbol_symbols, update_self, Option.some.injEq] at hsome
            exact .inl ⟨member, mem_cons_self, rfl, hsome.symm⟩
        · rintro (⟨other, hother, heq, rfl⟩ | ⟨hall, _⟩)
          · obtain rfl : member = other := by simpa using heq
            refine .inr ⟨hne, ?_⟩
            rw [insertSymbol_symbols, update_self]
          · exact absurd rfl (hall member mem_cons_self)
    · simp [hpath, update_of_ne]

end Members

variable {state : Collection} {declared : DeclaredItem} {header : UnitHeader}

theorem finishItem_of_childless (hchild : isChildModule units header.modulePath name = false) :
    finishItem units header declared name state =
      insertSortMembers header declared.visibility name (sortMembers declared.item) state := by
  simp [finishItem, hchild]

theorem finishItem_extends :
    state.diagnostics <+: (finishItem units header declared name state).diagnostics := by
  unfold finishItem
  split
  · refine List.IsPrefix.trans ?_ Collection.report_extends
    rw [insertSortMembers_rest.2.2]
  · rw [insertSortMembers_rest.2.2]

theorem finishItem_ne_nil (hchild : isChildModule units header.modulePath name = true) :
    (finishItem units header declared name state).diagnostics ≠ [] := by
  rw [finishItem, if_pos hchild]
  exact Collection.report_ne_nil

/-! ## The invariant after one more declaration -/

namespace Collected

variable {decls : List Declaration} {decl : Declaration} {state : Collection}
  {name : String} {path : List String}

theorem start (units : List ParsedUnit) : Collected units [] .empty where
  clean := rfl
  namespaces := by simp [empty]
  overloads := by simp [empty]
  shapes := by simp [empty]
  visibility := by simp
  childless := by simp
  symbols := by simp [empty, IsDeclared, IsSortMember]

theorem functionOverloads_eq_none_iff (hcoll : Collected units decls state) :
    state.functionOverloads path = none ↔
      DeclarationNamespace.function ∉ state.symbolNamespaces path := by
  rw [hcoll.overloads, hcoll.namespaces]
  simp

theorem snoc_nameless (hcoll : Collected units decls state)
    (hname : declarationName decl.2.item = none) :
    Collected units (decls ++ [decl]) state := by
  have hpath : decl.path = none := by rw [Declaration.path, hname, map_none]
  have hsame : ∀ other : Declaration, ¬ SamePath other decl := fun _ h => h.2 hpath
  have hdecl : ∀ path symbol, IsDeclared (decls ++ [decl]) path symbol ↔
      IsDeclared decls path symbol := by
    intro path symbol
    simp [IsDeclared, or_and_right, exists_or, hname]
  have hmember : ∀ path symbol, IsSortMember (decls ++ [decl]) path symbol ↔
      IsSortMember decls path symbol := by
    intro path symbol
    constructor
    · rintro ⟨earlier, sort, later, hsplit, hfst, sortName, hsort, hrest⟩
      rcases eq_nil_or_concat later with rfl | ⟨later, last, rfl⟩
      · obtain ⟨rfl, hlast⟩ := append_inj' hsplit rfl
        obtain rfl := head_eq_of_cons_eq hlast
        simp [hname] at hsort
      · rw [concat_eq_append, ← cons_append, ← append_assoc] at hsplit
        exact ⟨earlier, sort, later, (append_inj' hsplit rfl).1, hfst, sortName, hsort, hrest⟩
    · rintro ⟨earlier, sort, later, rfl, hrest⟩
      exact ⟨earlier, sort, later ++ [decl], by simp, hrest⟩
  refine ⟨hcoll.clean, ?_, ?_, ?_, ?_, ?_, ?_⟩
  · intro path name
    simp [hcoll.namespaces, or_and_right, exists_or, hpath]
  · intro path
    simp [hcoll.overloads, or_imp, forall_and, hpath]
  · intro path shapes hshapes shape
    simp [hcoll.shapes path shapes hshapes, or_and_right, exists_or, hpath]
  · intro first hfst second hsnd hpair
    rcases mem_append.mp hfst with hold | hnew
    · rcases mem_append.mp hsnd with hold' | hnew'
      · exact hcoll.visibility first hold second hold' hpair
      · exact absurd (mem_singleton.mp hnew' ▸ hpair) (hsame _)
    · exact absurd (mem_singleton.mp hnew ▸ hpair.symm) (hsame _)
  · intro other hother otherName hotherName
    rcases mem_append.mp hother with hother | hother
    · exact hcoll.childless other hother otherName hotherName
    · obtain rfl := mem_singleton.mp hother
      simp [hname] at hotherName
  · intro path symbol
    rw [hcoll.symbols, hdecl, hmember]

theorem snoc (hcoll : Collected units decls state)
    (hname : declarationName decl.2.item = some name)
    (hchild : isChildModule units decl.1.modulePath name = false)
    (hvis : ∀ other ∈ decls, SamePath other decl → other.2.visibility = decl.2.visibility)
    {next : Collection} (hclean : next.diagnostics = [])
    (hnamespaces : ∀ path kind, kind ∈ next.symbolNamespaces path ↔
      kind ∈ state.symbolNamespaces path ∨ decl.path = some path ∧ decl.ownNamespace = kind)
    (hothers : ∀ path, ¬ (decl.path = some path ∧ decl.ownNamespace = .function) →
      next.functionOverloads path = state.functionOverloads path)
    (hshape : ∀ function path, decl.2.item = .function function →
      decl.path = some path → next.functionOverloads path =
        some (insert (overloadShape function) ((state.functionOverloads path).getD ∅)))
    (hsymbols : ∀ path symbol, next.symbols path = some symbol ↔
      IsDeclared (decls ++ [decl]) path symbol ∨ IsSortMember (decls ++ [decl]) path symbol) :
    Collected units (decls ++ [decl]) next where
  clean := hclean
  namespaces path kind := by
    rw [hnamespaces, hcoll.namespaces]
    simp [or_and_right, exists_or]
  overloads path := by
    by_cases hown : decl.path = some path ∧ decl.ownNamespace = .function
    · obtain ⟨function, hfun⟩ := ownNamespace_function.mp hown.2
      rw [hshape function path hfun hown.1]
      refine iff_of_false (some_ne_none _) fun hnone => ?_
      exact hnone decl (by simp) hown.1 hown.2
    · rw [hothers path hown, hcoll.overloads]
      constructor
      · intro hnone other hother hpath hfun
        rcases mem_append.mp hother with hother | hother
        · exact hnone other hother hpath hfun
        · exact hown (mem_singleton.mp hother ▸ ⟨hpath, hfun⟩)
      · exact fun hnone other hother => hnone other (mem_append_left _ hother)
  shapes path shapes hshapes shape := by
    have hsnoc : (∃ other ∈ decls ++ [decl], other.path = some path ∧
        ∃ function, other.2.item = .function function ∧ overloadShape function = shape) ↔
        (∃ other ∈ decls, other.path = some path ∧
          ∃ function, other.2.item = .function function ∧ overloadShape function = shape) ∨
        decl.path = some path ∧
          ∃ function, decl.2.item = .function function ∧ overloadShape function = shape := by
      simp only [mem_append, mem_singleton, or_and_right, exists_or, exists_eq_left]
    rw [hsnoc]
    by_cases hown : decl.path = some path ∧ decl.ownNamespace = .function
    · obtain ⟨function, hfun⟩ := ownNamespace_function.mp hown.2
      rw [hshape function path hfun hown.1, Option.some.injEq] at hshapes
      have hlast : (decl.path = some path ∧ ∃ other, decl.2.item = .function other ∧
          overloadShape other = shape) ↔ shape = overloadShape function := by
        rw [hfun]
        constructor
        · rintro ⟨_, other, heq, rfl⟩
          rw [Item.function.inj heq]
        · exact fun heq => ⟨hown.1, function, rfl, heq.symm⟩
      rw [← hshapes, Finset.mem_insert, hlast, or_comm]
      refine or_congr_left ?_
      cases hbefore : state.functionOverloads path with
      | none =>
        have hnone := (hcoll.overloads path).mp hbefore
        refine iff_of_false (by simp) ?_
        rintro ⟨other, hother, hpath, function, hitem, _⟩
        exact hnone other hother hpath (ownNamespace_function.mpr ⟨function, hitem⟩)
      | some before => exact hcoll.shapes path before hbefore shape
    · rw [hothers path hown] at hshapes
      rw [hcoll.shapes path shapes hshapes, or_iff_left]
      rintro ⟨hpath, function, hfun, _⟩
      exact hown ⟨hpath, ownNamespace_function.mpr ⟨function, hfun⟩⟩
  visibility first hfst second hsnd hsame := by
    rcases mem_append.mp hfst with hold | hnew
    · rcases mem_append.mp hsnd with hold' | hnew'
      · exact hcoll.visibility first hold second hold' hsame
      · obtain rfl := mem_singleton.mp hnew'
        exact hvis first hold hsame
    · obtain rfl := mem_singleton.mp hnew
      rcases mem_append.mp hsnd with hold' | hnew'
      · exact (hvis second hold' hsame.symm).symm
      · rw [mem_singleton.mp hnew']
  childless other hother otherName hotherName := by
    rcases mem_append.mp hother with hother | hother
    · exact hcoll.childless other hother otherName hotherName
    · obtain rfl := mem_singleton.mp hother
      cases hname.symm.trans hotherName
      exact hchild
  symbols := hsymbols

/-! ### The symbols of the earlier declarations -/

section Previous

variable (hcoll : Collected units decls state)
  (hunit : ∃ unit ∈ units, unit.header = decl.1)
  (hheaders : ∀ other ∈ decls, other.1.modulePath = decl.1.modulePath → other.1 = decl.1)
  (hname : declarationName decl.2.item = some name)

include hcoll hunit

/-- Members of sorts lie outside every module that declares something. -/
theorem not_isSortMember : ¬ IsSortMember decls (decl.1.modulePath ++ [name]) symbol := by
  rintro ⟨earlier, sort, later, rfl, _, sortName, hsort, member, _, hpath, _⟩
  have hchild := hcoll.childless sort (by simp) sortName hsort
  obtain ⟨unit, hmem, hheader⟩ := hunit
  have htaken := isChildModule_of_split hmem (hheader ▸ hpath)
  rw [hchild] at htaken
  contradiction

include hname

theorem symbols_eq_none_iff :
    state.symbols (decl.1.modulePath ++ [name]) = none ↔
      ∀ other ∈ decls, ¬ SamePath other decl := by
  have hpath := path_eq hname
  constructor
  · intro hnone other hother hsame
    have hotherPath := (samePath_iff hpath).mp hsame
    obtain ⟨otherName, hotherName, heq⟩ := path_eq_some.mp hotherPath
    have hsome := (hcoll.symbols (decl.1.modulePath ++ [name])
      (symbolOf other.1 other.2.visibility otherName)).mpr
        (.inl ⟨other, hother, otherName, hotherName, heq.symm, rfl⟩)
    rw [hnone] at hsome
    contradiction
  · intro hfst
    refine eq_none_iff_forall_not_mem.mpr fun symbol hsym => ?_
    rcases (hcoll.symbols _ symbol).mp hsym with
      ⟨other, hother, otherName, hotherName, heq, _⟩ | hmember
    · refine hfst other hother ((samePath_iff hpath).mpr ?_)
      rw [path_eq hotherName, heq]
    · exact not_isSortMember hcoll hunit hmember

theorem visibility_of_symbol {prev : Symbol}
    (hprev : state.symbols (decl.1.modulePath ++ [name]) = some prev) :
    ∀ other ∈ decls, SamePath other decl →
      other.2.visibility = prev.visibility := by
  intro other hother hsame
  rcases (hcoll.symbols _ prev).mp hprev with
    ⟨first, hfst, firstName, hfirstName, heq, rfl⟩ | hmember
  · refine hcoll.visibility other hother first hfst (hsame.trans ?_)
    refine ⟨?_, ?_⟩
    · rw [path_eq hname, path_eq hfirstName, heq]
    · simp [path_eq hfirstName]
  · exact absurd hmember (not_isSortMember hcoll hunit)

omit hunit in
include hheaders in
theorem symbols_snoc {other : Declaration} (hother : other ∈ decls)
    (hsame : SamePath other decl)
    (hvis : ∀ other ∈ decls, SamePath other decl →
      other.2.visibility = decl.2.visibility) (path : List String) (symbol : Symbol) :
    state.symbols path = some symbol ↔ IsDeclared (decls ++ [decl]) path symbol ∨
        IsSortMember (decls ++ [decl]) path symbol := by
  rw [hcoll.symbols, isDeclared_snoc hname, isSortMember_snoc hname]
  constructor
  · exact Or.imp .inl .inl
  · rintro ((hdecl | ⟨rfl, rfl⟩) | (hmember | ⟨hfst, _⟩))
    · exact .inl hdecl
    · have hpath := path_eq hname
      obtain ⟨hmod, hotherName⟩ := eq_of_path_eq ((samePath_iff hpath).mp hsame) hpath hname
      refine .inl ⟨other, hother, name, hotherName, by rw [hmod], ?_⟩
      rw [hheaders other hother hmod, hvis other hother hsame]
    · exact .inr hmember
    · exact absurd hsame (hfst other hother)

end Previous

end Collected

/-! ## One step of the loop -/

theorem startFunction_rest {item : Item} : (startFunction path state item).symbols = state.symbols ∧
      (startFunction path state item).symbolNamespaces = state.symbolNamespaces ∧
      (startFunction path state item).diagnostics = state.diagnostics := by
  cases item <;> exact ⟨rfl, rfl, rfl⟩

variable {function : Function}

section Extends

variable {header : UnitHeader} {declared : DeclaredItem} {name : String} {path : List String}
  {prev : Symbol} {state : Collection}

theorem addOverload_extends {overloads : Finset OverloadShape} :
    state.diagnostics <+: (addOverload header declared name function path prev overloads
      state).diagnostics := by
  unfold addOverload
  split
  · exact Collection.report_extends
  · dsimp only
    split
    · split
      · exact Collection.report_extends
      · exact Collection.report_extends
    · exact prefix_refl _

theorem redeclareItem_extends : state.diagnostics <+:
    (redeclareItem units header declared name path prev state).diagnostics := by
  unfold redeclareItem
  dsimp only
  split
  · exact Collection.report_extends
  · split
    · split
      · exact prefix_refl _
      · split
        · exact Collection.report_extends
        · exact addOverload_extends.trans finishItem_extends
    · split
      · exact prefix_refl _
      · exact Collection.report_extends.trans finishItem_extends

theorem declareItem_extends : state.diagnostics <+:
    (declareItem units header declared name path state).diagnostics := by
  unfold declareItem
  dsimp only
  refine List.IsPrefix.trans ?_ finishItem_extends
  rw [insertSymbol_diagnostics, occupy_diagnostics, startFunction_rest.2.2]

theorem collectItem_extends : state.diagnostics <+:
    (collectItem units deps state header declared).diagnostics := by
  unfold collectItem
  split
  · exact prefix_refl _
  · dsimp only
    split
    · split
      · exact Collection.report_extends.trans redeclareItem_extends
      · exact redeclareItem_extends
    · split
      · exact Collection.report_extends.trans declareItem_extends
      · exact declareItem_extends

end Extends

theorem ne_nil_of_extends {first second : List ResolverDiagnostic} (hfst : first ≠ [])
    (hext : first <+: second) : second ≠ [] := by
  rintro rfl
  exact hfst (prefix_nil.mp hext)

/-- A declaration that is not a function, at a path with other declarations. -/
theorem redeclareItem_of_not_function {prev : Symbol}
    (hkind : declarationNamespace declared.item ≠ .function) :
    redeclareItem units header declared name path prev state =
      if isTypeValuePair (state.symbolNamespaces path) (declarationNamespace declared.item) ∧
          declared.visibility ≠ prev.visibility then
        state.report header declared.origin
          s!"declaration `{name}` must use the same visibility as the same-named declaration in {prev.sourcePath}"
      else if isTypeValuePair (state.symbolNamespaces path) (declarationNamespace declared.item) ∧
          declarationNamespace declared.item ∉ state.symbolNamespaces path ∧
          ¬ (declarationNamespace declared.item = .type ∧ .type ∈ state.symbolNamespaces path) then
        state.occupy path (declarationNamespace declared.item)
      else
        finishItem units header declared name
          (state.report header declared.origin (duplicateDeclaration header name prev)) := by
  obtain ⟨item, visibility, origin⟩ := declared
  cases item with
  | function function => exact absurd rfl hkind
  | _ => rfl

theorem redeclareItem_of_function {prev : Symbol} (hfun : declared.item = .function function) :
    redeclareItem units header declared name path prev state =
      if .type ∈ state.symbolNamespaces path ∧ declared.visibility ≠ prev.visibility then
        state.report header declared.origin
          s!"declaration `{name}` must use the same visibility as the same-named declaration in {prev.sourcePath}"
      else if .type ∈ state.symbolNamespaces path ∧ .other ∉ state.symbolNamespaces path ∧
          .function ∉ state.symbolNamespaces path then
        (state.insertOverload path (overloadShape function)).occupy path .function
      else
        match state.functionOverloads path with
        | none => state.report header declared.origin (duplicateDeclaration header name prev)
        | some overloads =>
          finishItem units header declared name
            (addOverload header declared name function path prev overloads state) := by
  obtain ⟨item, visibility, origin⟩ := declared
  obtain rfl : item = .function function := hfun
  unfold redeclareItem
  refine if_congr ?_ rfl (if_congr ?_ rfl rfl)
  · simp [declarationNamespace, isTypeValuePair]
  · simp [declarationNamespace, isTypeValuePair]

section Step

variable {decls : List Declaration} {decl : Declaration} {state : Collection}
  {name : String} (hcoll : Collected units decls state)
  (hname : declarationName decl.2.item = some name)

include hcoll hname

theorem declareItem_spec (hunits : ∀ other ∈ decls, ∃ unit ∈ units, unit.header = other.1)
    (hunit : ∃ unit ∈ units, unit.header = decl.1) (hfst : ∀ other ∈ decls, ¬ SamePath other decl)
    (hchild : isChildModule units decl.1.modulePath name = false) :
    Collected units (decls ++ [decl])
      (declareItem units decl.1 decl.2 name
        (decl.1.modulePath ++ [name]) state) := by
  have hpath := path_eq hname
  unfold declareItem
  dsimp only
  rw [finishItem_of_childless hchild]
  refine hcoll.snoc hname hchild (fun other hother hsame => absurd hsame (hfst other hother))
    ?_ ?_ ?_ ?_ ?_
  · rw [insertSortMembers_rest.2.2, insertSymbol_diagnostics,
      occupy_diagnostics, startFunction_rest.2.2]
    exact hcoll.clean
  · intro path kind
    rw [insertSortMembers_rest.1, insertSymbol_symbolNamespaces, mem_occupy,
      startFunction_rest.2.1, hpath, Option.some.injEq]
    rfl
  · intro path hown
    rw [insertSortMembers_rest.2.1, insertSymbol_functionOverloads, occupy_functionOverloads]
    cases hitem : decl.2.item with
    | function function =>
      have hne : path ≠ decl.1.modulePath ++ [name] := by
        rintro rfl
        exact hown ⟨hpath, ownNamespace_function.mpr ⟨function, hitem⟩⟩
      rw [startFunction, startOverloads_functionOverloads, update_of_ne hne]
    | _ => rfl
  · intro function path hfun hown
    cases hpath.symm.trans hown
    have hbefore : state.functionOverloads (decl.1.modulePath ++ [name]) = none := by
      refine (hcoll.overloads _).mpr fun other hother hotherPath => ?_
      exact absurd ((samePath_iff hpath).mpr hotherPath) (hfst other hother)
    rw [insertSortMembers_rest.2.1, hfun]
    simp [startFunction, hbefore]
  · intro path symbol
    rw [insertSortMembers_symbols, isDeclared_snoc hname, isSortMember_snoc hname,
      insertSymbol_symbols, occupy_symbols, startFunction_rest.1]
    constructor
    · rintro (hmember | ⟨_, hsym⟩)
      · exact .inr (.inr ⟨hfst, hmember⟩)
      · by_cases hown : path = decl.1.modulePath ++ [name]
        · subst hown
          rw [update_self, Option.some.injEq] at hsym
          exact .inl (.inr ⟨rfl, hsym.symm⟩)
        · rw [update_of_ne hown, hcoll.symbols] at hsym
          exact hsym.imp .inl .inl
    · have hlen : ∀ member, decl.1.modulePath ++ [name] ≠
          decl.1.modulePath ++ [name, member] := by simp
      rintro ((hdecl | ⟨rfl, rfl⟩) | (hmember | ⟨_, hmember⟩))
      · obtain ⟨other, hother, otherName, hotherName, rfl, rfl⟩ := id hdecl
        refine .inr ⟨fun member _ heq => ?_, ?_⟩
        · obtain ⟨unit, hmem, hheader⟩ := hunits other hother
          have htaken := isChildModule_of_split hmem (hheader ▸ heq)
          rw [hchild] at htaken
          contradiction
        · rw [update_of_ne, hcoll.symbols]
          · exact .inl hdecl
          · intro heq
            refine hfst other hother ((samePath_iff hpath).mpr ?_)
            rw [path_eq hotherName, heq]
      · exact .inr ⟨fun member _ => hlen member, update_self ..⟩
      · obtain ⟨earlier, sort, later, rfl, _, sortName, hsort, member, _, rfl, rfl⟩ := id hmember
        refine .inr ⟨fun other _ heq => ?_, ?_⟩
        · have hsplit : (sort.1.modulePath ++ [sortName]) ++ [member] =
              (decl.1.modulePath ++ [name]) ++ [other] := by simpa using heq
          refine hfst sort (by simp) ((samePath_iff hpath).mpr ?_)
          rw [path_eq hsort, (append_inj' hsplit rfl).1]
        · rw [update_of_ne, hcoll.symbols]
          · exact .inr hmember
          · intro heq
            rw [heq] at hmember
            exact hcoll.not_isSortMember hunit hmember
      · exact .inl hmember

/-- The namespaces that the earlier declarations of the path occupy. -/
theorem mem_symbolNamespaces_iff {kind : DeclarationNamespace} :
    kind ∈ state.symbolNamespaces (decl.1.modulePath ++ [name]) ↔
      ∃ other ∈ decls, SamePath other decl ∧ other.ownNamespace = kind := by
  rw [hcoll.namespaces]
  simp only [samePath_iff (path_eq hname)]

omit hname in
/-- The child module was reported when the first declaration of the path was collected. -/
theorem childless_of_samePath {other : Declaration} (hother : other ∈ decls)
    (hsame : SamePath other decl) (hname : declarationName decl.2.item = some name) :
    isChildModule units decl.1.modulePath name = false := by
  obtain ⟨hmod, hotherName⟩ :=
    eq_of_path_eq ((samePath_iff (path_eq hname)).mp hsame) (path_eq hname) hname
  rw [← hmod]
  exact hcoll.childless other hother name hotherName

end Step

/-- The next state keeps the invariant if the declaration is admitted, and has a report
otherwise. -/
def Decided (units : List ParsedUnit) (deps : DependencyTable)
    (decls : List Declaration) (decl : Declaration) (next : Collection) : Prop :=
  (Admits units deps decls decl → Collected units (decls ++ [decl]) next) ∧
  (¬ Admits units deps decls decl → next.diagnostics ≠ [])

/-- The first declaration of a path is admitted if its name is free. -/
theorem admits_of_first {decls : List Declaration} {decl : Declaration}
    (hfree : ¬ decl.NameTaken units deps) (hfst : ∀ other ∈ decls, ¬ SamePath other decl) :
    Admits units deps decls decl := by
  refine ⟨hfree, fun other hother h => absurd h (hfst other hother), ?_, ?_⟩
  · rintro _ ⟨other, hother, h⟩
    exact absurd h (hfst other hother)
  · rintro _ ⟨other, hother, h, _⟩
    exact absurd h (hfst other hother)

section Redeclare

variable {decls : List Declaration} {decl other : Declaration} {state : Collection}
  {name : String} {prev : Symbol} (hcoll : Collected units decls state)
  (hname : declarationName decl.2.item = some name)
  (hfree : ¬ decl.NameTaken units deps)
  (hother : other ∈ decls) (hsame : SamePath other decl)
  (hvisible : ∀ other ∈ decls, SamePath other decl → other.2.visibility = prev.visibility)

include hcoll hname hfree hother hsame hvisible

/-- A type or a value may join what is there when the two form a pair. -/
theorem admits_iff_of_not_function (hkind : decl.ownNamespace ≠ .function) :
    Admits units deps decls decl ↔
      isTypeValuePair (state.symbolNamespaces (decl.1.modulePath ++ [name]))
          decl.ownNamespace = true ∧
        decl.2.visibility = prev.visibility ∧ decl.ownNamespace ∉
            state.symbolNamespaces (decl.1.modulePath ++ [name]) := by
  have hoccupied := @mem_symbolNamespaces_iff _ _ _ _ _ hcoll hname
  simp only [isTypeValuePair, decide_eq_true_eq, hoccupied]
  constructor
  · intro hadmits
    have hpair := hadmits.pair other hother hsame
    refine ⟨?_, ?_, ?_⟩
    · cases hown : decl.ownNamespace with
      | function => exact absurd hown hkind
      | type =>
        refine .inl ⟨rfl, ?_⟩
        cases hotherKind : other.ownNamespace with
        | function => exact .inl ⟨other, hother, hsame, hotherKind⟩
        | type => exact absurd ⟨hotherKind, hown⟩ hpair.type
        | other => exact .inr ⟨other, hother, hsame, hotherKind⟩
      | other => exact .inr ⟨by simp, hadmits.value hown ⟨other, hother, hsame⟩⟩
    · rw [← hpair.visibility, hvisible other hother hsame]
    · rintro ⟨twin, htwin, htwinSame, htwinKind⟩
      have hpair := hadmits.pair twin htwin htwinSame
      cases hown : decl.ownNamespace with
      | function => exact hkind hown
      | type => exact hpair.type ⟨htwinKind.trans hown, hown⟩
      | other => exact hpair.other ⟨htwinKind.trans hown, hown⟩
  · rintro ⟨hpair, hvis, hnew⟩
    refine ⟨hfree, fun earlier hearlier hearlierSame => ⟨?_, ?_, ?_, ?_⟩, ?_, ?_⟩
    · rw [hvisible earlier hearlier hearlierSame, hvis]
    · rintro ⟨hfst, hsnd⟩
      exact hnew ⟨earlier, hearlier, hearlierSame, hfst.trans hsnd.symm⟩
    · rintro ⟨hfst, hsnd⟩
      exact hnew ⟨earlier, hearlier, hearlierSame, hfst.trans hsnd.symm⟩
    · rintro ⟨_, function, _, hfun, _⟩
      exact hkind (ownNamespace_function.mpr ⟨function, hfun⟩)
    · intro hown _
      rcases hpair with ⟨htype, _⟩ | ⟨_, htype⟩
      · rw [hown] at htype
        contradiction
      · exact htype
    · exact fun hown => absurd hown hkind

/-- A function may follow a type of its name, or further overloads. -/
theorem admits_iff_of_function (hfun : decl.2.item = .function function) :
    Admits units deps decls decl ↔
      decl.2.visibility = prev.visibility ∧ (DeclarationNamespace.other ∉
            state.symbolNamespaces (decl.1.modulePath ++ [name]) ∧
          DeclarationNamespace.function ∉
            state.symbolNamespaces (decl.1.modulePath ++ [name]) ∨
        ∃ shapes, state.functionOverloads (decl.1.modulePath ++ [name]) = some shapes ∧
          ¬ (overloadShape function ∈ shapes ∧
            ¬ (name = "foreign" ∧ function.builtin = true))) := by
  have hpath := path_eq hname
  have hoccupied := @mem_symbolNamespaces_iff _ _ _ _ _ hcoll hname
  have hown : decl.ownNamespace = .function := ownNamespace_function.mpr ⟨function, hfun⟩
  have hfunctionName : function.name = name := by
    rw [hfun] at hname
    exact Option.some.inj hname
  simp only [hoccupied]
  constructor
  · intro hadmits
    have hpair := hadmits.pair other hother hsame
    refine ⟨by rw [← hpair.visibility, hvisible other hother hsame], ?_⟩
    cases hoverloads : state.functionOverloads (decl.1.modulePath ++ [name]) with
    | none =>
      have hnoFunction := hcoll.functionOverloads_eq_none_iff.mp hoverloads
      rw [hoccupied] at hnoFunction
      exact .inl ⟨fun hval => hnoFunction (hadmits.function hown hval), hnoFunction⟩
    | some shapes =>
      refine .inr ⟨shapes, rfl, ?_⟩
      rintro ⟨hshape, hexempt⟩
      obtain ⟨twin, htwin, htwinPath, first, hfst, heq⟩ :=
        (hcoll.shapes _ shapes hoverloads _).mp hshape
      refine (hadmits.pair twin htwin ((samePath_iff hpath).mpr htwinPath)).overload ?_
      exact ⟨first, function, hfst, hfun, heq, hfunctionName ▸ hexempt⟩
  · rintro ⟨hvis, hrest⟩
    refine ⟨hfree, fun earlier hearlier hearlierSame => ⟨?_, ?_, ?_, ?_⟩, ?_, ?_⟩
    · rw [hvisible earlier hearlier hearlierSame, hvis]
    · simp [hown]
    · simp [hown]
    · rintro ⟨first, second, hfst, hsnd, heq, hexempt⟩
      obtain rfl : function = second := Item.function.inj (hfun.symm.trans hsnd)
      rw [hfunctionName] at hexempt
      rcases hrest with ⟨_, hnoFunction⟩ | ⟨shapes, hshapes, hshape⟩
      · exact hnoFunction ⟨earlier, hearlier, hearlierSame, ownNamespace_function.mpr ⟨first, hfst⟩⟩
      · refine hshape ⟨(hcoll.shapes _ shapes hshapes _).mpr ?_, hexempt⟩
        exact ⟨earlier, hearlier, (samePath_iff hpath).mp hearlierSame, first, hfst, heq⟩
    · simp [hown]
    · intro _ hval
      rcases hrest with ⟨hnoValue, _⟩ | ⟨shapes, hshapes, _⟩
      · exact absurd hval hnoValue
      · rw [← hoccupied]
        by_contra hnoFunction
        rw [hcoll.functionOverloads_eq_none_iff.mpr hnoFunction] at hshapes
        contradiction

omit hfree hvisible in
theorem exists_occupied : ∃ kind, kind ∈ state.symbolNamespaces (decl.1.modulePath ++ [name]) :=
  ⟨other.ownNamespace, (mem_symbolNamespaces_iff hcoll hname).mpr ⟨other, hother, hsame, rfl⟩⟩

variable (hheaders : ∀ other ∈ decls, other.1.modulePath = decl.1.modulePath → other.1 = decl.1)

include hheaders

theorem redeclareItem_spec_of_not_function (hkind : decl.ownNamespace ≠ .function) :
    Decided units deps decls decl (redeclareItem units decl.1
      decl.2 name (decl.1.modulePath ++ [name]) prev state) := by
  have hpath := path_eq hname
  have hchild := childless_of_samePath hcoll hother hsame hname
  rw [Decided, admits_iff_of_not_function hcoll hname hfree hother hsame hvisible hkind,
    redeclareItem_of_not_function hkind]
  constructor
  · rintro ⟨hpair, hvis, hnew⟩
    have hearlier : ∀ other ∈ decls, SamePath other decl →
        other.2.visibility = decl.2.visibility := fun other hother hsame =>
      (hvisible other hother hsame).trans hvis.symm
    have hnotType : ¬ (declarationNamespace decl.2.item = .type ∧
        .type ∈ state.symbolNamespaces (decl.1.modulePath ++ [name])) := by
      rintro ⟨hown, htype⟩
      rw [ownNamespace, hown] at hnew
      exact hnew htype
    rw [if_neg (by simp [hvis]), if_pos ⟨hpair, hnew, hnotType⟩]
    refine hcoll.snoc hname hchild hearlier hcoll.clean ?_ (fun _ _ => rfl) ?_ ?_
    · intro path kind
      rw [mem_occupy, hpath, Option.some.injEq]
      rfl
    · exact fun function _ hfun _ =>
        absurd (ownNamespace_function.mpr ⟨function, hfun⟩) hkind
    · exact hcoll.symbols_snoc hheaders hname hother hsame hearlier
  · intro hrefused
    split
    · exact Collection.report_ne_nil
    next hvis =>
      split
      next hjoins =>
        refine absurd ⟨hjoins.1, ?_, hjoins.2.1⟩ hrefused
        by_contra hne
        exact hvis ⟨hjoins.1, hne⟩
      · exact ne_nil_of_extends Collection.report_ne_nil finishItem_extends

theorem redeclareItem_spec_of_function (hfun : decl.2.item = .function function) :
    Decided units deps decls decl (redeclareItem units decl.1
      decl.2 name (decl.1.modulePath ++ [name]) prev state) := by
  have hpath := path_eq hname
  have hchild := childless_of_samePath hcoll hother hsame hname
  have hown : decl.ownNamespace = .function := ownNamespace_function.mpr ⟨function, hfun⟩
  have hnoMembers : sortMembers decl.2.item = [] := by rw [hfun]; rfl
  rw [Decided, admits_iff_of_function hcoll hname hfree hother hsame hvisible hfun,
    redeclareItem_of_function hfun]
  constructor
  · rintro ⟨hvis, hrest⟩
    have hearlier : ∀ other ∈ decls, SamePath other decl →
        other.2.visibility = decl.2.visibility := fun other hother hsame =>
      (hvisible other hother hsame).trans hvis.symm
    rw [if_neg (by simp [hvis])]
    rcases hrest with ⟨hnoValue, hnoFunction⟩ | ⟨shapes, hshapes, hnew⟩
    · have htype : DeclarationNamespace.type ∈
          state.symbolNamespaces (decl.1.modulePath ++ [name]) := by
        obtain ⟨kind, hkind⟩ := exists_occupied hcoll hname hother hsame
        cases kind with
        | type => exact hkind
        | function => exact absurd hkind hnoFunction
        | other => exact absurd hkind hnoValue
      rw [if_pos ⟨htype, hnoValue, hnoFunction⟩]
      refine hcoll.snoc hname hchild hearlier hcoll.clean ?_ ?_ ?_ ?_
      · intro path kind
        rw [mem_occupy, hpath, hown, Option.some.injEq]
        rfl
      · intro path hnot
        have hne : path ≠ decl.1.modulePath ++ [name] := by
          rintro rfl
          exact hnot ⟨hpath, hown⟩
        rw [occupy_functionOverloads, insertOverload_functionOverloads, update_of_ne hne]
      · intro other path hotherFunction hotherPath
        cases hpath.symm.trans hotherPath
        cases hfun.symm.trans hotherFunction
        simp
      · exact hcoll.symbols_snoc hheaders hname hother hsame hearlier
    · have hsome : DeclarationNamespace.function ∈
          state.symbolNamespaces (decl.1.modulePath ++ [name]) := by
        by_contra hnone
        rw [hcoll.functionOverloads_eq_none_iff.mpr hnone] at hshapes
        contradiction
      rw [if_neg (fun h => h.2.2 hsome), hshapes]
      dsimp only
      rw [finishItem_of_childless hchild, hnoMembers, addOverload, if_neg (by simp [hvis])]
      dsimp only
      rw [if_neg hnew]
      refine hcoll.snoc hname hchild hearlier hcoll.clean ?_ ?_ ?_ ?_
      · intro path kind
        refine (or_iff_left_of_imp ?_).symm
        rintro ⟨hotherPath, rfl⟩
        cases hpath.symm.trans hotherPath
        rw [hown]
        exact hsome
      · intro path hnot
        have hne : path ≠ decl.1.modulePath ++ [name] := by
          rintro rfl
          exact hnot ⟨hpath, hown⟩
        exact update_of_ne hne _ _
      · intro other path hotherFunction hotherPath
        cases hpath.symm.trans hotherPath
        cases hfun.symm.trans hotherFunction
        exact update_self ..
      · exact hcoll.symbols_snoc hheaders hname hother hsame hearlier
  · intro hrefused
    split
    · exact Collection.report_ne_nil
    next hvis =>
      split
      next hjoins =>
        refine absurd ⟨?_, .inl hjoins.2⟩ hrefused
        by_contra hne
        exact hvis ⟨hjoins.1, hne⟩
      · split
        · exact Collection.report_ne_nil
        next overloads hoverloads =>
          refine ne_nil_of_extends ?_ finishItem_extends
          unfold addOverload
          split
          · exact Collection.report_ne_nil
          next heq =>
            have heq := not_not.mp heq
            dsimp only
            split
            · split
              · exact Collection.report_ne_nil
              · exact Collection.report_ne_nil
            next hnew => exact absurd ⟨heq, .inr ⟨overloads, hoverloads, hnew⟩⟩ hrefused

end Redeclare

/-- The units of the declarations are units of the graph, one for each module. -/
structure FromUnits (units : List ParsedUnit) (decls : List Declaration) : Prop where
  unit : ∀ decl ∈ decls, ∃ unit ∈ units, unit.header = decl.1
  header : ∀ first ∈ decls, ∀ second ∈ decls,
    first.1.modulePath = second.1.modulePath → first.1 = second.1

/-- One round of the loop keeps the invariant exactly when the declaration is admitted. -/
theorem collectItem_spec (hcoll : Collected units decls state)
    (hunits : FromUnits units (decls ++ [decl])) :
    Decided units deps decls decl
      (collectItem units deps state decl.1 decl.2) := by
  have hunit := hunits.unit decl (by simp)
  have hheaders : ∀ other ∈ decls, other.1.modulePath = decl.1.modulePath →
      other.1 = decl.1 := fun other hother =>
    hunits.header other (mem_append_left _ hother) decl (by simp)
  unfold collectItem
  split
  next hname =>
    have hpath : decl.path = none := by rw [Declaration.path, hname, map_none]
    have hsame : ∀ other : Declaration, ¬ SamePath other decl := fun _ h => h.2 hpath
    refine ⟨fun _ => hcoll.snoc_nameless hname, fun hrefused => absurd ?_ hrefused⟩
    refine admits_of_first ?_ fun other _ => hsame other
    rintro ⟨name, hsome, _⟩
    rw [hname] at hsome
    contradiction
  next name hname =>
    by_cases halias : decl.1.modulePath = decl.1.packageRoot ∧
        hasDependencyAlias deps decl.1.packageRoot name = true
    · have htaken : decl.NameTaken units deps := ⟨name, hname, .inl halias⟩
      refine ⟨fun hadmits => absurd htaken hadmits.free, fun _ => ?_⟩
      rw [if_pos halias]
      dsimp only
      split
      · exact ne_nil_of_extends Collection.report_ne_nil redeclareItem_extends
      · exact ne_nil_of_extends Collection.report_ne_nil declareItem_extends
    · have hfree (hchild : isChildModule units decl.1.modulePath name = false) :
          ¬ decl.NameTaken units deps := by
        rintro ⟨taken, htaken, hconf⟩
        cases hname.symm.trans htaken
        rcases hconf with hconf | hconf
        · exact halias hconf
        · rw [hchild] at hconf
          contradiction
      rw [if_neg halias]
      dsimp only
      split
      next prev hprev =>
        have hexists : ∃ other ∈ decls, SamePath other decl := by
          by_contra hnone
          push Not at hnone
          rw [(hcoll.symbols_eq_none_iff hunit hname).mpr hnone] at hprev
          contradiction
        obtain ⟨other, hother, hsame⟩ := hexists
        have hvisible := hcoll.visibility_of_symbol hunit hname hprev
        have hfree := hfree (childless_of_samePath hcoll hother hsame hname)
        by_cases hkind : decl.ownNamespace = .function
        · obtain ⟨function, hfun⟩ := ownNamespace_function.mp hkind
          exact redeclareItem_spec_of_function hcoll hname hfree hother hsame hvisible
            hheaders hfun
        · exact redeclareItem_spec_of_not_function hcoll hname hfree hother hsame hvisible
            hheaders hkind
      next hnone =>
        have hfst := (hcoll.symbols_eq_none_iff hunit hname).mp hnone
        cases hchild : isChildModule units decl.1.modulePath name with
        | true =>
          refine ⟨fun hadmits => absurd ⟨name, hname, .inr hchild⟩ hadmits.free, fun _ => ?_⟩
          exact finishItem_ne_nil hchild
        | false =>
          refine ⟨fun _ => declareItem_spec hcoll hname (fun other hother =>
            hunits.unit other (mem_append_left _ hother)) hunit hfst hchild, ?_⟩
          exact fun hrefused => absurd (admits_of_first (hfree hchild) hfst) hrefused

/-! ## The whole loop -/

theorem accepted_snoc :
    Accepted units deps (decls ++ [decl]) ↔ Accepted units deps decls ∧
        Admits units deps decls decl := by
  constructor
  · intro hacc
    refine ⟨fun earlier middle later hsplit => ?_, hacc decls decl [] rfl⟩
    exact hacc earlier middle (later ++ [decl]) (by simp [hsplit])
  · rintro ⟨hacc, hadmits⟩ earlier middle later hsplit
    rcases eq_nil_or_concat later with rfl | ⟨later, last, rfl⟩
    · obtain ⟨rfl, hlast⟩ := append_inj' hsplit rfl
      obtain rfl := head_eq_of_cons_eq hlast
      exact hadmits
    · rw [concat_eq_append, ← cons_append, ← append_assoc] at hsplit
      exact hacc earlier middle later (append_inj' hsplit rfl).1

/-- The declarations of the units in the order of the two loops. -/
def declarationsOf (units : List ParsedUnit) : List Declaration :=
  units.flatMap fun unit => unit.items.map fun declared => (unit.header, declared)

theorem collectSymbols_eq (units : List ParsedUnit) (deps : DependencyTable) :
    collectSymbols units deps =
      (declarationsOf units).foldl (fun state decl =>
        collectItem units deps state decl.1 decl.2) .empty := by
  rw [declarationsOf, foldl_flatMap]
  simp only [foldl_map]
  rfl

theorem foldl_collectItem_spec (deps : DependencyTable)
    (hunits : FromUnits units decls) :
    (Accepted units deps decls →
      Collected units decls (decls.foldl (fun state decl =>
        collectItem units deps state decl.1 decl.2) .empty)) ∧
    (¬ Accepted units deps decls →
      (decls.foldl (fun state decl =>
        collectItem units deps state decl.1 decl.2)
          .empty).diagnostics ≠ []) := by
  induction decls using reverseRecOn with
  | nil =>
    refine ⟨fun _ => Collected.start units, fun hrefused => absurd ?_ hrefused⟩
    intro earlier decl later hsplit
    simp at hsplit
  | append_singleton decls decl ih =>
    have hbefore : FromUnits units decls :=
      ⟨fun other hother => hunits.unit other (mem_append_left _ hother),
        fun first hfst second hsnd => hunits.header first (mem_append_left _ hfst)
          second (mem_append_left _ hsnd)⟩
    obtain ⟨hclean, hdirty⟩ := ih hbefore
    rw [accepted_snoc, foldl_append, foldl_cons, foldl_nil]
    refine ⟨fun hacc => (collectItem_spec (hclean hacc.1) hunits).1 hacc.2, ?_⟩
    intro hrefused
    by_cases hacc : Accepted units deps decls
    · refine (collectItem_spec (hclean hacc) hunits).2 ?_
      exact fun hadmits => hrefused ⟨hacc, hadmits⟩
    · exact ne_nil_of_extends (hdirty hacc) collectItem_extends

/-- No two units provide the same module. -/
def DistinctModules (units : List ParsedUnit) : Prop := (units.map (·.header.modulePath)).Nodup

theorem fromUnits_declarationsOf (hmods : DistinctModules units) :
    FromUnits units (declarationsOf units) := by
  have hmem : ∀ decl ∈ declarationsOf units,
      ∃ unit ∈ units, unit.header = decl.1 := by
    intro decl hdeclaration
    obtain ⟨unit, hunit, hitem⟩ := mem_flatMap.mp hdeclaration
    obtain ⟨declared, _, rfl⟩ := mem_map.mp hitem
    exact ⟨unit, hunit, rfl⟩
  refine ⟨hmem, fun first hfst second hsnd hmod => ?_⟩
  obtain ⟨unit, hunit, hheader⟩ := hmem first hfst
  obtain ⟨twin, htwin, hheader'⟩ := hmem second hsnd
  have heq : unit = twin := by
    refine inj_on_of_nodup_map hmods hunit htwin ?_
    rw [hheader, hheader', hmod]
  rw [← hheader, ← hheader', heq]

/-- Collection reports nothing exactly when every declaration is admitted after the ones
before it, and then its maps describe all of them. -/
theorem collectSymbols_clean_iff (hmods : DistinctModules units) :
    (collectSymbols units deps).diagnostics = [] ↔
      Accepted units deps (declarationsOf units) := by
  rw [collectSymbols_eq]
  obtain ⟨hclean, hdirty⟩ := foldl_collectItem_spec deps
    (fromUnits_declarationsOf hmods)
  constructor
  · intro hnil
    by_contra hrefused
    exact hdirty hrefused hnil
  · exact fun hacc => (hclean hacc).clean

theorem collected_of_accepted (hmods : DistinctModules units)
    (hacc : Accepted units deps (declarationsOf units)) :
    Collected units (declarationsOf units) (collectSymbols units deps) := by
  rw [collectSymbols_eq]
  exact (foldl_collectItem_spec deps (fromUnits_declarationsOf hmods)).1 hacc

end Salicin.Modules
