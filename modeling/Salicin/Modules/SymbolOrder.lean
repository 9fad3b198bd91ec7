import Salicin.Modules.SymbolCollection
import Mathlib.Data.List.Sort

/-!
# The listing order of declarations

Which declarations may share a name, and what the symbol table holds in the end, should not
depend on the order of the units or of the items inside them. Three groups of declarations
make it depend on the order: a type, functions and a value of one name; a builtin and a
plain declaration of `foreign` with the same labels; a sort with members beside a function
or a value of its name. Without these groups nothing depends on the order.
-/

namespace Salicin.Modules

open List Salicin.Source Declaration

/-- The units in another order, each with its items in another order. -/
def Reordered (units reordered : List ParsedUnit) : Prop :=
  ∃ middle, List.Forall₂ (fun unit twin : ParsedUnit =>
    twin.header = unit.header ∧ twin.items.Perm unit.items) units middle ∧ middle.Perm reordered

/-- Every order of the units and items is reported, or none is and all give one table. -/
def OrderIndependent (units : List ParsedUnit) (dependencies : DependencyTable) : Prop :=
  ∀ reordered, Reordered units reordered →
    ((collectSymbols reordered dependencies).diagnostics = [] ↔
        (collectSymbols units dependencies).diagnostics = []) ∧
      ((collectSymbols units dependencies).diagnostics = [] →
        (collectSymbols reordered dependencies).symbols =
          (collectSymbols units dependencies).symbols)

/-- Two declarations of one name that are refused in either order. -/
def Clash (first second : Declaration) : Prop :=
  SamePath first second ∧ (first.2.visibility ≠ second.2.visibility ∨
      (first.ownNamespace = .type ∧ second.ownNamespace = .type) ∨
      (first.ownNamespace = .other ∧ second.ownNamespace = .other) ∨
      (Repeats first second ∧ Repeats second first))

/-- The declarations are refused in every order. -/
inductive Conflicted (units : List ParsedUnit) (dependencies : DependencyTable)
    (decls : List Declaration) : Prop
  | nameTaken (declaration : Declaration) (hmem : declaration ∈ decls)
      (htaken : declaration.NameTaken units dependencies)
  | clash (hclash : ¬ decls.Pairwise fun first second => ¬ Clash first second)
  | untypedValue (function value : Declaration) (hfun : function ∈ decls)
      (hval : value ∈ decls) (hsame : SamePath function value)
      (hfunctionKind : function.ownNamespace = .function) (hvalueKind : value.ownNamespace = .other)
      (huntyped : ∀ type ∈ decls, SamePath type value → type.ownNamespace ≠ .type)

/-- The order decides what becomes of the declarations. -/
inductive Ambiguous (decls : List Declaration) : Prop
  | typeFunctionValue (type function value : Declaration) (htype : type ∈ decls)
      (hfun : function ∈ decls) (hval : value ∈ decls)
      (hsame : SamePath type value) (hfunctionSame : SamePath function value)
      (htypeKind : type.ownNamespace = .type) (hfunctionKind : function.ownNamespace = .function)
      (hvalueKind : value.ownNamespace = .other)
  | foreign (builtin plain : Declaration) (hbuiltin : builtin ∈ decls)
      (hplain : plain ∈ decls) (hsame : SamePath builtin plain)
      (first second : Function) (hfst : builtin.2.item = .function first)
      (hsnd : plain.2.item = .function second) (hname : second.name = "foreign")
      (hshape : overloadShape first = overloadShape second) (hfirstBuiltin : first.builtin = true)
      (hsecondPlain : second.builtin = false)
  | sortMembers (sort other : Declaration) (hsort : sort ∈ decls)
      (hother : other ∈ decls) (hsame : SamePath other sort)
      (hmembers : sortMembers sort.2.item ≠ []) (hkind : other.ownNamespace ≠ .type)

variable {units : List ParsedUnit} {dependencies : DependencyTable}
  {decls : List Declaration}

theorem Clash.symm {first second : Declaration} (hclash : Clash first second) :
    Clash second first := by
  obtain ⟨hsame, hvis | htype | hother | hrepeats⟩ := hclash
  · exact ⟨hsame.symm, .inl hvis.symm⟩
  · exact ⟨hsame.symm, .inr (.inl htype.symm)⟩
  · exact ⟨hsame.symm, .inr (.inr (.inl hother.symm))⟩
  · exact ⟨hsame.symm, .inr (.inr (.inr hrepeats.symm))⟩

/-- The first declaration with a property, and what comes before it. -/
theorem exists_first {property : Declaration → Prop}
    (hexists : ∃ declaration ∈ decls, property declaration) :
    ∃ earlier declaration later, decls = earlier ++ declaration :: later ∧
      property declaration ∧ ∀ other ∈ earlier, ¬ property other := by
  classical
  obtain ⟨declaration, hmem, hprop⟩ := hexists
  cases hfind : decls.find? (fun other => decide (property other)) with
  | none => simpa [hprop] using List.find?_eq_none.mp hfind declaration hmem
  | some first =>
    obtain ⟨hfst, earlier, later, hsplit, hearlier⟩ := List.find?_eq_some_iff_append.mp hfind
    refine ⟨earlier, first, later, hsplit, by simpa using hfst, fun other hother => ?_⟩
    simpa using hearlier other hother

/-! ## Accepted lists -/

variable {earlier later : List Declaration}

namespace Accepted

variable (hacc : Accepted units dependencies decls)

include hacc

theorem pairwise : decls.Pairwise fun first second =>
    SamePath first second → PairOk first second := by
  induction decls using reverseRecOn with
  | nil => exact List.Pairwise.nil
  | append_singleton decls declaration ih =>
    obtain ⟨hbefore, hadmits⟩ := accepted_snoc.mp hacc
    refine pairwise_append.mpr ⟨ih hbefore, pairwise_singleton _ _, ?_⟩
    intro first hfst second hsnd hsame
    obtain rfl := mem_singleton.mp hsnd
    exact hadmits.pair first hfst hsame

/-- A value comes after the type and after the first function of its name. -/
theorem value_after {value : Declaration} (hsplit : decls = earlier ++ value :: later)
    (hkind : value.ownNamespace = .other) {function : Declaration} (hfun : function ∈ decls)
    (hsame : SamePath function value) (hfunctionKind : function.ownNamespace = .function) :
    ∃ other ∈ earlier, SamePath other value := by
  by_contra hfst
  have hexists : ∃ other ∈ decls, SamePath other value ∧ other.ownNamespace = .function :=
    ⟨function, hfun, hsame, hfunctionKind⟩
  obtain ⟨before, first, after, hsplit', ⟨hfirstSame, hfirstKind⟩, hbefore⟩ := exists_first hexists
  have hval : value ∈ before := by
    rcases append_eq_append_iff.mp (hsplit.symm.trans hsplit') with
      ⟨rest, rfl, hrest⟩ | ⟨rest, rfl, hrest⟩
    · cases rest with
      | nil =>
        obtain rfl := head_eq_of_cons_eq hrest
        rw [hkind] at hfirstKind
        contradiction
      | cons head rest =>
        obtain rfl := head_eq_of_cons_eq hrest
        simp
    · exfalso
      cases rest with
      | nil =>
        obtain rfl := head_eq_of_cons_eq hrest
        rw [hkind] at hfirstKind
        contradiction
      | cons head rest =>
        obtain rfl := head_eq_of_cons_eq hrest
        exact hfst ⟨first, by simp, hfirstSame⟩
  obtain ⟨other, hother, hotherSame, hotherKind⟩ :=
    (hacc before first after hsplit').function hfirstKind ⟨value, hval, hfirstSame.symm, hkind⟩
  exact hbefore other hother ⟨hotherSame.trans hfirstSame, hotherKind⟩

theorem not_conflicted : ¬ Conflicted units dependencies decls := by
  rintro (⟨declaration, hmem, htaken⟩ | hclash |
    ⟨function, value, hfun, hval, hsame, hfunctionKind, hvalueKind, huntyped⟩)
  · obtain ⟨earlier, later, hsplit⟩ := append_of_mem hmem
    exact (hacc earlier declaration later hsplit).free htaken
  · refine hclash (hacc.pairwise.imp fun hpair hclash => ?_)
    obtain ⟨hsame, hvis | htype | hother | hrepeats⟩ := hclash
    · exact hvis (hpair hsame).visibility
    · exact (hpair hsame).type htype
    · exact (hpair hsame).other hother
    · exact (hpair hsame).overload hrepeats.1
  · obtain ⟨earlier, later, hsplit⟩ := append_of_mem hval
    obtain ⟨other, hother, hotherSame⟩ :=
      hacc.value_after hsplit hvalueKind hfun hsame hfunctionKind
    obtain ⟨type, htype, htypeSame, htypeKind⟩ :=
      (hacc earlier value later hsplit).value hvalueKind ⟨other, hother, hotherSame⟩
    exact huntyped type (hsplit ▸ mem_append_left _ htype) htypeSame htypeKind

end Accepted

/-! ## Orders that are accepted -/

variable {declaration : Declaration}

theorem pairwise_split {relation : Declaration → Declaration → Prop}
    (hpairwise : decls.Pairwise relation) (hsplit : decls = earlier ++ declaration :: later) :
    ∀ other ∈ earlier, relation other declaration := by
  intro other hother
  rw [hsplit, pairwise_append] at hpairwise
  exact hpairwise.2.2 other hother declaration mem_cons_self

theorem pairwise_split_later {relation : Declaration → Declaration → Prop}
    (hpairwise : decls.Pairwise relation) (hsplit : decls = earlier ++ declaration :: later) :
    ∀ other ∈ later, relation declaration other := by
  intro other hother
  rw [hsplit, pairwise_append, pairwise_cons] at hpairwise
  exact hpairwise.2.1.1 other hother

/-- Without a conflict only three things can go wrong: a repeated overload, a value before
its type and a function after a value alone. -/
theorem accepted_of_order (hconf : ¬ Conflicted units dependencies decls)
    (horder : ∀ earlier declaration later, decls = earlier ++ declaration :: later →
      ∀ other ∈ earlier, SamePath other declaration →
        (Repeats other declaration → Repeats declaration other) ∧
        (declaration.ownNamespace = .other → other.ownNamespace = .function →
          ∃ type ∈ earlier, SamePath type declaration ∧ type.ownNamespace = .type) ∧
        ¬ (declaration.ownNamespace = .function ∧ other.ownNamespace = .other)) :
    Accepted units dependencies decls := by
  intro earlier declaration later hsplit
  have hmem : declaration ∈ decls := by simp [hsplit]
  have hclash : ∀ other ∈ earlier, ¬ Clash other declaration := by
    by_contra hclash
    refine hconf (.clash fun hpairwise => hclash ?_)
    exact pairwise_split hpairwise hsplit
  refine ⟨fun htaken => hconf (.nameTaken declaration hmem htaken), ?_, ?_, ?_⟩
  · intro other hother hsame
    have hnot := fun h => hclash other hother ⟨hsame, h⟩
    refine ⟨?_, fun htype => hnot (.inr (.inl htype)),
      fun hval => hnot (.inr (.inr (.inl hval))), fun hrepeats => ?_⟩
    · by_contra hne
      exact hnot (.inl hne)
    · have hback := (horder earlier declaration later hsplit other hother hsame).1 hrepeats
      exact hnot (.inr (.inr (.inr ⟨hrepeats, hback⟩)))
  · rintro hval ⟨other, hother, hsame⟩
    cases hkind : other.ownNamespace with
    | type => exact ⟨other, hother, hsame, hkind⟩
    | function =>
      exact (horder earlier declaration later hsplit other hother hsame).2.1 hval hkind
    | other => exact absurd ⟨hsame, .inr (.inr (.inl ⟨hkind, hval⟩))⟩ (hclash other hother)
  · rintro hfun ⟨other, hother, hsame, hkind⟩
    exact absurd ⟨hfun, hkind⟩
      (horder earlier declaration later hsplit other hother hsame).2.2

/-- A function and a value of one name come with a type unless they conflict. -/
theorem exists_type_of_not_conflicted (hconf : ¬ Conflicted units dependencies decls)
    {function value : Declaration} (hfun : function ∈ decls) (hval : value ∈ decls)
    (hsame : SamePath function value) (hfunctionKind : function.ownNamespace = .function)
    (hvalueKind : value.ownNamespace = .other) :
    ∃ type ∈ decls, SamePath type value ∧ type.ownNamespace = .type := by
  by_contra hnone
  refine hconf (.untypedValue function value hfun hval hsame hfunctionKind hvalueKind ?_)
  exact fun type htype htypeSame htypeKind => hnone ⟨type, htype, htypeSame, htypeKind⟩

/-- Labels that may be repeated in one order only belong to a builtin and a plain
declaration of `foreign`. -/
theorem repeats_one_way {first second : Declaration} (hsame : SamePath first second)
    (hrepeats : Repeats first second) (hback : ¬ Repeats second first) :
    ∃ builtin plain, first.2.item = .function builtin ∧ second.2.item = .function plain ∧
      plain.name = "foreign" ∧ overloadShape builtin = overloadShape plain ∧
        builtin.builtin = true ∧ plain.builtin = false := by
  obtain ⟨builtin, plain, hfst, hsnd, hshape, hplain⟩ := hrepeats
  have hbuiltin : builtin.name = "foreign" ∧ builtin.builtin = true := by
    by_contra hbuiltin
    exact hback ⟨plain, builtin, hsnd, hfst, hshape.symm, hbuiltin⟩
  have hname : declarationName second.2.item = some plain.name := by rw [hsnd]; rfl
  have hfirstName : declarationName first.2.item = some plain.name :=
    (eq_of_path_eq ((samePath_iff (path_eq hname)).mp hsame) (path_eq hname) hname).2
  rw [hfst] at hfirstName
  have hnames : builtin.name = plain.name := Option.some.inj hfirstName
  have hforeign : plain.name = "foreign" := hnames ▸ hbuiltin.1
  refine ⟨builtin, plain, hfst, hsnd, hforeign, hshape, hbuiltin.2, ?_⟩
  by_contra htrue
  exact hplain ⟨hforeign, by simpa using htrue⟩

theorem accepted_of_not_ambiguous (hconf : ¬ Conflicted units dependencies decls)
    (hamb : ¬ Ambiguous decls) : Accepted units dependencies decls := by
  refine accepted_of_order hconf ?_
  rintro earlier declaration later rfl other hother hsame
  have hmem : declaration ∈ earlier ++ declaration :: later := by simp
  have hotherMem : other ∈ earlier ++ declaration :: later := mem_append_left _ hother
  refine ⟨fun hrepeats => ?_, fun hval hfun => ?_, fun ⟨hfun, hval⟩ => ?_⟩
  · by_contra hback
    obtain ⟨first, second, hfst, hsnd, hname, hshape, hbuiltin, hplain⟩ :=
      repeats_one_way hsame hrepeats hback
    exact hamb (.foreign other declaration hotherMem hmem hsame first second hfst hsnd
      hname hshape hbuiltin hplain)
  · obtain ⟨type, htype, htypeSame, htypeKind⟩ :=
      exists_type_of_not_conflicted hconf hotherMem hmem hsame hfun hval
    exact absurd (.typeFunctionValue type other declaration htype hotherMem hmem htypeSame hsame
      htypeKind hfun hval) hamb
  · obtain ⟨type, htype, htypeSame, htypeKind⟩ :=
      exists_type_of_not_conflicted hconf hmem hotherMem hsame.symm hfun hval
    exact hamb (.typeFunctionValue type declaration other htype hmem hotherMem htypeSame
      hsame.symm htypeKind hfun hval)

/-! ## Sorted units -/

/-- The declarations of one path come in the order of a rank. -/
def RankSorted (rank : DeclaredItem → Nat) (decls : List Declaration) : Prop :=
  decls.Pairwise fun first second => SamePath first second → rank first.2 ≤ rank second.2

/-- The units with the items of each sorted by a rank. -/
def sortUnits (rank : DeclaredItem → Nat) (units : List ParsedUnit) : List ParsedUnit :=
  units.map fun unit =>
    { unit with items := unit.items.mergeSort fun first second => rank first ≤ rank second }

theorem reordered_sortUnits (rank : DeclaredItem → Nat) (units : List ParsedUnit) :
    Reordered units (sortUnits rank units) := by
  refine ⟨sortUnits rank units, ?_, List.Perm.refl _⟩
  rw [sortUnits, forall₂_map_right_iff]
  exact forall₂_same.mpr fun unit _ => ⟨rfl, mergeSort_perm _ _⟩

theorem rankSorted_sortUnits (hmodules : DistinctModules units) (rank : DeclaredItem → Nat) :
    RankSorted rank (declarationsOf (sortUnits rank units)) := by
  unfold RankSorted declarationsOf sortUnits
  rw [pairwise_flatMap, pairwise_map]
  constructor
  · intro unit hunit
    obtain ⟨original, _, rfl⟩ := mem_map.mp hunit
    rw [pairwise_map]
    have hsorted : (original.items.mergeSort
        fun first second => decide (rank first ≤ rank second)).Pairwise
        fun first second => decide (rank first ≤ rank second) = true := by
      apply pairwise_mergeSort
      · intro first second third hfst hsnd
        simp only [decide_eq_true_eq] at *
        omega
      · intro first second
        simp only [Bool.or_eq_true, decide_eq_true_eq]
        omega
    refine hsorted.imp ?_
    intro first second hle _
    simpa using hle
  · refine (pairwise_map.mp hmodules).imp ?_
    rintro first second hne declaration hdeclaration other hother hsame
    exfalso
    obtain ⟨item, _, rfl⟩ := mem_map.mp hdeclaration
    obtain ⟨twin, _, rfl⟩ := mem_map.mp hother
    obtain ⟨path, hpath⟩ := Option.ne_none_iff_exists'.mp hsame.2
    obtain ⟨name, hname, _⟩ := path_eq_some.mp hpath
    exact hne (eq_of_path_eq ((samePath_iff hpath).mp hsame) hpath hname).1

/-- Types, then plain functions, then builtin functions, then values. -/
def declarationRank (declared : DeclaredItem) : Nat :=
  match declared.item with
  | .function function => if function.builtin then 2 else 1
  | item => if declarationNamespace item = .type then 0 else 3

theorem declarationRank_type (hkind : declaration.ownNamespace = .type) :
    declarationRank declaration.2 = 0 := by
  unfold ownNamespace at hkind
  unfold declarationRank
  split
  next hitem => rw [hitem] at hkind; contradiction
  · exact if_pos hkind

theorem declarationRank_other (hkind : declaration.ownNamespace = .other) :
    declarationRank declaration.2 = 3 := by
  unfold ownNamespace at hkind
  unfold declarationRank
  split
  next hitem => rw [hitem] at hkind; contradiction
  · exact if_neg (by simp [hkind])

theorem declarationRank_function {function : Function}
    (hitem : declaration.2.item = .function function) :
    declarationRank declaration.2 = if function.builtin then 2 else 1 := by
  rw [declarationRank, hitem]

theorem accepted_of_rankSorted (hconf : ¬ Conflicted units dependencies decls)
    (hsorted : RankSorted declarationRank decls) :
    Accepted units dependencies decls := by
  refine accepted_of_order hconf ?_
  intro earlier declaration later hsplit other hother hsame
  have hrank := pairwise_split hsorted hsplit other hother hsame
  have hmem : declaration ∈ decls := by simp [hsplit]
  have hotherMem : other ∈ decls := hsplit ▸ mem_append_left _ hother
  refine ⟨fun hrepeats => ?_, fun hval hfun => ?_, fun ⟨hfun, hval⟩ => ?_⟩
  · by_contra hback
    obtain ⟨first, second, hfst, hsnd, _, _, hbuiltin, hplain⟩ :=
      repeats_one_way hsame hrepeats hback
    rw [declarationRank_function hfst, declarationRank_function hsnd] at hrank
    simp [hbuiltin, hplain] at hrank
  · obtain ⟨type, htype, htypeSame, htypeKind⟩ :=
      exists_type_of_not_conflicted hconf hotherMem hmem hsame hfun hval
    refine ⟨type, ?_, htypeSame, htypeKind⟩
    rw [hsplit, mem_append, mem_cons] at htype
    rcases htype with htype | rfl | htype
    · exact htype
    · rw [hval] at htypeKind
      contradiction
    · -- a type does not come after a value of its name
      have hle := pairwise_split_later hsorted hsplit type htype htypeSame.symm
      rw [declarationRank_other hval, declarationRank_type htypeKind] at hle
      omega
  · obtain ⟨function, hitem⟩ := ownNamespace_function.mp hfun
    rw [declarationRank_other hval, declarationRank_function hitem] at hrank
    split at hrank <;> omega

/-! ## Orders that are refused -/

/-- Values before everything else. -/
def valueFirstRank (declared : DeclaredItem) : Nat :=
  if declarationNamespace declared.item = .other then 0 else 1

/-- Builtin functions before everything else. -/
def builtinFirstRank (declared : DeclaredItem) : Nat :=
  match declared.item with
  | .function function => if function.builtin then 0 else 1
  | _ => 1

/-- Types after everything else. -/
def typeLastRank (declared : DeclaredItem) : Nat :=
  if declarationNamespace declared.item = .type then 1 else 0

theorem not_accepted_of_valueFirst (hsorted : RankSorted valueFirstRank decls)
    {function value : Declaration} (hfun : function ∈ decls) (hval : value ∈ decls)
    (hsame : SamePath function value) (hfunctionKind : function.ownNamespace = .function)
    (hvalueKind : value.ownNamespace = .other) :
    ¬ Accepted units dependencies decls := by
  intro hacc
  obtain ⟨earlier, later, hsplit⟩ := append_of_mem hval
  obtain ⟨other, hother, hotherSame⟩ := hacc.value_after hsplit hvalueKind hfun hsame hfunctionKind
  have hrank := pairwise_split hsorted hsplit other hother hotherSame
  have hotherKind : other.ownNamespace = .other := by
    by_contra hne
    unfold ownNamespace at hvalueKind hne
    simp [valueFirstRank, hvalueKind, hne] at hrank
  exact (pairwise_split hacc.pairwise hsplit other hother hotherSame).other
    ⟨hotherKind, hvalueKind⟩

theorem not_accepted_of_builtinFirst (hsorted : RankSorted builtinFirstRank decls)
    {builtin plain : Declaration} (hbuiltin : builtin ∈ decls)
    (hplain : plain ∈ decls) (hsame : SamePath builtin plain) {first second : Function}
    (hfst : builtin.2.item = .function first) (hsnd : plain.2.item = .function second)
    (hshape : overloadShape first = overloadShape second) (hfirstBuiltin : first.builtin = true)
    (hsecondPlain : second.builtin = false) : ¬ Accepted units dependencies decls := by
  intro hacc
  obtain ⟨earlier, later, hsplit⟩ := append_of_mem hplain
  have hearlier : builtin ∈ earlier := by
    have hmem := hbuiltin
    rw [hsplit, mem_append, mem_cons] at hmem
    rcases hmem with hmem | rfl | hmem
    · exact hmem
    · cases hfst.symm.trans hsnd
      rw [hfirstBuiltin] at hsecondPlain
      contradiction
    · have hle := pairwise_split_later hsorted hsplit builtin hmem hsame.symm
      simp [builtinFirstRank, hfst, hsnd, hfirstBuiltin, hsecondPlain] at hle
  refine (pairwise_split hacc.pairwise hsplit builtin hearlier hsame).overload ?_
  exact ⟨first, second, hfst, hsnd, hshape, by simp [hsecondPlain]⟩

theorem ownNamespace_of_sortMembers {sort : Declaration} (hmembers : sortMembers sort.2.item ≠ []) :
    sort.ownNamespace = .type := by
  unfold ownNamespace
  cases hitem : sort.2.item with
  | sort defn => rfl
  | _ => simp [hitem, sortMembers] at hmembers

theorem not_isSortMember_of_typeLast (hsorted : RankSorted typeLastRank decls)
    {sort other : Declaration} (hother : other ∈ decls) (hsame : SamePath other sort)
    (hkind : other.ownNamespace ≠ .type) {name member : String}
    (hname : declarationName sort.2.item = some name) {symbol : Symbol} :
    ¬ IsSortMember decls (sort.1.modulePath ++ [name, member]) symbol := by
  rintro ⟨earlier, twin, later, hsplit, hfst, twinName, htwinName, twinMember, htwinMember,
    hpath, _⟩
  have htwinKind : twin.ownNamespace = .type := by
    refine ownNamespace_of_sortMembers fun hnil => ?_
    rw [hnil] at htwinMember
    contradiction
  have hpaths : (sort.1.modulePath ++ [name]) ++ [member] =
      (twin.1.modulePath ++ [twinName]) ++ [twinMember] := by simpa using hpath
  have htwinSame : SamePath other twin := by
    refine hsame.trans ⟨?_, by simp [path_eq htwinName]⟩
    rw [path_eq hname, path_eq htwinName, (append_inj' hpaths rfl).1]
  have hmem := hother
  rw [hsplit, mem_append, mem_cons] at hmem
  rcases hmem with hmem | rfl | hmem
  · exact hfst other hmem htwinSame
  · exact hkind htwinKind
  · have hle := pairwise_split_later hsorted hsplit other hmem htwinSame.symm
    unfold ownNamespace at hkind htwinKind
    simp [typeLastRank, hkind, htwinKind] at hle

/-- A sort that is the only type of its path and comes first adds its members. -/
theorem isSortMember_of_first (hacc : Accepted units dependencies decls)
    {sort : Declaration} (hsort : sort ∈ decls)
    (hfst : ∀ earlier later, decls = earlier ++ sort :: later →
      ∀ other ∈ earlier, SamePath other sort → other.ownNamespace = .type)
    {name member : String} (hname : declarationName sort.2.item = some name)
    (hmember : member ∈ sortMembers sort.2.item) :
    IsSortMember decls (sort.1.modulePath ++ [name, member])
      (memberSymbol sort.1 sort.2.visibility name member) := by
  have hkind : sort.ownNamespace = .type := by
    refine ownNamespace_of_sortMembers fun hnil => ?_
    rw [hnil] at hmember
    contradiction
  obtain ⟨earlier, later, hsplit⟩ := append_of_mem hsort
  refine ⟨earlier, sort, later, hsplit, fun other hother hsame => ?_, name, hname, member, hmember,
    rfl, rfl⟩
  exact (pairwise_split hacc.pairwise hsplit other hother hsame).type
    ⟨hfst earlier later hsplit other hother hsame, hkind⟩

/-! ## Reordered units -/

namespace Reordered

variable {reordered : List ParsedUnit} (hreord : Reordered units reordered)

include hreord

theorem perm : (declarationsOf reordered).Perm (declarationsOf units) := by
  obtain ⟨middle, hforall, hperm⟩ := hreord
  refine (hperm.symm.flatMap_right _).trans ?_
  clear hperm
  induction hforall with
  | nil => exact List.Perm.refl _
  | cons hhead _ ih =>
    refine List.Perm.append ?_ ih
    dsimp only
    rw [hhead.1]
    exact hhead.2.map _

theorem modulePaths :
    (reordered.map (·.header.modulePath)).Perm (units.map (·.header.modulePath)) := by
  obtain ⟨middle, hforall, hperm⟩ := hreord
  refine (hperm.symm.map _).trans ?_
  have heq : middle.map (·.header.modulePath) = units.map (·.header.modulePath) := by
    clear hperm
    induction hforall with
    | nil => rfl
    | cons hhead _ ih => rw [map_cons, map_cons, hhead.1, ih]
  rw [heq]

theorem distinctModules (hmodules : DistinctModules units) : DistinctModules reordered :=
  hreord.modulePaths.nodup_iff.mpr hmodules

theorem isChildModule (modulePath : List String) (name : String) :
    isChildModule reordered modulePath name = Modules.isChildModule units modulePath name := by
  have hmap : ∀ units : List ParsedUnit, Modules.isChildModule units modulePath name =
      (units.map (·.header.modulePath)).any fun path =>
        (modulePath ++ [name]).isPrefixOf path := by
    intro units
    rw [Modules.isChildModule, any_map]
    rfl
  rw [hmap, hmap, Bool.eq_iff_iff, any_eq_true, any_eq_true]
  simp only [hreord.modulePaths.mem_iff]

theorem conflicted : Conflicted reordered dependencies (declarationsOf reordered) ↔
    Conflicted units dependencies (declarationsOf units) := by
  have htaken : ∀ declaration : Declaration,
      declaration.NameTaken reordered dependencies ↔ declaration.NameTaken units dependencies := by
    intro declaration
    simp only [NameTaken, hreord.isChildModule]
  have hsymm : ∀ {first second : Declaration}, ¬ Clash first second → ¬ Clash second first :=
    fun hclash hback => hclash hback.symm
  have hmem := fun declaration : Declaration => hreord.perm.mem_iff (a := declaration)
  have hpairwise : (declarationsOf reordered).Pairwise (fun first second => ¬ Clash first second) ↔
      (declarationsOf units).Pairwise (fun first second => ¬ Clash first second) :=
    hreord.perm.pairwise_iff hsymm
  constructor
  · rintro (⟨declaration, hdeclaration, hname⟩ | hclash |
      ⟨function, value, hfun, hval, hsame, hfunctionKind, hvalueKind, huntyped⟩)
    · exact .nameTaken declaration ((hmem _).mp hdeclaration) ((htaken _).mp hname)
    · exact .clash (hclash ∘ hpairwise.mpr)
    · exact .untypedValue function value ((hmem _).mp hfun) ((hmem _).mp hval) hsame
        hfunctionKind hvalueKind fun type htype => huntyped type ((hmem _).mpr htype)
  · rintro (⟨declaration, hdeclaration, hname⟩ | hclash |
      ⟨function, value, hfun, hval, hsame, hfunctionKind, hvalueKind, huntyped⟩)
    · exact .nameTaken declaration ((hmem _).mpr hdeclaration) ((htaken _).mpr hname)
    · exact .clash (hclash ∘ hpairwise.mp)
    · exact .untypedValue function value ((hmem _).mpr hfun) ((hmem _).mpr hval) hsame
        hfunctionKind hvalueKind fun type htype => huntyped type ((hmem _).mp htype)

end Reordered

theorem Ambiguous.perm {other : List Declaration} (hperm : other.Perm decls)
    (hamb : Ambiguous other) : Ambiguous decls := by
  have hmem := fun declaration : Declaration => hperm.mem_iff (a := declaration)
  cases hamb with
  | typeFunctionValue type function value htype hfun hval hsame hfunctionSame htypeKind
      hfunctionKind hvalueKind =>
      exact .typeFunctionValue type function value ((hmem _).mp htype) ((hmem _).mp hfun)
        ((hmem _).mp hval) hsame hfunctionSame htypeKind hfunctionKind hvalueKind
  | foreign builtin plain hbuiltin hplain hsame first second hfst hsnd hname hshape
      hfirstBuiltin hsecondPlain =>
      exact .foreign builtin plain ((hmem _).mp hbuiltin) ((hmem _).mp hplain) hsame first second
        hfst hsnd hname hshape hfirstBuiltin hsecondPlain
  | sortMembers sort value hsort hval hsame hmembers hkind =>
    exact .sortMembers sort value ((hmem _).mp hsort) ((hmem _).mp hval) hsame hmembers hkind

/-! ## Order independence -/

theorem isSortMember_iff_of_not_ambiguous (hacc : Accepted units dependencies decls)
    (hamb : ¬ Ambiguous decls) {path : List String} {symbol : Symbol} :
    IsSortMember decls path symbol ↔
      ∃ declaration ∈ decls, ∃ name, declarationName declaration.2.item = some name ∧
        ∃ member ∈ sortMembers declaration.2.item,
          path = declaration.1.modulePath ++ [name, member] ∧
            symbol = memberSymbol declaration.1 declaration.2.visibility name member := by
  constructor
  · rintro ⟨earlier, sort, later, rfl, _, hmember⟩
    exact ⟨sort, by simp, hmember⟩
  · rintro ⟨sort, hsort, name, hname, member, hmember, rfl, rfl⟩
    refine isSortMember_of_first hacc hsort ?_ hname hmember
    intro earlier later hsplit other hother hsame
    by_contra hkind
    exact hamb (.sortMembers sort other hsort (hsplit ▸ mem_append_left _ hother) hsame
      (ne_nil_of_mem hmember) hkind)

theorem symbols_eq_of_not_ambiguous (hmodules : DistinctModules units)
    {reordered : List ParsedUnit} (hreord : Reordered units reordered)
    (hacc : Accepted units dependencies (declarationsOf units))
    (htwin : Accepted reordered dependencies (declarationsOf reordered))
    (hamb : ¬ Ambiguous (declarationsOf units)) :
    (collectSymbols reordered dependencies).symbols = (collectSymbols units dependencies).symbols := by
  have hperm := hreord.perm
  have hcoll := collected_of_accepted hmodules hacc
  have hcoll' := collected_of_accepted (hreord.distinctModules hmodules) htwin
  have hamb' : ¬ Ambiguous (declarationsOf reordered) := fun h => hamb (h.perm hperm)
  funext path
  refine Option.ext fun symbol => ?_
  rw [hcoll.symbols, hcoll'.symbols, isSortMember_iff_of_not_ambiguous hacc hamb,
    isSortMember_iff_of_not_ambiguous htwin hamb']
  simp only [IsDeclared, hperm.mem_iff]

/-- An ambiguity that no conflict hides shows in two orders of the same declarations. -/
theorem not_orderIndependent_of_ambiguous (hmodules : DistinctModules units)
    (hconf : ¬ Conflicted units dependencies (declarationsOf units))
    (hamb : Ambiguous (declarationsOf units)) :
    ¬ OrderIndependent units dependencies := by
  intro hindep
  have hsorted := fun rank => reordered_sortUnits rank units
  have hdist := fun rank => (hsorted rank).distinctModules hmodules
  have hmem := fun rank declaration => (hsorted rank).perm.mem_iff (a := declaration)
  have hbest : Accepted (sortUnits declarationRank units) dependencies
      (declarationsOf (sortUnits declarationRank units)) := by
    refine accepted_of_rankSorted ?_ (rankSorted_sortUnits hmodules _)
    exact fun h => hconf ((hsorted _).conflicted.mp h)
  have hclean := ((hindep _ (hsorted declarationRank)).1).mp
    ((collectSymbols_clean_iff (hdist _)).mpr hbest)
  have hacc := fun rank => (collectSymbols_clean_iff (hdist rank)).mp
    ((hindep _ (hsorted rank)).1.mpr hclean)
  cases hamb with
  | typeFunctionValue type function value htype hfun hval hsame hfunctionSame htypeKind
      hfunctionKind hvalueKind =>
      exact not_accepted_of_valueFirst (rankSorted_sortUnits hmodules _) ((hmem _ _).mpr hfun)
        ((hmem _ _).mpr hval) hfunctionSame hfunctionKind hvalueKind (hacc valueFirstRank)
  | foreign builtin plain hbuiltin hplain hsame first second hfst hsnd hname hshape
      hfirstBuiltin hsecondPlain =>
      exact not_accepted_of_builtinFirst (rankSorted_sortUnits hmodules _) ((hmem _ _).mpr hbuiltin)
        ((hmem _ _).mpr hplain) hsame hfst hsnd hshape hfirstBuiltin hsecondPlain
        (hacc builtinFirstRank)
  | sortMembers sort other hsort hother hsame hmembers hkind =>
    obtain ⟨member, hmember⟩ := exists_mem_of_ne_nil _ hmembers
    obtain ⟨path, hpath⟩ := Option.ne_none_iff_exists'.mp hsame.2
    obtain ⟨name, hname, _⟩ := path_eq_some.mp hpath
    have htables : (collectSymbols (sortUnits declarationRank units) dependencies).symbols =
        (collectSymbols (sortUnits typeLastRank units) dependencies).symbols := by
      rw [(hindep _ (hsorted declarationRank)).2 hclean, (hindep _ (hsorted typeLastRank)).2 hclean]
    have hfst := collected_of_accepted (hdist _) (hacc declarationRank)
    have hlast := collected_of_accepted (hdist _) (hacc typeLastRank)
    have hsome := (hfst.symbols (sort.1.modulePath ++ [name, member])
      (memberSymbol sort.1 sort.2.visibility name member)).mpr (.inr ?_)
    · rw [htables, hlast.symbols] at hsome
      rcases hsome with ⟨declared, hdecl, otherName, hotherName, heq, _⟩ | hmember
      · obtain ⟨unit, hunit, hheader⟩ :=
          (fromUnits_declarationsOf (hdist typeLastRank)).unit declared hdecl
        have hchild := hlast.childless sort ((hmem _ _).mpr hsort) name hname
        rw [isChildModule_of_split hunit (hheader ▸ heq.symm)] at hchild
        contradiction
      · exact not_isSortMember_of_typeLast (rankSorted_sortUnits hmodules _)
          ((hmem _ _).mpr hother) hsame hkind hname hmember
    · refine isSortMember_of_first (hacc declarationRank) ((hmem _ _).mpr hsort) ?_ hname
        hmember
      intro earlier later hsplit twin htwin htwinSame
      have hrank := pairwise_split (rankSorted_sortUnits hmodules declarationRank) hsplit twin
        htwin htwinSame
      rw [declarationRank_type (ownNamespace_of_sortMembers hmembers)] at hrank
      cases hkind : twin.ownNamespace with
      | type => rfl
      | function =>
        obtain ⟨function, hitem⟩ := ownNamespace_function.mp hkind
        rw [declarationRank_function hitem] at hrank
        split at hrank <;> omega
      | other =>
        rw [declarationRank_other hkind] at hrank
        omega

/-- Collection is independent of the listing order exactly when the declarations are refused
in every order or none of the three ambiguous groups occurs. -/
theorem orderIndependent_iff (units : List ParsedUnit) (dependencies : DependencyTable)
    (hmodules : DistinctModules units) :
    OrderIndependent units dependencies ↔ Conflicted units dependencies (declarationsOf units) ∨
        ¬ Ambiguous (declarationsOf units) := by
  constructor
  · intro hindep
    by_contra hnot
    obtain ⟨hconf, hamb⟩ := not_or.mp hnot
    exact not_orderIndependent_of_ambiguous hmodules hconf (not_not.mp hamb) hindep
  · intro hcond reordered hreord
    have hmodules' := hreord.distinctModules hmodules
    rw [collectSymbols_clean_iff hmodules, collectSymbols_clean_iff hmodules']
    by_cases hconf : Conflicted units dependencies (declarationsOf units)
    · have hrefused : ¬ Accepted units dependencies (declarationsOf units) :=
        fun h => h.not_conflicted hconf
      have hrefused' : ¬ Accepted reordered dependencies (declarationsOf reordered) :=
        fun h => h.not_conflicted (hreord.conflicted.mpr hconf)
      exact ⟨iff_of_false hrefused' hrefused, fun h => absurd h hrefused⟩
    · have hamb := hcond.resolve_left hconf
      have hacc := accepted_of_not_ambiguous hconf hamb
      have hacc' : Accepted reordered dependencies (declarationsOf reordered) :=
        accepted_of_not_ambiguous (fun h => hconf (hreord.conflicted.mp h))
          fun h => hamb (h.perm hreord.perm)
      refine ⟨iff_of_true hacc' hacc, fun _ => ?_⟩
      exact symbols_eq_of_not_ambiguous hmodules hreord hacc hacc' hamb

namespace SharedName

def origin : ItemOrigin := ⟨0, [], none⟩

def type : DeclaredItem := ⟨.struct ⟨"shared", [], []⟩, .pub, origin⟩

def function : DeclaredItem := ⟨.function ⟨"shared", false, [], [], none, .pure, [], none⟩, .pub, origin⟩

def value : DeclaredItem := ⟨.global ⟨false, "shared", none, .unit⟩, .pub, origin⟩

def unitOf (items : List DeclaredItem) : ParsedUnit := ⟨⟨"main.sc", [], []⟩, items⟩

def noDependencies : DependencyTable := fun _ => none

theorem distinctModules_unitOf (items : List DeclaredItem) : DistinctModules [unitOf items] :=
  nodup_singleton _

/-- A type and a function may share a name in either order. -/
theorem orderIndependent_pair : OrderIndependent [unitOf [type, function]] noDependencies := by
  refine (orderIndependent_iff _ _ (distinctModules_unitOf _)).mpr (.inr ?_)
  have hmem : ∀ declaration ∈ declarationsOf [unitOf [type, function]],
      declaration.2 = type ∨ declaration.2 = function := by
    intro declaration hdeclaration
    obtain ⟨unit, hunit, hitem⟩ := mem_flatMap.mp hdeclaration
    obtain rfl := mem_singleton.mp hunit
    obtain ⟨item, hmem, rfl⟩ := mem_map.mp hitem
    simpa [unitOf] using hmem
  rintro (⟨_, _, value, _, _, hval, _, _, _, _, hkind⟩ |
    ⟨builtin, _, hbuiltin, _, _, first, _, hfst, _, _, _, hflag, _⟩ |
    ⟨sort, _, hsort, _, _, hmembers, _⟩)
  · rcases hmem value hval with h | h <;> simp [ownNamespace, h, type, function,
      declarationNamespace] at hkind
  · rcases hmem builtin hbuiltin with h | h
    · simp [h, type] at hfst
    · rw [h, function, Item.function.injEq] at hfst
      simp [← hfst] at hflag
  · rcases hmem sort hsort with h | h <;> simp [h, type, function, sortMembers] at hmembers

/-- With a value as well, it must come after the type and the function. -/
theorem not_orderIndependent_triple :
    ¬ OrderIndependent [unitOf [type, function, value]] noDependencies := by
  intro hindep
  have hreord : Reordered [unitOf [type, function, value]]
      [unitOf [type, value, function]] := by
    refine ⟨[unitOf [type, value, function]], ?_, List.Perm.refl _⟩
    exact List.Forall₂.cons ⟨rfl, List.Perm.cons _ (List.Perm.swap _ _ _)⟩ List.Forall₂.nil
  have hclean : (collectSymbols [unitOf [type, function, value]] noDependencies).diagnostics = [] :=
    rfl
  have hdirty : (collectSymbols [unitOf [type, value, function]] noDependencies).diagnostics ≠ [] :=
    cons_ne_nil _ _
  exact hdirty ((hindep _ hreord).1.mpr hclean)

end SharedName

end Salicin.Modules
