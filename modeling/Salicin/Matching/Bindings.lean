import Salicin.Codegen.DropGlue
import Salicin.Matching.Patterns
import Salicin.Planning.MovePaths

/-!
# What the bindings of a pattern name

A name of a pattern stands for a part of the scrutinee. A pattern that is lowered without a
diagnostic binds its names to the paths of these parts, and no part of them is part of another.
-/

namespace Salicin.Matching

open List Codegen Source Planning
open Cleanup (Projection)

/-- The pattern that a constructor pattern has for a field. -/
def fieldPattern? (patterns : PatternFields) (fields : List FieldLayout) (index : Nat) :
    Option Pattern :=
  match patterns with
  | .unit => none
  | .positional patterns => patterns[index]?
  | .named patterns => fields[index]?.bind fun field =>
    (patterns.find? fun pat => pat.name = field.name).map (·.pattern)

/-- The name stands for the part behind the projections, which has the type. The name of a literal
is the one that its comparison uses. -/
inductive Selects (layouts : Layouts) : Pattern → Ty → String → List Projection → Ty → Prop
  | binding (name : String) (ty : Ty) : Selects layouts (.binding name) ty name [] ty
  | integer (value : IntegerPattern) (ty : Ty) (number : Nat) :
      Selects layouts (.integer value) ty s!"$match$literal${number}" [] ty
  | bool (value : Bool) (ty : Ty) (number : Nat) :
      Selects layouts (.bool value) ty s!"$match$literal${number}" [] ty
  | tuple {patterns : List Pattern} {fields : List Ty} {index : Nat} {pat : Pattern}
      {field part : Ty} {name : String} {rest : List Projection}
      (hpat : patterns[index]? = some pat) (hfield : fields[index]? = some field)
      (hrest : Selects layouts pat field name rest part) :
      Selects layouts (.tuple patterns) (.tuple fields) name (.tupleIndex index :: rest) part
  | struct {path : List String} {patterns : PatternFields} {structName name : String}
      {layout : StructLayout} {index : Nat} {pat : Pattern} {field : FieldLayout} {part : Ty}
      {rest : List Projection} (hlayout : layouts.structLayout structName = some layout)
      (hpat : fieldPattern? patterns layout.fields index = some pat)
      (hfield : layout.fields[index]? = some field)
      (hrest : Selects layouts pat field.ty name rest part) :
      Selects layouts (.constructor path patterns) (.struct structName) name
        (.field index :: rest) part
  | variant {path : List String} {patterns : PatternFields} {enumName name : String}
      {layout : EnumLayout} {variant : VariantLayout} {position index : Nat} {pat : Pattern}
      {field : FieldLayout} {part : Ty} {rest : List Projection}
      (hlayout : layouts.enumLayout enumName = some layout)
      (hvar : layout.variants[position]? = some variant)
      (hnamed : path.getLast? = some variant.name)
      (hpat : fieldPattern? patterns variant.fields index = some pat)
      (hfield : variant.fields[index]? = some field)
      (hrest : Selects layouts pat field.ty name rest part) :
      Selects layouts (.constructor path patterns) (.enum enumName) name
        (.downcast position :: .field index :: rest) part

/-- The projections of a path through tuples and structs, and the type that it leads to. -/
inductive Walks (layouts : Layouts) : Ty → List Nat → List Projection → Ty → Prop
  | self (ty : Ty) : Walks layouts ty [] [] ty
  | tuple {fields : List Ty} {index : Nat} {field part : Ty} {path : List Nat}
      {rest : List Projection} (hfield : fields[index]? = some field)
      (hrest : Walks layouts field path rest part) :
      Walks layouts (.tuple fields) (index :: path) (.tupleIndex index :: rest) part
  | struct {name : String} {layout : StructLayout} {index : Nat} {field : FieldLayout} {part : Ty}
      {path : List Nat} {rest : List Projection}
      (hlayout : layouts.structLayout name = some layout)
      (hfield : layout.fields[index]? = some field)
      (hrest : Walks layouts field.ty path rest part) :
      Walks layouts (.struct name) (index :: path) (.field index :: rest) part

variable {path : List Nat}

theorem Walks.reaches {layouts : Layouts} {ty part : Ty} {projs : List Projection}
    (hwalks : Walks layouts ty path projs part) :
    Reaches layouts ty projs part := by
  induction hwalks with
  | self ty => exact .self ty
  | tuple hfield _ ih => exact .tuple hfield ih
  | struct hlayout hfield _ ih => exact .struct hlayout hfield ih

theorem Walks.typeAt {layouts : Layouts} {ty part : Ty} {projs : List Projection}
    (hwalks : Walks layouts ty path projs part) :
    layouts.typeAt ty path = some part := by
  induction hwalks with
  | self ty => rfl
  | tuple hfield _ ih => simp [Layouts.typeAt, Layouts.project, hfield, ih]
  | struct hlayout hfield _ ih => simp [Layouts.typeAt, Layouts.project, hlayout, hfield, ih]

/-! ## States of the lowering -/

/-- Neither of two parts holds the other. -/
def Apart (first second : HirPatternBinding) : Prop :=
  ¬ first.path <+: second.path ∧ ¬ second.path <+: first.path

/-- The lowering goes on from a state to another one. If nothing is reported, it adds bindings of
the kind, to parts that are apart. -/
structure Adds (added : HirPatternBinding → Prop) (before after : PatternLowering) : Prop where
  diagnostics : before.diagnostics <+: after.diagnostics
  bindings : after.diagnostics = [] → ∃ new, after.bindings = before.bindings ++ new ∧
    (∀ binding ∈ new, added binding) ∧ new.Pairwise Apart

namespace Adds

variable {added other : HirPatternBinding → Prop} {first second third : PatternLowering}

theorem refl (added : HirPatternBinding → Prop) (state : PatternLowering) :
    Adds added state state where
  diagnostics := prefix_rfl
  bindings _ := ⟨[], by simp⟩

theorem nil_of_nil (hadds : Adds added first second) (hclean : second.diagnostics = []) :
    first.diagnostics = [] := by
  have hprefix := hadds.diagnostics
  rw [hclean] at hprefix
  exact prefix_nil.mp hprefix

theorem trans (hfst : Adds added first second) (hsnd : Adds other second third)
    (hapart : ∀ left right, added left → other right → Apart left right) :
    Adds (fun binding => added binding ∨ other binding) first third where
  diagnostics := hfst.diagnostics.trans hsnd.diagnostics
  bindings := by
    intro hclean
    obtain ⟨later, hlater, hothers, hpairs⟩ := hsnd.bindings hclean
    obtain ⟨new, hnew, hadded, hpair⟩ := hfst.bindings (hsnd.nil_of_nil hclean)
    refine ⟨new ++ later, by rw [hlater, hnew, append_assoc], ?_, ?_⟩
    · intro binding hbind
      rcases mem_append.mp hbind with hleft | hright
      · exact .inl (hadded binding hleft)
      · exact .inr (hothers binding hright)
    · refine pairwise_append.mpr ⟨hpair, hpairs, ?_⟩
      intro left hleft right hright
      exact hapart left right (hadded left hleft) (hothers right hright)

theorem mono (hadds : Adds added first second)
    (himplies : ∀ binding, added binding → other binding) : Adds other first second where
  diagnostics := hadds.diagnostics
  bindings := by
    intro hclean
    obtain ⟨new, hnew, hadded, hpair⟩ := hadds.bindings hclean
    exact ⟨new, hnew, fun binding hbind => himplies binding (hadded binding hbind), hpair⟩

theorem of_reported (hdiags : first.diagnostics <+: second.diagnostics)
    (hreported : second.diagnostics ≠ []) : Adds added first second where
  diagnostics := hdiags
  bindings hclean := absurd hclean hreported

theorem report (state : PatternLowering) (msg : String) : Adds added state (state.report msg) :=
  .of_reported (prefix_append _ _) (by simp [PatternLowering.report])

theorem reportAll (state : PatternLowering) (msgs : List String) :
    Adds added state (state.reportAll msgs) where
  diagnostics := prefix_append _ _
  bindings _ := ⟨[], by simp [PatternLowering.reportAll]⟩

theorem require (state : PatternLowering) (cond : Prop) [Decidable cond]
    (msg : String) : Adds added state (state.require cond msg) := by
  unfold PatternLowering.require
  split
  · exact .refl _ _
  · exact .report _ _

theorem after (hfst : Adds (fun _ => False) first second) (hsnd : Adds added second third) :
    Adds added first third :=
  (hfst.trans hsnd fun _ _ hleft => hleft.elim).mono fun _ hadded => hadded.resolve_left id

/-- A loop over entries that add bindings which are apart from those of the other entries. -/
theorem foldl {Entry : Type} {step : PatternLowering → Entry → PatternLowering}
    (added : Entry → HirPatternBinding → Prop) {entries : List Entry}
    (hstep : ∀ entry ∈ entries, ∀ state, Adds (added entry) state (step state entry))
    (hapart : entries.Pairwise fun first second =>
      ∀ left right, added first left → added second right → Apart left right)
    (state : PatternLowering) :
    Adds (fun binding => ∃ entry ∈ entries, added entry binding) state
      (entries.foldl step state) := by
  induction entries generalizing state with
  | nil => exact .refl _ _
  | cons entry rest ih =>
    obtain ⟨hfst, hrest⟩ := pairwise_cons.mp hapart
    have hlater := ih (fun other hother => hstep other (mem_cons_of_mem _ hother)) hrest
      (step state entry)
    refine ((hstep entry mem_cons_self state).trans hlater ?_).mono ?_
    · rintro left right hleft ⟨other, hother, hright⟩
      exact hfst other hother left right hleft hright
    · rintro binding (hadded | ⟨other, hother, hadded⟩)
      · exact ⟨entry, mem_cons_self, hadded⟩
      · exact ⟨other, mem_cons_of_mem _ hother, hadded⟩

end Adds

/-! ## Fields of constructors -/

theorem normalizeNamedFields_entries (fields : List FieldLayout) (desc : String)
    (pats : List PatternField) (seen : List Nat) :
    (∀ entry ∈ (normalizeNamedFields fields desc pats seen).1, entry.1 ∉ seen ∧
      ∃ field, fields[entry.1]? = some field ∧
        (fields.findIdx? fun other => other.name = field.name) = some entry.1 ∧
        (pats.find? fun pat => pat.name = field.name).map (·.pattern) = some entry.2) ∧
    (normalizeNamedFields fields desc pats seen).1.Pairwise
      fun first second => first.1 ≠ second.1 := by
  induction pats generalizing seen with
  | nil => simp [normalizeNamedFields]
  | cons pat rest ih =>
    obtain ⟨name, pat⟩ := pat
    -- A field that is found later has another name, so it is not the first pattern that it has.
    have hlater {index : Nat} {field : FieldLayout} (hfound : fields.findIdx?
        (fun other => other.name = field.name) = some index)
        (hname : (fields.findIdx? fun other => other.name = name) ≠ some index) :
        ((⟨name, pat⟩ :: rest : List PatternField).find?
          fun pat => pat.name = field.name) =
          rest.find? fun pat => pat.name = field.name := by
      apply List.find?_cons_of_neg
      rintro hsame
      rw [← of_decide_eq_true hsame] at hfound
      exact hname hfound
    rw [normalizeNamedFields]
    split
    next hnone =>
      obtain ⟨hentries, hpairs⟩ := ih seen
      refine ⟨?_, hpairs⟩
      intro entry hentry
      obtain ⟨hseen, field, hfield, hfound, hpat⟩ := hentries entry hentry
      refine ⟨hseen, field, hfield, hfound, ?_⟩
      rw [hlater hfound (by simp [hnone]), hpat]
    next index hidx =>
      split
      next hmem =>
        obtain ⟨hentries, hpairs⟩ := ih seen
        refine ⟨?_, hpairs⟩
        intro entry hentry
        obtain ⟨hseen, field, hfield, hfound, hpat⟩ := hentries entry hentry
        refine ⟨hseen, field, hfield, hfound, ?_⟩
        rw [hlater hfound ?_, hpat]
        rw [hidx]
        rintro hsame
        exact hseen (Option.some.inj hsame ▸ hmem)
      next hmem =>
        obtain ⟨hentries, hpairs⟩ := ih (index :: seen)
        constructor
        · intro entry hentry
          rcases mem_cons.mp hentry with rfl | hentry
          · obtain ⟨hlt, hname, _⟩ := findIdx?_eq_some_iff_getElem.mp hidx
            have hname := of_decide_eq_true hname
            refine ⟨hmem, fields[index], getElem?_eq_getElem hlt, ?_, ?_⟩
            · rw [hname]
              exact hidx
            · rw [List.find?_cons_of_pos (by simpa using hname.symm)]
              rfl
          · obtain ⟨hseen, field, hfield, hfound, hpat⟩ := hentries entry hentry
            obtain ⟨hother, hseen⟩ := not_or.mp (fun h => hseen (mem_cons.mpr h))
            refine ⟨hseen, field, hfield, hfound, ?_⟩
            rw [hlater hfound ?_, hpat]
            rw [hidx]
            exact fun hsame => hother (Option.some.inj hsame).symm
        · refine pairwise_cons.mpr ⟨?_, hpairs⟩
          intro entry hentry hsame
          exact (hentries entry hentry).1 (hsame ▸ mem_cons_self)

/-- The lowering gives each field its pattern, and no field has two. -/
theorem normalizePatternFields_entries (pats : PatternFields) (fields : List FieldLayout)
    (named : Bool) (desc : String) :
    (∀ entry ∈ (normalizePatternFields pats fields named desc).1,
      fieldPattern? pats fields entry.1 = some entry.2) ∧
    (normalizePatternFields pats fields named desc).1.Pairwise
      fun first second => first.1 ≠ second.1 := by
  cases pats with
  | unit => simp [normalizePatternFields]
  | positional pats =>
    constructor
    · intro entry hentry
      obtain ⟨⟨pat, index⟩, hmem, rfl⟩ := mem_map.mp hentry
      exact mem_zipIdx_iff_getElem?.mp hmem
    · refine pairwise_map.mpr ?_
      have hpairs := zipIdx_filter_pairwise_snd_ne pats fun _ => true
      rwa [filter_true] at hpairs
  | named pats =>
    cases named with
    | false => simp [normalizePatternFields]
    | true =>
      obtain ⟨hentries, hpairs⟩ := normalizeNamedFields_entries fields
        desc pats []
      refine ⟨?_, hpairs⟩
      intro entry hentry
      obtain ⟨_, field, hfield, _, hpat⟩ := hentries entry hentry
      rw [fieldPattern?, hfield, Option.bind_some, hpat]

/-! ## Lowering a pattern -/

variable {nominals : Nominals}

/-- The binding is for a part of the value at the path. A part that is moved does not lie inside a
value with a destructor of its own. -/
def Placed (nominals : Nominals) (pat : Pattern) (ty : Ty) (path : List Nat)
    (binding : HirPatternBinding) : Prop :=
  ∃ rest projs, binding.path = path ++ rest ∧ Walks nominals.layouts ty rest projs binding.ty ∧
    Selects nominals.layouts pat ty binding.name projs binding.ty ∧
    binding.moves = !nominals.isCopyType binding.ty ∧
    (binding.moves = true → crossesCustomDrop nominals.layouts ty rest = false)

variable {pat : Pattern} {binding : HirPatternBinding}

theorem Placed.isPrefix {ty : Ty} (hplaced : Placed nominals pat ty path binding) :
    path <+: binding.path := by
  obtain ⟨rest, _, hpath, _⟩ := hplaced
  exact ⟨rest, hpath.symm⟩

theorem apart_of_ne {i j : Nat} (hne : i ≠ j) {first second : HirPatternBinding}
    (hfst : path ++ [i] <+: first.path) (hsnd : path ++ [j] <+: second.path) :
    Apart first second := by
  constructor
  · intro hprefix
    exact hne (child_eq_of_isPrefix (hfst.trans hprefix) hsnd)
  · intro hprefix
    exact hne (child_eq_of_isPrefix hfst (hsnd.trans hprefix))

/-- A loop over entries that add bindings behind indices of their own. -/
theorem Adds.foldl_indexed {Entry : Type} {step : PatternLowering → Entry → PatternLowering}
    {entries : List Entry} (path : List Nat) (index : Entry → Nat)
    (added : HirPatternBinding → Prop)
    (hstep : ∀ entry ∈ entries, ∀ state, Adds (fun binding =>
      path ++ [index entry] <+: binding.path ∧ added binding) state (step state entry))
    (hpairs : entries.Pairwise fun first second => index first ≠ index second)
    (state : PatternLowering) : Adds added state (entries.foldl step state) := by
  refine (Adds.foldl _ hstep (hpairs.imp ?_) state).mono ?_
  · intro first second hne left right hleft hright
    exact apart_of_ne hne hleft.1 hright.1
  · rintro binding ⟨_, _, _, hadded⟩
    exact hadded

/-- The name is bound to the whole value at the path. -/
def Whole (nominals : Nominals) (name : String) (ty : Ty) (path : List Nat)
    (binding : HirPatternBinding) : Prop :=
  binding.name = name ∧ binding.ty = ty ∧ binding.path = path ∧
    binding.moves = !nominals.isCopyType ty

theorem bindPattern_adds (name : String) (ty : Ty) (path : List Nat) (state : PatternLowering) :
    Adds (Whole nominals name ty path) state (bindPattern nominals name ty path state) := by
  unfold bindPattern
  split
  · exact .report _ _
  · refine ⟨prefix_rfl, fun _ => ⟨[_], rfl, ?_, pairwise_singleton _ _⟩⟩
    intro binding hbind
    rw [mem_singleton.mp hbind]
    exact ⟨rfl, rfl, rfl, rfl⟩

theorem Whole.placed {name : String} {ty : Ty} (hwhole : Whole nominals name ty path binding)
    (hselects : Selects nominals.layouts pat ty name [] ty) :
    Placed nominals pat ty path binding := by
  obtain ⟨rfl, rfl, hpath, hmoves⟩ := hwhole
  exact ⟨[], [], by rw [hpath, append_nil], .self _, hselects, hmoves, fun _ => rfl⟩

theorem lowerLiteral_adds (literal : Expr) (ty : Ty) (path : List Nat) (state : PatternLowering)
    (hselects : ∀ num : Nat, Selects nominals.layouts pat ty s!"$match$literal${num}" [] ty) :
    Adds (Placed nominals pat ty path) state (lowerLiteral nominals literal ty path state) := by
  have hbound : Adds (Placed nominals pat ty path) state (bindPattern nominals
      s!"$match$literal${state.bindings.length}" ty path state) :=
    (bindPattern_adds _ ty path state).mono fun _ hwhole => hwhole.placed (hselects _)
  exact ⟨hbound.diagnostics, hbound.bindings⟩

/-- What `lower_irrefutable_pattern` adds for a pattern. -/
def LowersPattern (nominals : Nominals) (pat : Pattern) : Prop :=
  ∀ ty path state, Adds (Placed nominals pat ty path) state
    (lowerIrrefutablePattern nominals pat ty path state)

theorem lowersPattern_tuple {pats : List Pattern} (ih : ∀ pat ∈ pats, LowersPattern nominals pat) :
    LowersPattern nominals (.tuple pats) := by
  intro ty path state
  cases ty with
  | tuple fields =>
    rw [lowerIrrefutablePattern]
    -- A comp adds the bindings of its pattern, behind its index.
    refine .after (.require _ _ _) (.foldl_indexed path (fun entry => entry.1.2) _ ?_ ?_ _)
    · intro entry _ state
      have hpat := mem_zipIdx_iff_getElem?.mp entry.2
      split
      next field hfield =>
        refine (ih entry.1.1 (mem_of_getElem? hpat) field _ state).mono ?_
        intro binding hplaced
        refine ⟨hplaced.isPrefix, ?_⟩
        obtain ⟨rest, projs, hpath, hwalks, hselects, hmoves, hcross⟩ := hplaced
        refine ⟨entry.1.2 :: rest, .tupleIndex entry.1.2 :: projs, ?_,
          .tuple hfield hwalks, .tuple hpat hfield hselects, hmoves, ?_⟩
        · rw [hpath, append_assoc, singleton_append]
        · intro hmoved
          simp only [crossesCustomDrop, nominals.tuples, Layouts.project, hfield, hcross hmoved,
            Bool.or_self]
      next => exact .refl _ _
    · have hpairs := zipIdx_filter_pairwise_snd_ne pats fun _ => true
      rw [filter_true] at hpairs
      rw [← attach_map_subtype_val pats.zipIdx] at hpairs
      exact (pairwise_map.mp hpairs).imp id
  | _ =>
    rw [lowerIrrefutablePattern]
    · exact .report _ _
    · simp

/-- Nothing is moved out of a value with a destructor of its own. -/
theorem Adds.guarded {added : HirPatternBinding → Prop} {before after : PatternLowering}
    {cond : Prop} [Decidable cond] {msg : String} (hadds : Adds added before after) :
    Adds (fun binding => added binding ∧ (cond → binding.moves = false)) before
      (if cond ∧ (after.bindings.drop before.bindings.length).any (·.moves) then
        after.report msg else after) := by
  split
  next =>
    refine .of_reported (hadds.diagnostics.trans (prefix_append _ _)) ?_
    simp [PatternLowering.report]
  next hallowed =>
    refine ⟨hadds.diagnostics, fun hclean => ?_⟩
    obtain ⟨new, hnew, hadded, hpair⟩ := hadds.bindings hclean
    refine ⟨new, hnew, ?_, hpair⟩
    intro binding hbind
    refine ⟨hadded binding hbind, fun hcond => ?_⟩
    rw [hnew, drop_left] at hallowed
    by_contra hmoves
    exact hallowed ⟨hcond, any_eq_true.mpr ⟨binding, hbind, by simpa using hmoves⟩⟩

theorem lowersPattern_constructor {constructor : List String} {fields : PatternFields}
    (ih : ∀ pat ∈ fieldPatterns fields, LowersPattern nominals pat) :
    LowersPattern nominals (.constructor constructor fields) := by
  intro ty path state
  cases ty with
  | struct structName =>
    rw [lowerIrrefutablePattern]
    dsimp only
    split
    · exact .report _ _
    split
    · exact .report _ _
    next layout hlayout =>
      obtain ⟨hentries, hpairs⟩ := normalizePatternFields_entries fields layout.fields true
        s!"pattern `{structName}`"
      -- A field adds the bindings of its pattern, behind its index.
      refine .after (.reportAll _ _) (((Adds.foldl_indexed path (fun entry => entry.1.1)
        (fun binding => ∃ index inner field rest projs,
          layout.fields[index]? = some field ∧ (index, inner) ∈ (normalizePatternFields fields
            layout.fields true s!"pattern `{structName}`").1 ∧
          binding.path = path ++ index :: rest ∧
          Walks nominals.layouts field.ty rest projs binding.ty ∧
          Selects nominals.layouts inner field.ty binding.name projs binding.ty ∧
          binding.moves = !nominals.isCopyType binding.ty ∧
          (binding.moves = true → crossesCustomDrop nominals.layouts field.ty rest = false))
        ?_ ?_ _).guarded).mono ?_)
      · intro entry _ state
        split
        next field hfield =>
          refine (ih entry.1.2 (mem_of_normalizePatternFields entry.2) field.ty _ state).mono ?_
          intro binding hplaced
          refine ⟨hplaced.isPrefix, ?_⟩
          obtain ⟨rest, projs, hpath, hplaced⟩ := hplaced
          refine ⟨entry.1.1, entry.1.2, field, rest, projs, hfield, entry.2, ?_, hplaced⟩
          rw [hpath, append_assoc, singleton_append]
        next => exact .refl _ _
      · rw [← attach_map_subtype_val (normalizePatternFields _ _ _ _).1] at hpairs
        exact (pairwise_map.mp hpairs).imp id
      · rintro binding ⟨⟨index, inner, field, rest, projs, hfield, hentry, hpath, hwalks,
          hselects, hmoves, hcross⟩, hdrop⟩
        refine ⟨index :: rest, .field index :: projs, hpath, .struct hlayout hfield hwalks,
          .struct hlayout (hentries _ hentry) hfield hselects, hmoves, ?_⟩
        intro hmoved
        have hown : nominals.layouts.hasDropMethod (.struct structName) = false := by
          by_contra hown
          rw [hdrop (by simpa using hown)] at hmoved
          cases hmoved
        simp only [crossesCustomDrop, hown, Layouts.project, hlayout, Option.bind_some, hfield,
          Option.map_some, hcross hmoved, Bool.or_self]
  | _ =>
    rw [lowerIrrefutablePattern]
    · exact .report _ _
    · simp

theorem lowersPattern (pat : Pattern) : LowersPattern nominals pat := by
  induction hsize : sizeOf pat using Nat.strong_induction_on generalizing pat with
  | _ size ih =>
    subst hsize
    cases pat with
    | wildcard =>
      intro ty path state
      rw [lowerIrrefutablePattern]
      exact .refl _ _
    | binding name =>
      intro ty path state
      rw [lowerIrrefutablePattern]
      exact (bindPattern_adds name ty path state).mono fun _ hwhole =>
        hwhole.placed (.binding name ty)
    | integer value =>
      intro ty path state
      cases ty with
      | integer kind =>
        rw [lowerIrrefutablePattern]
        exact lowerLiteral_adds _ _ _ _ fun num => .integer value _ num
      | _ =>
        rw [lowerIrrefutablePattern]
        · exact .report _ _
        · simp
    | bool value =>
      intro ty path state
      cases ty with
      | bool =>
        rw [lowerIrrefutablePattern]
        exact lowerLiteral_adds _ _ _ _ fun num => .bool value _ num
      | _ =>
        rw [lowerIrrefutablePattern]
        · exact .report _ _
        · simp
    | tuple pats =>
      apply lowersPattern_tuple
      intro pat hpat
      have hlt := sizeOf_lt_of_mem hpat
      exact ih _ (by simp only [Pattern.tuple.sizeOf_spec]; omega) pat rfl
    | constructor constructor fields =>
      apply lowersPattern_constructor
      intro pat hpat
      have hlt := sizeOf_lt_of_mem_fieldPatterns hpat
      exact ih _ (by simp only [Pattern.constructor.sizeOf_spec]; omega) pat rfl

/-! ## Arms -/

/-- What a binding of an arm stands for. -/
inductive ArmBinding (nominals : Nominals) (pat : Pattern) (binding : HirPatternBinding) :
    Ty → HirMatcher → Prop
  /-- A part of a tuple or a struct. -/
  | aggregate {scrut : Ty} (haggr : ∀ name, scrut ≠ .enum name)
      (hplaced : Placed nominals pat scrut [] binding) :
      ArmBinding nominals pat binding scrut .all
  /-- A value of an enum as a whole. -/
  | whole {name : String} (hpath : binding.path = [])
      (hselects : Selects nominals.layouts pat (.enum name) binding.name [] binding.ty) :
      ArmBinding nominals pat binding (.enum name) .all
  /-- A part of a field of a variant. -/
  | payload {name : String} {layout : EnumLayout} {variant : VariantLayout}
      {position index : Nat} {field : FieldLayout} {rest : List Nat}
      {projs : List Projection} (hlayout : nominals.layouts.enumLayout name = some layout)
      (hvar : layout.variants[position]? = some variant)
      (hfield : variant.fields[index]? = some field)
      (hpath : binding.path = (1 + payloadOffset layout position + index) :: rest)
      (hwalks : Walks nominals.layouts field.ty rest projs binding.ty)
      (hselects : Selects nominals.layouts pat (.enum name) binding.name
        (.downcast position :: .field index :: projs) binding.ty)
      (hcross : binding.moves = true → crossesCustomDrop nominals.layouts field.ty rest = false)
      (hown : binding.moves = true → nominals.layouts.hasDropMethod (.enum name) = false) :
      ArmBinding nominals pat binding (.enum name) (.variant position)

/-- The bindings of the pattern of an arm. -/
structure ArmLowered (nominals : Nominals) (scrut : Ty) (access : ScrutineeAccess)
    (pat : Pattern) (matcher : HirMatcher) (bindings : List HirPatternBinding) : Prop where
  stands : ∀ binding ∈ bindings, ArmBinding nominals pat binding scrut matcher
  apart : bindings.Pairwise Apart
  moves : ∀ binding ∈ bindings, binding.moves = !nominals.isCopyType binding.ty
  /-- Nothing is moved out of a value of an enum that stays where it is. -/
  stays : ∀ name, scrut = .enum name → access ≠ .consumed →
    ∀ binding ∈ bindings, binding.moves = false

theorem enumLayout_name {layouts : Layouts} {name : String} {layout : EnumLayout}
    (hlayout : layouts.enumLayout name = some layout) : layout.name = name := by
  simpa using List.find?_some hlayout

/-- Without the check of destructors, which comes after the enum pattern. -/
def EnumBinding (nominals : Nominals) (pat : Pattern) (layout : EnumLayout)
    (matcher : HirMatcher) (binding : HirPatternBinding) : Prop :=
  binding.moves = (!nominals.isCopyType binding.ty) ∧
    ((nominals.layouts.hasDropMethod (.enum layout.name) = true → binding.path ≠ [] →
      binding.moves = false) → ArmBinding nominals pat binding (.enum layout.name) matcher)

theorem lowerEnumPattern_adds {layout : EnumLayout} (pat : Pattern) (state : PatternLowering)
    (hlayout : nominals.layouts.enumLayout layout.name = some layout) :
    Adds (EnumBinding nominals pat layout (lowerEnumPattern nominals pat layout state).1)
      state (lowerEnumPattern nominals pat layout state).2 := by
  unfold lowerEnumPattern
  split
  · exact .refl _ _
  next name =>
    dsimp only
    split
    · exact .refl _ _
    · refine (bindPattern_adds name (.enum layout.name) [] state).mono ?_
      rintro binding ⟨rfl, hty, hpath, hmoves⟩
      refine ⟨by rw [hty]; exact hmoves, fun _ => .whole hpath ?_⟩
      rw [hty]
      exact .binding _ _
  next path fields =>
    split
    · exact .report _ _
    next variantName hname =>
      dsimp only
      split
      · exact .report _ _
      split
      · exact .report _ _
      next variant pos hfound =>
        have hvar := mem_zipIdx_iff_getElem?.mp (mem_of_find?_eq_some hfound)
        have hsame : variant.name = variantName := by simpa using List.find?_some hfound
        obtain ⟨hentries, hpairs⟩ := normalizePatternFields_entries fields variant.fields
          (nominals.named layout.name pos) s!"pattern `{layout.name}.{variant.name}`"
        refine .after (.reportAll _ _) (.foldl_indexed []
          (fun entry => 1 + payloadOffset layout pos + entry.1) _ ?_ ?_ _)
        · intro entry hentry state
          split
          next field hfield =>
            refine (lowersPattern entry.2 field.ty _ state).mono ?_
            intro binding hplaced
            refine ⟨hplaced.isPrefix, ?_⟩
            obtain ⟨rest, projs, hpath, hwalks, hselects, hmoves, hcross⟩ := hplaced
            refine ⟨hmoves, fun hown => ?_⟩
            refine .payload hlayout hvar hfield hpath hwalks
              (.variant hlayout hvar (by rw [hname, hsame]) (hentries entry hentry) hfield
                hselects) hcross ?_
            intro hmoved
            by_contra hdrop
            rw [hown (by simpa using hdrop) (by simp [hpath])] at hmoved
            cases hmoved
          next => exact .refl _ _
        · exact hpairs.imp fun hne => by omega
  · exact .report _ _
  · exact .report _ _
  · exact .report _ _

theorem lowerAggregatePattern_adds (pat : Pattern) (scrut : Ty) (state : PatternLowering) :
    Adds (Placed nominals pat scrut []) state
      (lowerAggregatePattern nominals pat scrut state) := by
  unfold lowerAggregatePattern
  split
  · exact .refl _ _
  next name =>
    exact (bindPattern_adds name scrut [] state).mono fun _ hwhole =>
      hwhole.placed (.binding name scrut)
  · split
    · exact lowersPattern _ _ _ _
    · exact .report _ _
  · split
    · exact .report _ _
    · exact lowersPattern _ _ _ _
  · exact .report _ _
  · exact .report _ _

theorem start_bindings {added : HirPatternBinding → Prop} {nextLocal : Nat}
    {after : PatternLowering} (hadds : Adds added (.start nextLocal) after)
    (hclean : after.diagnostics = []) :
    (∀ binding ∈ after.bindings, added binding) ∧ after.bindings.Pairwise Apart := by
  obtain ⟨new, hnew, hadded, hpair⟩ := hadds.bindings hclean
  rw [hnew, PatternLowering.start, nil_append]
  exact ⟨hadded, hpair⟩

theorem keptBindings_sublist (access : ScrutineeAccess) (bindings : List HirPatternBinding) :
    (keptBindings access bindings).Sublist bindings := by
  unfold keptBindings
  split
  · exact .refl _
  · exact nil_sublist _
  · exact filter_sublist

variable {access : ScrutineeAccess}

theorem moves_of_keptBindings (haccess : access ≠ .consumed) {bindings : List HirPatternBinding}
    (hbind : binding ∈ keptBindings access bindings) : binding.moves = false := by
  cases access with
  | consumed => exact absurd rfl haccess
  | inspected aliasesAll =>
    cases aliasesAll with
    | true => exact nomatch hbind
    | false => simpa using (mem_filter.mp hbind).2

theorem aggregate_lowered {scrut : Ty} {nextLocal : Nat}
    (haggr : ∀ name, scrut ≠ .enum name) (hclean :
      (lowerAggregatePattern nominals pat scrut (.start nextLocal)).diagnostics = []) :
    ArmLowered nominals scrut access pat .all
      (lowerAggregatePattern nominals pat scrut (.start nextLocal)).bindings := by
  obtain ⟨hplaced, hapart⟩ :=
    start_bindings (lowerAggregatePattern_adds pat scrut (.start nextLocal)) hclean
  refine ⟨fun binding hbind => .aggregate haggr (hplaced binding hbind), hapart, ?_, ?_⟩
  · intro binding hbind
    obtain ⟨_, _, _, _, _, hmoves, _⟩ := hplaced binding hbind
    exact hmoves
  · intro name hname
    exact absurd hname (haggr name)

theorem lowerArmPattern_lowered {scrut : Ty} {nextLocal : Nat}
    (hclean : (lowerArmPattern nominals scrut access pat nextLocal).2.diagnostics = []) :
    ArmLowered nominals scrut access pat
      (lowerArmPattern nominals scrut access pat nextLocal).1
      (lowerArmPattern nominals scrut access pat nextLocal).2.bindings := by
  cases scrut with
  | tuple fields => exact aggregate_lowered nofun hclean
  | struct name => exact aggregate_lowered nofun hclean
  | enum name =>
    unfold lowerArmPattern at hclean ⊢
    dsimp only at hclean ⊢
    cases hlayout : nominals.layouts.enumLayout name with
    | none => simp [hlayout, PatternLowering.report] at hclean
    | some layout =>
      obtain rfl := enumLayout_name hlayout
      have hadds := lowerEnumPattern_adds pat (.start nextLocal) hlayout
      simp only [hlayout] at hclean ⊢
      split at hclean
      · simp [PatternLowering.report] at hclean
      next hallowed =>
        rw [if_neg hallowed]
        obtain ⟨hbinds, hapart⟩ := start_bindings hadds hclean
        have hsub := keptBindings_sublist access
          (lowerEnumPattern nominals pat layout (.start nextLocal)).2.bindings
        refine ⟨?_, hapart.sublist hsub, fun binding hbind =>
          (hbinds binding (hsub.subset hbind)).1, ?_⟩
        · intro binding hbind
          apply (hbinds binding (hsub.subset hbind)).2
          intro hown hpath
          by_contra hmoves
          apply hallowed
          refine ⟨hown, isEmpty_eq_false_iff_exists_mem.mpr ⟨binding, ?_⟩⟩
          exact mem_filter.mpr ⟨hbind, by simpa [hpath] using hmoves⟩
        · intro other hother haccess binding hbind
          exact moves_of_keptBindings haccess hbind
  | _ => simp [lowerArmPattern, PatternLowering.report] at hclean

end Salicin.Matching
