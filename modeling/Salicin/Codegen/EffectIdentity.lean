import Salicin.Codegen.CompileTime
import Salicin.Foundation.FallibleLists

/-!
# Reading the identity of an effect

Only primitive types and applications of names are read back from an identity. An application
is read back when its name cannot be taken for something else and its arguments can be told
apart; a tuple, an array, a length, a borrow, a function or a labelled argument never is.
-/

namespace Salicin.Codegen.CompileTime

open List Salicin.Source Brackets OptionLists

/-- The name is neither the spelling of a primitive type nor that of an application. -/
def Unapplied (name : String) : Prop :=
  name ∉ primitives.map Prod.fst ∧ ∀ before inner, ¬ IsCall name.toList before inner

/-- Between the commas of an application the argument stays in one piece. -/
def Separate : SourceType → Prop
  | .named name [] => Solid name.toList ∧ trim name.toList = name.toList
  | .named name _ => ',' ∉ name.toList ∧ ∀ char ∈ name.toList.head?, isWhiteSpace char = false
  | _ => True

mutual

/-- The effects whose identity can be read: primitive types, and names with such arguments. -/
def ReadsBack : SourceType → Prop
  | .integer _ | .bool | .unit => True
  | .named name [] => Unapplied name
  | .named name (arg :: rest) =>
    Plain name.toList ∧ arg :: rest ≠ [.named "" []] ∧
      (ReadsBack arg ∧ Separate arg) ∧ ReadSeparately rest
  | .tuple _ | .borrow .. | .array .. | .arrayApplication .. | .compileUSize _ | .function .. |
    .namedArgs .. => False

def ReadSeparately : List SourceType → Prop
  | [] => True
  | arg :: rest => (ReadsBack arg ∧ Separate arg) ∧ ReadSeparately rest

end

variable {args : List SourceType}

theorem readSeparately_iff : ReadSeparately args ↔ ∀ arg ∈ args, ReadsBack arg ∧ Separate arg := by
  induction args with
  | nil => simp [ReadSeparately]
  | cons arg rest ih => simp [ReadSeparately, ih]

theorem readsBack_application {name : String} (hne : args ≠ []) :
    ReadsBack (.named name args) ↔ Plain name.toList ∧ args ≠ [.named "" []] ∧
        ∀ arg ∈ args, ReadsBack arg ∧ Separate arg := by
  cases args with
  | nil => contradiction
  | cons arg rest =>
    rw [ReadsBack, readSeparately_iff, forall_mem_cons]

/-! ## The text of an identity -/

section

variable (debug : SourceType → String)

theorem sourceEffectIdentityList_eq_map (effects : List SourceType) :
    sourceEffectIdentityList debug effects = effects.map (sourceEffectIdentity debug) := by
  induction effects with
  | nil => rfl
  | cons effect rest ih => rw [sourceEffectIdentityList, ih, map_cons]

/-- The characters of the identity of an effect. -/
def identityText (effect : SourceType) : List Char := (sourceEffectIdentity debug effect).toList

/-- The pieces between the commas of an identity: each but the first comes after a space. -/
def spaced : List (List Char) → List (List Char)
  | [] => []
  | first :: rest => first :: rest.map fun piece => ' ' :: piece

theorem intercalate_comma_space (first : List Char) (rest : List (List Char)) :
    [',', ' '].intercalate (first :: rest) = joinCommas (spaced (first :: rest)) := by
  induction rest generalizing first with
  | nil => simp [spaced, joinCommas, intercalate, intersperse]
  | cons second rest ih =>
    have hmore : ∀ (head : List Char) (tail : List (List Char)),
        joinCommas ((' ' :: head) :: tail) = ' ' :: joinCommas (head :: tail) := by
      intro head tail
      cases tail <;> simp [joinCommas_singleton, joinCommas_cons_cons]
    have hsplit : [',', ' '].intercalate (first :: second :: rest) =
        first ++ ',' :: ' ' :: [',', ' '].intercalate (second :: rest) := by
      simp [intercalate, intersperse]
    rw [hsplit, ih, spaced, spaced, map_cons, joinCommas_cons_cons, hmore]

/-- The text between the brackets of an application. -/
def innerText (args : List SourceType) : List Char :=
  joinCommas (spaced (args.map (identityText debug)))

theorem identityText_name (name : String) : identityText debug (.named name []) = name.toList := by
  simp [identityText, sourceEffectIdentity]

theorem identityText_application (name : String) (hne : args ≠ []) :
    identityText debug (.named name args) =
      name.toList ++ '(' :: (innerText debug args ++ [')']) := by
  cases args with
  | nil => contradiction
  | cons arg rest =>
    have hmap : (sourceEffectIdentity debug arg ::
        sourceEffectIdentityList debug rest).map String.toList =
          identityText debug arg :: rest.map (identityText debug) := by
      rw [sourceEffectIdentityList_eq_map, map_cons, map_map]
      rfl
    have hcomma : (", " : String).toList = [',', ' '] := by decide
    have hopen : ("(" : String).toList = ['('] := by decide
    have hclose : (")" : String).toList = [')'] := by decide
    rw [identityText, sourceEffectIdentity, String.toList_append, String.toList_append,
      String.toList_append, String.toList_intercalate, hmap, hcomma, hopen, hclose,
      intercalate_comma_space, innerText, map_cons]
    simp

theorem solid_spaced {pieces : List (List Char)} (hsolid : ∀ piece ∈ pieces, Solid piece) :
    ∀ seg ∈ spaced pieces, Solid seg := by
  cases pieces with
  | nil => simp [spaced]
  | cons first rest =>
    intro seg hseg
    rcases mem_cons.mp hseg with rfl | hseg
    · exact hsolid _ mem_cons_self
    · obtain ⟨piece, hpiece, rfl⟩ := mem_map.mp hseg
      exact Solid.append (solid_plain (by decide) (by decide) : Solid [' '])
        (hsolid piece (mem_cons_of_mem _ hpiece))

/-- Splitting the text between the brackets finds the trimmed identities of the arguments. -/
theorem splitCommas_innerText (hne : args ≠ [])
    (hsolid : ∀ arg ∈ args, Solid (identityText debug arg)) :
    splitCommas (innerText debug args) 0 [] =
      some (args.map fun arg => trim (identityText debug arg)) := by
  cases args with
  | nil => contradiction
  | cons arg rest =>
    have hpieces : ∀ piece ∈ (arg :: rest).map (identityText debug), Solid piece := by
      simpa using hsolid
    have hsegs := solid_spaced hpieces
    rw [map_cons, spaced] at hsegs
    rw [innerText, map_cons, spaced, splitCommas_joinCommas hsegs]
    have htrim : ∀ text, trim (' ' :: text) = trim text := trim_cons_space (by decide)
    simp [htrim]

theorem nested_innerText (hsolid : ∀ arg ∈ args, Solid (identityText debug arg)) :
    Nested (innerText debug args) := by
  apply nested_joinCommas
  apply solid_spaced
  simpa using hsolid

end

/-! ## What is read -/

theorem primitives_spelled (debug : SourceType → String) : ∀ entry ∈ primitives,
    identityText debug entry.2 = entry.1.toList ∧ ReadsBack entry.2 ∧ Separate entry.2 ∧
      ∀ name args, entry.2 ≠ .named name args := by
  simp only [primitives, forall_mem_cons]
  refine ⟨?_, ?_, ?_, ?_, ?_, ?_, ?_, ?_, ?_, ?_, ?_, ?_, ?_, ?_, nofun⟩ <;>
    exact ⟨rfl, trivial, trivial, nofun⟩

variable {text : List Char}

theorem primitiveFromIdentity_eq_some (debug : SourceType → String) {primitive : SourceType}
    (hprim : primitiveFromIdentity text = some primitive) :
    identityText debug primitive = text ∧ ReadsBack primitive ∧ Separate primitive ∧
      ∀ name args, primitive ≠ .named name args := by
  obtain ⟨entry, hfind, rfl⟩ := Option.map_eq_some_iff.mp hprim
  obtain rfl : entry.1.toList = text := by simpa using List.find?_some hfind
  exact primitives_spelled debug entry (mem_of_find?_eq_some hfind)

theorem primitiveFromIdentity_eq_none {name : String} :
    primitiveFromIdentity name.toList = none ↔ name ∉ primitives.map Prod.fst := by
  simp only [primitiveFromIdentity, Option.map_eq_none_iff, List.find?_eq_none, String.toList_inj,
    decide_eq_true_eq, mem_map, not_exists, not_and]

variable {inner : List Char}

/-- An application with arguments is not the spelling of a primitive type. -/
theorem primitiveFromIdentity_application {name : List Char} (hcall : IsCall text name inner)
    (hinner : inner ≠ []) :
    primitiveFromIdentity text = none := by
  have hlong : ∀ entry ∈ primitives, entry.1.toList = "()".toList ∨ '(' ∉ entry.1.toList := by
    decide
  simp only [primitiveFromIdentity, Option.map_eq_none_iff, List.find?_eq_none, decide_eq_true_eq]
  intro entry hentry heq
  have htext := heq.trans hcall.text_eq
  rcases hlong entry hentry with hunit | hplain
  · rw [hunit] at htext
    cases name with
    | nil =>
      have hsame : [')'] = inner ++ [')'] := (cons.inj htext).2
      exact hinner (by simpa using hsame)
    | cons char name =>
      have hopen : '(' = char := (cons.inj htext).1
      exact hcall.plain.1 (hopen ▸ mem_cons_self)
  · rw [htext] at hplain
    simp at hplain

/-- How a type comes to be read from a text. -/
inductive Read (fuel : Nat) (text : List Char) : SourceType → Prop
  | primitive (primitive : SourceType) (hprim : primitiveFromIdentity text = some primitive) :
      Read fuel text primitive
  | name (hprim : primitiveFromIdentity text = none) (hcall : callOpen text = none) :
      Read fuel text (.named (String.ofList text) [])
  | application (hprim : primitiveFromIdentity text = none) (name inner : List Char)
      (hcall : IsCall text name inner) (pieces : List (List Char))
      (hpieces : splitTopLevelArguments inner = some pieces) (args : List SourceType)
      (hargs : List.Forall₂ (fun piece arg => readIdentity fuel piece = some arg)
        pieces args) :
      Read fuel text (.named (String.ofList name) args)

variable {fuel : Nat}

theorem readIdentity_of_call {name : List Char} (hprim : primitiveFromIdentity text = none)
    (hcall : IsCall text name inner) :
    readIdentity (fuel + 1) text = (splitTopLevelArguments inner).bind fun pieces =>
      (pieces.mapM (readIdentity fuel)).map fun args =>
        .named (String.ofList name) args := by
  have hopen : callOpen text = some name.length := callOpen_eq_some.mpr ⟨name, inner, hcall, rfl⟩
  have htake : text.take name.length = name := by simp [hcall.text_eq]
  have hdrop : (text.drop (name.length + 1)).dropLast = inner := by
    rw [hcall.text_eq, ← drop_drop, drop_left]
    simp
  unfold readIdentity
  simp only [hprim, hopen, htake, hdrop]
  cases splitTopLevelArguments inner <;> rfl

variable {effect : SourceType}

theorem readIdentity_read (hread : readIdentity (fuel + 1) text = some effect) :
    Read fuel text effect := by
  cases hprim : primitiveFromIdentity text with
  | some primitive =>
    unfold readIdentity at hread
    obtain rfl : primitive = effect := by simpa [hprim] using hread
    exact .primitive primitive hprim
  | none =>
    cases hcall : callOpen text with
    | none =>
      unfold readIdentity at hread
      obtain rfl : SourceType.named (String.ofList text) [] = effect := by
        simpa [hprim, hcall] using hread
      exact .name hprim hcall
    | some opened =>
      obtain ⟨name, inner, hcall, _⟩ := callOpen_eq_some.mp hcall
      rw [readIdentity_of_call hprim hcall] at hread
      obtain ⟨pieces, hpieces, hread⟩ := Option.bind_eq_some_iff.mp hread
      obtain ⟨args, hargs, rfl⟩ := Option.map_eq_some_iff.mp hread
      exact .application hprim name inner hcall pieces hpieces args
        (mapM_eq_some.mp hargs)

/-! ## Pieces and their identities -/

theorem trim_eq_nil (htrim : trim text = []) : ∀ char ∈ text, isWhiteSpace char = true := by
  obtain ⟨before, after, htext, hbefore, hafter⟩ := trim_infix text
  rw [htext, htrim]
  simp only [append_nil, mem_append]
  rintro char (hchar | hchar)
  · exact hbefore char hchar
  · exact hafter char hchar

theorem solid_of_splitTopLevelArguments {pieces : List (List Char)}
    (hpieces : splitTopLevelArguments inner = some pieces) : ∀ piece ∈ pieces, Solid piece := by
  unfold splitTopLevelArguments at hpieces
  split_ifs at hpieces
  · cases hpieces
    simp
  · obtain ⟨first, rest, _, hfst, hrest, rfl⟩ := splitCommas_eq_some hpieces
    intro piece hpiece
    rcases mem_cons.mp hpiece with rfl | hpiece
    · exact solid_trim hfst
    · obtain ⟨seg, hseg, rfl⟩ := mem_map.mp hpiece
      exact solid_trim (hrest seg hseg)

theorem solid_identityText (debug : SourceType → String)
    (hread : readIdentity fuel text = some effect) (hsolid : Solid text) :
    Solid (identityText debug effect) := by
  induction fuel generalizing text effect with
  | zero => simp [readIdentity] at hread
  | succ fuel ih =>
    cases readIdentity_read hread with
    | primitive primitive hprim =>
      rwa [(primitiveFromIdentity_eq_some debug hprim).1]
    | name _ _ => rwa [identityText_name, String.toList_ofList]
    | application _ name inner hcall pieces hpieces args hargs =>
      have hname : Solid name := by
        rw [hcall.text_eq] at hsolid
        exact solid_plain hcall.plain (hsolid.name hcall.plain)
      by_cases hne : args = []
      · rwa [hne, identityText_name, String.toList_ofList]
      · have hall : ∀ arg ∈ args, Solid (identityText debug arg) := by
          intro arg harg
          obtain ⟨piece, hpiece, hreadPiece⟩ := mem_of_forall₂ hargs harg
          exact ih hreadPiece (solid_of_splitTopLevelArguments hpieces piece hpiece)
        rw [identityText_application debug _ hne, String.toList_ofList]
        exact hname.append (nested_innerText debug hall).solid_brackets

theorem trim_application {name : List Char}
    (hname : ∀ char ∈ name.head?, isWhiteSpace char = false) :
    trim (name ++ '(' :: (inner ++ [')'])) = name ++ '(' :: (inner ++ [')']) := by
  apply trim_eq_self
  · cases name with
    | nil =>
      simp only [nil_append, List.head?_cons, Option.mem_some_iff, forall_eq']
      decide
    | cons char name => simpa using hname
  · have hlast : (name ++ '(' :: (inner ++ [')'])).getLast? = some ')' := by
      rw [← cons_append, ← append_assoc, getLast?_concat]
    rw [hlast]
    simp only [Option.mem_some_iff, forall_eq']
    decide

variable {debug : SourceType → String}

/-- A piece that is the trimmed identity of what is read from it is that identity. -/
theorem identityText_eq_of_trim {piece : List Char} (hread : readIdentity fuel piece = some effect)
    (htrim : piece = trim (identityText debug effect)) : identityText debug effect = piece := by
  cases fuel with
  | zero => simp [readIdentity] at hread
  | succ fuel =>
    cases readIdentity_read hread with
    | primitive primitive hprim => exact (primitiveFromIdentity_eq_some debug hprim).1
    | name _ _ => rw [identityText_name, String.toList_ofList]
    | application _ name inner hcall pieces hpieces args hargs =>
      by_cases hne : args = []
      · -- The name alone is shorter than the application it was read from.
        rw [hne, identityText_name, String.toList_ofList] at htrim
        have hshort := length_trim_le name
        rw [← htrim, hcall.text_eq] at hshort
        simp at hshort
      · have hname : ∀ char ∈ name.head?, isWhiteSpace char = false := by
          intro char hchar
          apply head_trim (identityText debug (.named (String.ofList name) args))
          rw [← htrim, hcall.text_eq]
          cases name with
          | nil => simp at hchar
          | cons head tail => simpa using hchar
        rw [htrim, identityText_application debug _ hne, String.toList_ofList,
          trim_application hname]

/-! ## When an identity is read back -/

theorem primitives_read : ∀ entry ∈ primitives,
    primitiveFromIdentity entry.1.toList = some entry.2 := by
  simp only [primitives, forall_mem_cons]
  exact ⟨rfl, rfl, rfl, rfl, rfl, rfl, rfl, rfl, rfl, rfl, rfl, rfl, rfl, rfl, nofun⟩

theorem primitives_solid : ∀ entry ∈ primitives, Solid entry.1.toList ∧
    trim entry.1.toList = entry.1.toList ∧ entry.1.toList ≠ [] := by
  decide

theorem ReadsBack.cases (hreads : ReadsBack effect) :
    (∃ entry ∈ primitives, entry.2 = effect) ∨ ∃ name args, effect = .named name args := by
  cases effect with
  | integer kind =>
    left
    cases kind <;> simp [primitives]
  | bool => simp [primitives]
  | unit => simp [primitives]
  | named name args => exact .inr ⟨name, args, rfl⟩
  | _ => exact hreads.elim

theorem ReadsBack.solid_trimmed (hreads : ReadsBack effect) (hsep : Separate effect)
    (hinner : ∀ name args, effect = .named name args → ∀ arg ∈ args,
      Solid (identityText debug arg)) :
    Solid (identityText debug effect) ∧
      trim (identityText debug effect) = identityText debug effect := by
  rcases hreads.cases with ⟨entry, hentry, rfl⟩ | ⟨name, args, rfl⟩
  · obtain ⟨hsolid, htrim, _⟩ := primitives_solid entry hentry
    rw [(primitives_spelled debug entry hentry).1]
    exact ⟨hsolid, htrim⟩
  · cases args with
    | nil =>
      rw [identityText_name]
      exact hsep
    | cons arg rest =>
      obtain ⟨hplain, _⟩ := (readsBack_application (by simp)).mp hreads
      obtain ⟨hcomma, hname⟩ := hsep
      rw [identityText_application debug _ (by simp)]
      refine ⟨?_, trim_application hname⟩
      exact (solid_plain hplain hcomma).append
        (nested_innerText debug (hinner name _ rfl)).solid_brackets

theorem ReadsBack.identityText_eq_nil (hreads : ReadsBack effect)
    (hnil : identityText debug effect = []) :
    effect = .named "" [] := by
  rcases hreads.cases with ⟨entry, hentry, rfl⟩ | ⟨name, args, rfl⟩
  · rw [(primitives_spelled debug entry hentry).1] at hnil
    exact absurd hnil (primitives_solid entry hentry).2.2
  · by_cases hne : args = []
    · rw [hne, identityText_name, String.toList_eq_nil_iff] at hnil
      rw [hne, hnil]
    · rw [identityText_application debug _ hne] at hnil
      simp at hnil

theorem length_le_joinCommas {segs : List (List Char)} {seg : List Char}
    (hseg : seg ∈ segs) : seg.length ≤ (joinCommas segs).length := by
  induction segs with
  | nil => simp at hseg
  | cons first rest ih =>
    cases rest with
    | nil =>
      rw [mem_singleton.mp hseg, joinCommas_singleton]
    | cons second rest =>
      rw [joinCommas_cons_cons, length_append, length_cons]
      rcases mem_cons.mp hseg with rfl | hseg
      · omega
      · have hrest := ih hseg
        omega

/-- The identity of an argument is shorter than that of the application. -/
theorem length_argument_lt (debug : SourceType → String) (name : String) {arg : SourceType}
    (harg : arg ∈ args) :
    (identityText debug arg).length + 1 < (identityText debug (.named name args)).length := by
  have hseg : ∃ seg ∈ spaced (args.map (identityText debug)),
      (identityText debug arg).length ≤ seg.length := by
    cases args with
    | nil => simp at harg
    | cons first rest =>
      rw [map_cons, spaced]
      rcases mem_cons.mp harg with rfl | harg
      · exact ⟨_, mem_cons_self, le_refl _⟩
      · refine ⟨' ' :: identityText debug arg, mem_cons_of_mem _ ?_, by simp⟩
        exact mem_map.mpr ⟨_, mem_map_of_mem harg, rfl⟩
  obtain ⟨seg, hseg, hlen⟩ := hseg
  have hinner := length_le_joinCommas hseg
  rw [identityText_application debug name (ne_nil_of_mem harg), length_append,
    length_cons, length_append, length_singleton, innerText]
  omega

theorem trim_innerText_ne_nil (hne : args ≠ []) (hblank : args ≠ [.named "" []])
    (hreads : ∀ arg ∈ args, ReadsBack arg ∧
      trim (identityText debug arg) = identityText debug arg) :
    trim (innerText debug args) ≠ [] := by
  intro hnil
  cases args with
  | nil => contradiction
  | cons first rest =>
    cases rest with
    | nil =>
      obtain ⟨hfst, htrim⟩ := hreads first (by simp)
      rw [innerText, map_singleton, spaced, map_nil, joinCommas_singleton, htrim] at hnil
      exact hblank (by rw [hfst.identityText_eq_nil hnil])
    | cons second rest =>
      have hcomma : ',' ∈ innerText debug (first :: second :: rest) := by
        rw [innerText, map_cons, map_cons, spaced, map_cons, joinCommas_cons_cons]
        simp
      have hspace := trim_eq_nil hnil ',' hcomma
      simp [isWhiteSpace] at hspace

/-- With fuel for the length of its identity, an effect that reads back is read. -/
theorem readIdentity_identityText (debug : SourceType → String) (hreads : ReadsBack effect)
    (hfuel : (identityText debug effect).length < fuel) :
    readIdentity fuel (identityText debug effect) = some effect ∧
      (Separate effect → Solid (identityText debug effect) ∧
        trim (identityText debug effect) = identityText debug effect) := by
  induction fuel generalizing effect with
  | zero => omega
  | succ fuel ih =>
    rcases hreads.cases with ⟨entry, hentry, rfl⟩ | ⟨name, args, rfl⟩
    · refine ⟨?_, fun hsep => hreads.solid_trimmed hsep ?_⟩
      · rw [(primitives_spelled debug entry hentry).1]
        simp [readIdentity, primitives_read entry hentry]
      · intro name args heq
        exact absurd heq ((primitives_spelled debug entry hentry).2.2.2 name args)
    by_cases hne : args = []
    · subst hne
      refine ⟨?_, fun hsep => hreads.solid_trimmed hsep (by simp)⟩
      obtain ⟨hprim, hcall⟩ := hreads
      rw [identityText_name]
      simp [readIdentity, primitiveFromIdentity_eq_none.mpr hprim, callOpen_eq_none.mpr hcall]
    · obtain ⟨hplain, hblank, hargs⟩ := (readsBack_application hne).mp hreads
      have hpieces : ∀ arg ∈ args, readIdentity fuel (identityText debug arg) = some arg ∧
            Solid (identityText debug arg) ∧
            trim (identityText debug arg) = identityText debug arg := by
        intro arg harg
        obtain ⟨hargumentReads, hsep⟩ := hargs arg harg
        have hlen := length_argument_lt debug name harg
        obtain ⟨hread, hsolid⟩ := ih hargumentReads (by omega)
        exact ⟨hread, hsolid hsep⟩
      have hsolid := fun arg harg => (hpieces arg harg).2.1
      refine ⟨?_, fun hsep => hreads.solid_trimmed hsep ?_⟩
      · have hcall : IsCall (identityText debug (.named name args)) name.toList
            (innerText debug args) :=
          ⟨identityText_application debug name hne, hplain, nested_innerText debug hsolid⟩
        have hnotBlank : trim (innerText debug args) ≠ [] :=
          trim_innerText_ne_nil hne hblank fun arg harg =>
            ⟨(hargs arg harg).1, (hpieces arg harg).2.2⟩
        have hinner : innerText debug args ≠ [] := by
          intro hnil
          rw [hnil] at hnotBlank
          exact hnotBlank (by decide)
        have hmap : args.map (fun arg => trim (identityText debug arg)) =
            args.map (identityText debug) :=
          map_congr_left fun arg harg => (hpieces arg harg).2.2
        have hread : (args.map (identityText debug)).mapM (readIdentity fuel) =
            some args := by
          rw [mapM_eq_some, forall₂_map_left_iff, forall₂_same]
          exact fun arg harg => (hpieces arg harg).1
        rw [readIdentity_of_call (primitiveFromIdentity_application hcall hinner) hcall,
          splitTopLevelArguments, if_neg hnotBlank, splitCommas_innerText debug hne hsolid, hmap]
        simp [hread]
      · rintro _ _ ⟨⟩
        exact hsolid

theorem ReadsBack.separate (hreads : ReadsBack effect) (hsolid : Solid (identityText debug effect))
    (htrim : trim (identityText debug effect) = identityText debug effect) : Separate effect := by
  rcases hreads.cases with ⟨entry, hentry, rfl⟩ | ⟨name, args, rfl⟩
  · exact (primitives_spelled debug entry hentry).2.2.1
  · cases args with
    | nil =>
      rw [identityText_name] at hsolid htrim
      exact ⟨hsolid, htrim⟩
    | cons arg rest =>
      obtain ⟨hplain, _⟩ := (readsBack_application (by simp)).mp hreads
      have hhead := head_trim (identityText debug (.named name (arg :: rest)))
      rw [htrim] at hhead
      rw [identityText_application debug _ (by simp)] at hsolid hhead
      refine ⟨hsolid.name hplain, ?_⟩
      intro char hchar
      apply hhead
      cases hname : name.toList with
      | nil => simp [hname] at hchar
      | cons head tail => simpa [hname] using hchar

theorem readsBack_of_readIdentity (debug : SourceType → String)
    (hread : readIdentity fuel (identityText debug effect) = some effect) : ReadsBack effect := by
  induction fuel generalizing effect with
  | zero => simp [readIdentity] at hread
  | succ fuel ih =>
    generalize htext : identityText debug effect = text at hread
    cases readIdentity_read hread with
    | primitive _ hprim =>
      exact (primitiveFromIdentity_eq_some debug hprim).2.1
    | name hprim hcall =>
      rw [← String.toList_ofList (l := text)] at hprim
      refine ⟨primitiveFromIdentity_eq_none.mp hprim, ?_⟩
      rw [String.toList_ofList]
      exact callOpen_eq_none.mp hcall
    | application hprim name inner hcall pieces hpieces args hargs =>
      by_cases hne : args = []
      · -- Without arguments the identity is the name, which is no application.
        rw [hne, identityText_name, String.toList_ofList] at htext
        have hlen := congrArg List.length (htext.trans hcall.text_eq)
        simp at hlen
      · have hinner : innerText debug args = inner := by
          rw [identityText_application debug _ hne, String.toList_ofList, hcall.text_eq] at htext
          have hbrackets := (cons.inj (append_cancel_left htext)).2
          exact append_cancel_right hbrackets
        have hsolid : ∀ arg ∈ args, Solid (identityText debug arg) := by
          intro arg harg
          obtain ⟨piece, hpiece, hreadPiece⟩ := mem_of_forall₂ hargs harg
          exact solid_identityText debug hreadPiece
            (solid_of_splitTopLevelArguments hpieces piece hpiece)
        have hblank : trim inner ≠ [] := by
          intro hnil
          rw [splitTopLevelArguments, if_pos hnil] at hpieces
          cases hpieces
          exact hne (forall₂_nil_left_iff.mp hargs)
        rw [splitTopLevelArguments, if_neg hblank, ← hinner,
          splitCommas_innerText debug hne hsolid] at hpieces
        cases hpieces
        rw [forall₂_map_left_iff, forall₂_same] at hargs
        refine (readsBack_application hne).mpr ⟨?_, ?_, ?_⟩
        · rw [String.toList_ofList]
          exact hcall.plain
        · rintro rfl
          apply hblank
          rw [← hinner, innerText, map_singleton, identityText_name, spaced, map_nil,
            joinCommas_singleton]
          decide
        · intro arg harg
          have hreadPiece := hargs arg harg
          have htrim := identityText_eq_of_trim hreadPiece rfl
          rw [← htrim] at hreadPiece
          have hreads := ih hreadPiece
          exact ⟨hreads, hreads.separate (hsolid arg harg) htrim.symm⟩

/-- An effect is read back from its identity exactly when it reads back. -/
theorem sourceTypeFromIdentity_eq_some (debug : SourceType → String) (effect : SourceType) :
    sourceTypeFromIdentity (sourceEffectIdentity debug effect) = some effect ↔ ReadsBack effect := by
  constructor
  · exact readsBack_of_readIdentity debug
  · intro hreads
    exact (readIdentity_identityText debug hreads (Nat.lt_succ_self _)).1

end Salicin.Codegen.CompileTime
