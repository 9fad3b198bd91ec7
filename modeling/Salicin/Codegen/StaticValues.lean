import Salicin.Codegen.EffectRows

/-!
# Reading static values

A static value is written as a source type and read back at its sort. The values of closed
types, lengths, regions and types always come back; a row of effects does when its effects are
listed in the order of their identities and each of them can be read back.
-/

namespace Salicin.Codegen.CompileTime

open Nat List Salicin.Source Brackets OptionLists

/-! ## Values of closed types -/

theorem utf8ByteSize_ofList (text : List Char) :
    (String.ofList text).utf8ByteSize = (text.map Char.utf8Size).sum := by
  induction text with
  | nil => rfl
  | cons char rest ih =>
    rw [← singleton_append, String.ofList_append, String.utf8ByteSize_append, ih]
    simp

theorem splitBytes_append (before after : List Char) :
    splitBytes (before.map Char.utf8Size).sum (before ++ after) = some (before, after) := by
  induction before with
  | nil => cases after <;> simp [splitBytes]
  | cons char before ih =>
    have hsize := char.utf8Size_pos
    rw [cons_append, map_cons, sum_cons, splitBytes, if_neg (by omega),
      if_pos (by omega), Nat.add_sub_cancel_left, ih]
    rfl

theorem parseLength_toString (length : Nat) : parseLength (toString length).toList = some length := by
  have htext : (toString length).toList = Nat.toDigits 10 length := toList_repr
  have hdigits : ∀ char ∈ Nat.toDigits 10 length, char.isDigit = true :=
    fun char hchar => isDigit_of_mem_toDigits (by omega) (by omega) hchar
  have hsign : (Nat.toDigits 10 length).head? ≠ some '+' := by
    intro hhead
    have hplus := hdigits '+' (mem_of_head? hhead)
    simp [Char.isDigit] at hplus
  unfold parseLength
  rw [htext, if_neg hsign, if_pos ⟨toDigits_ne_nil, all_eq_true.mpr hdigits⟩,
    ofDigitChars_ten_toDigits]

theorem closedValueFromMarker_closedValueMarker (owner member : String) :
    closedValueFromMarker (closedValueMarker owner member) = some (owner, member) := by
  unfold closedValueMarker
  split_ifs with hshared hmut
  · rw [hshared.1, hshared.2]
    rfl
  · rw [hmut.1, hmut.2]
    rfl
  · have hmarker : closedValueMarkerStart ++ toString owner.utf8ByteSize ++ ":" ++ owner ++ member =
        closedValueMarkerStart ++ (toString owner.utf8ByteSize ++ (":" ++ (owner ++ member))) := by
      simp [String.append_assoc]
    have hother : ∀ constant : String, constant.toList[1]? ≠ some 'c' →
        closedValueMarkerStart ++ toString owner.utf8ByteSize ++ ":" ++ owner ++ member ≠
          constant := by
      intro constant hconst heq
      apply hconst
      rw [← heq, hmarker, String.toList_append, getElem?_append_left (by decide)]
      decide
    have hcolon : (":" : String).toList = [':'] := by decide
    have hdigits : ':' ∉ (toString owner.utf8ByteSize).toList := by
      have htext : (toString owner.utf8ByteSize).toList = Nat.toDigits 10 owner.utf8ByteSize :=
        toList_repr
      intro hmem
      rw [htext] at hmem
      have hdigit := isDigit_of_mem_toDigits (by omega) (by omega) hmem
      simp [Char.isDigit] at hdigit
    have hsplit : splitOnce ':' (toString owner.utf8ByteSize ++ (":" ++ (owner ++ member))).toList =
        some ((toString owner.utf8ByteSize).toList, owner.toList ++ member.toList) := by
      rw [String.toList_append, String.toList_append, String.toList_append, hcolon]
      exact splitOnce_append hdigits _
    have hsize : owner.utf8ByteSize = (owner.toList.map Char.utf8Size).sum := by
      rw [← utf8ByteSize_ofList, String.ofList_toList]
    have hbytes : splitBytes owner.utf8ByteSize (owner.toList ++ member.toList) =
        some (owner.toList, member.toList) := by
      rw [hsize]
      exact splitBytes_append _ _
    rw [closedValueFromMarker, if_neg (hother _ (by decide)), if_neg (hother _ (by decide)), hmarker,
      stripStart_append]
    simp only [Option.bind_eq_bind, Option.bind_some, hsplit, parseLength_toString, hbytes,
      String.ofList_toList]
    rfl

/-! ## Reading any text -/

theorem splitTopLevelArguments_cases {inner : List Char} {pieces : List (List Char)}
    (hpieces : splitTopLevelArguments inner = some pieces) :
    pieces = [] ∨ trim inner ≠ [] ∧ ∃ segs, inner = joinCommas segs ∧
      pieces = segs.map trim := by
  unfold splitTopLevelArguments at hpieces
  split_ifs at hpieces with hblank
  · exact .inl (by simpa using hpieces.symm)
  · obtain ⟨first, rest, hinner, _, _, hsplit⟩ := splitCommas_eq_some hpieces
    exact .inr ⟨hblank, first :: rest, hinner, by simpa using hsplit⟩

theorem exists_readIdentity {fuel : Nat} {text : List Char} (hfuel : text.length < fuel) :
    ∃ effect, readIdentity fuel text = some effect := by
  induction fuel generalizing text with
  | zero => omega
  | succ fuel ih =>
    cases hprim : primitiveFromIdentity text with
    | some prim => exact ⟨prim, by simp [readIdentity, hprim]⟩
    | none =>
      cases hcall : callOpen text with
      | none =>
        refine ⟨.named (String.ofList text) [], ?_⟩
        simp only [readIdentity, hprim, hcall]
      | some opened =>
        obtain ⟨name, inner, hcall, _⟩ := callOpen_eq_some.mp hcall
        have hlen := congrArg List.length hcall.text_eq
        simp only [length_append, length_cons, length_nil] at hlen
        have hpieces : ∃ pieces, splitTopLevelArguments inner = some pieces := by
          unfold splitTopLevelArguments
          split_ifs
          · exact ⟨[], rfl⟩
          · exact exists_splitCommas hcall.nested []
        obtain ⟨pieces, hpieces⟩ := hpieces
        have hread : ∀ piece ∈ pieces, ∃ effect, readIdentity fuel piece = some effect := by
          intro piece hpiece
          apply ih
          rcases splitTopLevelArguments_cases hpieces with rfl | ⟨_, segs, rfl, rfl⟩
          · simp at hpiece
          · obtain ⟨seg, hseg, rfl⟩ := mem_map.mp hpiece
            have htrim := length_trim_le seg
            have hjoin := length_le_joinCommas hseg
            omega
        obtain ⟨args, hargs, _⟩ := exists_mapM hread
        rw [readIdentity_of_call hprim hcall, hpieces]
        exact ⟨_, by rw [Option.bind_some, hargs, Option.map_some]⟩

section

variable (debug : SourceType → String)

theorem count_innerText {args : List SourceType} :
    (innerText debug args).count '(' =
      (args.map fun arg => (identityText debug arg).count '(').sum := by
  rw [innerText, count_joinCommas]
  cases args with
  | nil => rfl
  | cons arg rest =>
    have hspace : ∀ text : List Char, (' ' :: text).count '(' = text.count '(' :=
      fun text => count_cons_of_ne (by decide)
    simp [spaced, Function.comp_def, hspace]

theorem count_plain {name : List Char} (hplain : Brackets.Plain name) : name.count '(' = 0 :=
  count_eq_zero.mpr hplain.1

theorem sum_le_of_forall₂ {α β : Type*} {relation : α → β → Prop} {first : α → Nat}
    {second : β → Nat} {list : List α} {images : List β} (hall : List.Forall₂ relation list images)
    (hle : ∀ entry image, relation entry image → second image ≤ first entry) :
    (images.map second).sum ≤ (list.map first).sum ∧
      ((images.map second).sum = (list.map first).sum →
        List.Forall₂ (fun entry image => relation entry image ∧ second image = first entry)
          list images) := by
  induction hall with
  | nil => simp
  | cons hhead _ ih =>
    obtain ⟨hsum, hequal⟩ := ih
    have hfst := hle _ _ hhead
    simp only [map_cons, sum_cons]
    refine ⟨by omega, fun heq => .cons ⟨hhead, by omega⟩ (hequal (by omega))⟩

/-- What is read from a text has an identity with no more brackets; with as many, it reads
back, and it is one piece if the text is. -/
theorem count_identityText {fuel : Nat} {text : List Char} {effect : SourceType}
    (hread : readIdentity fuel text = some effect) :
    (identityText debug effect).count '(' ≤ text.count '(' ∧
      ((identityText debug effect).count '(' = text.count '(' →
        ReadsBack effect ∧ (trim text = text → trim (identityText debug effect) =
          identityText debug effect) ∧ (identityText debug effect = [] → text = [])) := by
  induction fuel generalizing text effect with
  | zero => simp [readIdentity] at hread
  | succ fuel ih =>
    cases readIdentity_read hread with
    | primitive primitive hprim =>
      obtain ⟨hspelled, hreads, _⟩ := primitiveFromIdentity_eq_some debug hprim
      rw [hspelled]
      exact ⟨le_refl _, fun _ => ⟨hreads, id, id⟩⟩
    | name hprim hcall =>
      rw [identityText_name, String.toList_ofList]
      rw [← String.toList_ofList (l := text)] at hprim
      refine ⟨le_refl _, fun _ => ⟨⟨primitiveFromIdentity_eq_none.mp hprim, ?_⟩, id, id⟩⟩
      rw [String.toList_ofList]
      exact callOpen_eq_none.mp hcall
    | application hprim name inner hcall pieces hpieces args hargs =>
      have htext : text.count '(' = inner.count '(' + 1 := by
        rw [hcall.text_eq, count_append, count_plain hcall.plain, count_cons_self, count_append]
        simp
      by_cases hne : args = []
      · rw [hne, identityText_name, String.toList_ofList, count_plain hcall.plain]
        omega
      · obtain ⟨hblank, segments, hinner, hsegs⟩ :=
          (splitTopLevelArguments_cases hpieces).resolve_left (by
            rintro rfl
            exact hne (forall₂_nil_left_iff.mp hargs))
        obtain ⟨hsum, hequal⟩ := sum_le_of_forall₂ hargs fun piece arg hargument =>
          (ih hargument).1
        have hcount : (pieces.map (List.count '(')).sum = inner.count '(' := by
          rw [hinner, count_joinCommas, hsegs, map_map]
          exact congrArg List.sum (map_congr_left fun segment _ => count_trim segment)
        have hident : (identityText debug (.named (String.ofList name) args)).count '(' =
            (innerText debug args).count '(' + 1 := by
          rw [identityText_application debug _ hne, String.toList_ofList, count_append,
            count_plain hcall.plain, count_cons_self, count_append]
          simp
        rw [hident, count_innerText, htext, ← hcount]
        refine ⟨by omega, fun heq => ?_⟩
        have hall := hequal (by omega)
        refine ⟨(readsBack_application hne).mpr ⟨?_, ?_, ?_⟩, ?_, ?_⟩
        · rw [String.toList_ofList]
          exact hcall.plain
        · -- The identity of a lone empty name would come from a blank text.
          rintro rfl
          obtain ⟨piece, rfl⟩ : ∃ piece, pieces = [piece] := by
            obtain ⟨piece, rest, _, hrest, rfl⟩ := forall₂_cons_right_iff.mp hargs
            exact ⟨piece, by rw [forall₂_nil_right_iff.mp hrest]⟩
          obtain ⟨⟨hreadPiece, hsame⟩, _⟩ := forall₂_cons.mp hall
          have hpiece := ((ih hreadPiece).2 hsame).2.2 (identityText_name debug "")
          obtain ⟨segment, rfl⟩ : ∃ segment, segments = [segment] := by
            rw [← length_eq_one_iff, ← length_map (f := trim), ← hsegs]
            rfl
          rw [hinner, joinCommas_singleton] at hblank
          exact hblank (by simpa [hpiece] using hsegs.symm)
        · intro arg hargument
          obtain ⟨piece, hpiece, hreadPiece, hsame⟩ := mem_of_forall₂ hall hargument
          obtain ⟨hreads, htrim, _⟩ := (ih hreadPiece).2 hsame
          obtain ⟨segment, _, rfl⟩ := mem_map.mp (hsegs ▸ hpiece)
          have hsolid := solid_identityText debug hreadPiece
            (solid_of_splitTopLevelArguments hpieces _ hpiece)
          exact ⟨hreads, hreads.separate hsolid (htrim (trim_trim segment))⟩
        · intro htrim
          have hname : ∀ char ∈ name.head?, isWhiteSpace char = false := by
            intro char hchar
            apply head_trim text
            rw [htrim, hcall.text_eq]
            cases name with
            | nil => simp at hchar
            | cons head tail => simpa using hchar
          rw [identityText_application debug _ hne, String.toList_ofList, trim_application hname]
        · intro hnil
          rw [identityText_application debug _ hne] at hnil
          simp at hnil

theorem mem_of_mem_innerText {args : List SourceType} {char : Char}
    (hchar : char ∈ innerText debug args) :
    char = ',' ∨ char = ' ' ∨ ∃ arg ∈ args, char ∈ identityText debug arg := by
  rcases mem_of_mem_joinCommas hchar with hcomma | ⟨seg, hseg, hchar⟩
  · exact .inl hcomma
  · cases args with
    | nil => simp [spaced] at hseg
    | cons arg rest =>
      rw [map_cons, spaced] at hseg
      rcases mem_cons.mp hseg with rfl | hseg
      · exact .inr (.inr ⟨arg, by simp, hchar⟩)
      · obtain ⟨_, hpiece, rfl⟩ := mem_map.mp hseg
        obtain ⟨other, hother, rfl⟩ := mem_map.mp hpiece
        rcases mem_cons.mp hchar with hspace | hchar
        · exact .inr (.inl hspace)
        · exact .inr (.inr ⟨other, mem_cons_of_mem _ hother, hchar⟩)

/-- What is read from a text has only its characters, commas and spaces. -/
theorem mem_of_mem_identityText {fuel : Nat} {text : List Char} {effect : SourceType}
    (hread : readIdentity fuel text = some effect) {char : Char}
    (hchar : char ∈ identityText debug effect) : char ∈ text ∨ char = ',' ∨ char = ' ' := by
  induction fuel generalizing text effect with
  | zero => simp [readIdentity] at hread
  | succ fuel ih =>
    cases readIdentity_read hread with
    | primitive primitive hprim =>
      rw [(primitiveFromIdentity_eq_some debug hprim).1] at hchar
      exact .inl hchar
    | name _ _ =>
      rw [identityText_name, String.toList_ofList] at hchar
      exact .inl hchar
    | application _ name inner hcall pieces hpieces args hargs =>
      have htext : ∀ {char}, char ∈ name ∨ char = '(' ∨ char = ')' ∨ char ∈ inner →
          char ∈ text := by
        intro char hmem
        rw [hcall.text_eq]
        rcases hmem with hmem | hmem | hmem | hmem <;> simp [hmem]
      by_cases hne : args = []
      · rw [hne, identityText_name, String.toList_ofList] at hchar
        exact .inl (htext (.inl hchar))
      · rw [identityText_application debug _ hne, String.toList_ofList] at hchar
        simp only [mem_append, mem_cons, not_mem_nil, or_false] at hchar
        rcases hchar with hchar | hchar | hchar | hchar
        · exact .inl (htext (.inl hchar))
        · exact .inl (htext (.inr (.inl hchar)))
        · rcases mem_of_mem_innerText debug hchar with hcomma | hspace | ⟨arg, harg, hchar⟩
          · exact .inr (.inl hcomma)
          · exact .inr (.inr hspace)
          · obtain ⟨piece, hpiece, hreadPiece⟩ := mem_of_forall₂ hargs harg
            rcases ih hreadPiece hchar with hmem | hother
            · left
              apply htext
              rcases splitTopLevelArguments_cases hpieces with rfl | ⟨_, segments, rfl, rfl⟩
              · simp at hpiece
              · obtain ⟨segment, hseg, rfl⟩ := mem_map.mp hpiece
                exact .inr (.inr (.inr (mem_joinCommas hseg (trim_subset segment hmem))))
            · exact .inr hother
        · exact .inl (htext (.inr (.inr (.inl hchar))))

/-! ## Rows of effects -/

/-- The effects of a row come back: they are in the order of their identities, each reads
back, and so does the row of the identities. -/
structure EffectsReadBack (custom : List SourceType) : Prop where
  ascending : (custom.map (sourceEffectIdentity debug)).Pairwise (· < ·)
  reads : ∀ effect ∈ custom, ReadsBack effect
  row : RowReadsBack (custom.map (sourceEffectIdentity debug))

variable {debug}

/-- The effects are read from the pieces of the row, one from each. -/
theorem forall₂_effectIdentitySources (pieces : List String) :
    List.Forall₂ (fun piece effect => sourceTypeFromIdentity piece = some effect) pieces
      (effectIdentitySources pieces) := by
  rw [effectIdentitySources, forall₂_map_right_iff, forall₂_same]
  intro piece _
  obtain ⟨effect, heff⟩ := exists_readIdentity (lt_succ_self piece.toList.length)
  have hsrc : sourceTypeFromIdentity piece = some effect := heff
  rw [hsrc, Option.getD_some]

theorem effectIdentitySources_identities {custom : List SourceType}
    (hreads : ∀ effect ∈ custom, ReadsBack effect) :
    effectIdentitySources (custom.map (sourceEffectIdentity debug)) = custom := by
  rw [effectIdentitySources, map_map]
  conv_rhs => rw [← map_id custom]
  apply map_congr_left
  intro effect heff
  have hsrc := (sourceTypeFromIdentity_eq_some debug effect).mpr (hreads effect heff)
  simp [hsrc]

/-- Effects that are read from their own identities read back: no bracket has been lost. -/
theorem reads_of_forall₂ {custom : List SourceType}
    (hall : List.Forall₂ (fun piece effect => sourceTypeFromIdentity piece = some effect)
      (normalizeIdentities (custom.map (sourceEffectIdentity debug))) custom) :
    ∀ effect ∈ custom, ReadsBack effect := by
  have hperm : (normalizeIdentities (custom.map (sourceEffectIdentity debug))).Perm
      (custom.map (sourceEffectIdentity debug)) := by
    have hsub : normalizeIdentities (custom.map (sourceEffectIdentity debug)) ⊆
        custom.map (sourceEffectIdentity debug) := fun identity => mem_normalizeIdentities.mp
    apply (subperm_of_subset (nodup_normalizeIdentities _) hsub).perm_of_length_le
    rw [hall.length_eq, length_map]
  have hsum : (custom.map fun effect => (identityText debug effect).count '(').sum =
      ((normalizeIdentities (custom.map (sourceEffectIdentity debug))).map fun piece =>
        piece.toList.count '(').sum := by
    have hmap := (hperm.map fun piece : String => piece.toList.count '(').sum_nat
    rw [hmap, map_map]
    rfl
  have hcounts := (sum_le_of_forall₂ hall fun piece effect hread =>
    (count_identityText debug hread).1).2 hsum
  intro effect heff
  obtain ⟨piece, _, hread, hsame⟩ := mem_of_forall₂ hcounts heff
  exact ((count_identityText debug hread).2 hsame).1

theorem effectIdentitySources_rowPieces_iff {custom : List SourceType} :
    effectIdentitySources (rowPieces (custom.map (sourceEffectIdentity debug))) = custom ↔
      EffectsReadBack debug custom := by
  constructor
  · intro hback
    have hall := forall₂_effectIdentitySources
      (rowPieces (custom.map (sourceEffectIdentity debug)))
    rw [hback] at hall
    have hsep : ∀ identity ∈ custom.map (sourceEffectIdentity debug),
        '|' ∉ identity.toList := by
      intro identity hident hbar
      obtain ⟨effect, heff, rfl⟩ := mem_map.mp hident
      obtain ⟨piece, hpiece, hread⟩ := mem_of_forall₂ hall heff
      rcases mem_of_mem_identityText debug hread hbar with hmem | hcomma | hspace
      · exact not_mem_of_mem_rowPieces _ hpiece hmem
      · simp at hcomma
      · simp at hspace
    have hpieces : rowPieces (custom.map (sourceEffectIdentity debug)) =
        normalizeIdentities (custom.map (sourceEffectIdentity debug)) := by
      rw [rowPieces_of_separate hsep] at hall ⊢
      split_ifs at hall ⊢ with hsingle
      · obtain rfl := forall₂_nil_left_iff.mp hall
        exact absurd rfl (normalizeIdentities_eq_singleton.mp hsingle).1
      · rfl
    have hrow := rowPieces_eq_iff.mp hpieces
    rw [hpieces] at hall
    have hreads := reads_of_forall₂ hall
    refine ⟨?_, hreads, hrow⟩
    -- A piece is the identity of an effect that reads back, so it is that of what it is read as.
    have hspelled : ∀ piece ∈ normalizeIdentities (custom.map (sourceEffectIdentity debug)),
        ∀ effect, sourceTypeFromIdentity piece = some effect →
          sourceEffectIdentity debug effect = piece := by
      intro piece hpiece effect hread
      obtain ⟨other, hother, rfl⟩ := mem_map.mp (mem_normalizeIdentities.mp hpiece)
      rw [(sourceTypeFromIdentity_eq_some debug other).mpr (hreads other hother)] at hread
      rw [Option.some.inj hread]
    have hidents : custom.map (sourceEffectIdentity debug) =
        (normalizeIdentities (custom.map (sourceEffectIdentity debug))).map id := by
      refine map_eq_of_forall₂ ((forall₂_and_left _ _).mpr ⟨hspelled, hall⟩) ?_
      intro piece effect hread
      exact hread.1 effect hread.2
    rw [hidents, map_id]
    exact pairwise_normalizeIdentities _
  · rintro ⟨hascending, hreads, hrow⟩
    rw [rowPieces_eq_iff.mpr hrow, normalizeIdentities_eq_self hascending,
      effectIdentitySources_identities hreads]

/-! ## Static values -/

variable (debug)

/-- A value that comes back when its source form is read at its sort. -/
def ValueReadsBack : StaticValue → Prop
  | .type _ | .usize _ | .region _ | .finite _ _ | .parameterSchema _ => True
  | .effect effects => effects.parameters = [] →
      effectRowIsSingleton effects = true ∧ EffectsReadBack debug effects.custom
  | .effects effects => effects.parameters = [] → EffectsReadBack debug effects.custom
  | .typeConstructor name sort =>
    (∃ groups, sort = .typeConstructor groups) ∧ typeConstructorFromMarker name = none
  | .effectConstructor _ sort => ∃ groups, sort = .effectConstructor groups
  | .symbolic _ _ => False

variable {debug}

theorem typeConstructorFromMarker_getD {name : String} :
    (typeConstructorFromMarker name).getD name = name ↔ typeConstructorFromMarker name = none := by
  constructor
  · intro hsame
    by_contra hsome
    obtain ⟨rest, hrest⟩ := Option.ne_none_iff_exists'.mp hsome
    rw [hrest, Option.getD_some] at hsame
    obtain ⟨chars, hstart, rfl⟩ := Option.map_eq_some_iff.mp hrest
    have hlen := isPrefixOf?_eq_some_iff_append_eq.mp hstart
    rw [← hsame, String.toList_ofList] at hlen
    have hlong := congrArg List.length hlen
    rw [length_append] at hlong
    have hpositive : 0 < typeConstructorMarkerStart.toList.length := by decide
    omega
  · intro hnone
    rw [hnone, Option.getD_none]

theorem effectsFromSource_eq (debug : SourceType → String) {effects : FunctionEffects}
    (hparams : effects.parameters = []) :
    effectsFromSource (effectRowSource effects.unsafety effects.failure
      (sourceEffectIdentities debug effects.custom)) = some effects ↔
      EffectsReadBack debug effects.custom := by
  obtain ⟨unsafety, failure, custom, parameters⟩ := effects
  obtain rfl : parameters = [] := hparams
  have hnormalized : rowPieces (sourceEffectIdentities debug custom) =
      rowPieces (custom.map (sourceEffectIdentity debug)) := by
    rw [rowPieces, rowPieces, sourceEffectIdentities,
      normalizeIdentities_eq_self (pairwise_normalizeIdentities _)]
  simp only [effectsFromSource, effectRowFromSource_effectRowSource, FunctionEffects.unsafety,
    FunctionEffects.failure, FunctionEffects.custom, Option.map_some, Option.some.injEq,
    FunctionEffects.mk.injEq, true_and, and_true, hnormalized]
  exact effectIdentitySources_rowPieces_iff

attribute [local simp] sourceFromStaticValue staticValueFromSource StaticValue.sort ValueReadsBack

theorem valueReadsBack_iff (value : StaticValue) :
    (∀ source, sourceFromStaticValue debug value = some source →
      staticValueFromSource source value.sort = some value) ↔ ValueReadsBack debug value := by
  cases value with
  | type source => simp
  | usize value => simp
  | region name => simp
  | parameterSchema groups => simp
  | finite sort member =>
    simp [closedValueFromMarker_closedValueMarker]
  | effect effects =>
    by_cases hparams : effects.parameters = []
    · have hrow := effectsFromSource_eq debug hparams
      simp only [sourceFromStaticValue, hparams, isEmpty_nil, if_true, Option.some.injEq,
        forall_eq', StaticValue.sort, staticValueFromSource, ValueReadsBack, true_implies, ← hrow,
        Option.bind_eq_bind, Option.bind_eq_some_iff, Option.ite_none_right_eq_some,
        StaticValue.effect.injEq]
      constructor
      · rintro ⟨_, hread, hsingleton, rfl⟩
        exact ⟨hsingleton, hread⟩
      · rintro ⟨hsingleton, hread⟩
        exact ⟨effects, hread, hsingleton, rfl⟩
    · simp [hparams]
  | effects effects =>
    by_cases hparams : effects.parameters = []
    · have hrow := effectsFromSource_eq debug hparams
      simp [hparams, ← hrow]
    · simp [hparams]
  | typeConstructor name sort =>
    cases sort <;>
      simp [typeConstructorFromMarker_getD, Option.bind_eq_some_iff]
  | effectConstructor name sort =>
    cases sort <;>
      simp [Option.bind_eq_some_iff]
  | symbolic name sort =>
    cases sort <;>
      simp [Option.bind_eq_some_iff]

end

/-! ## All the encodings -/

/-- Two effects are read back from their identities and told apart by them, a row is read back
from its marker, and a value from its source form, exactly when they read back. -/
theorem encodings_roundTrip_iff (debug : SourceType → String) :
    (∀ first second : SourceType,
      (sourceTypeFromIdentity (sourceEffectIdentity debug first) = some first ∧
        sourceTypeFromIdentity (sourceEffectIdentity debug second) = some second ∧
        (sourceEffectIdentity debug first = sourceEffectIdentity debug second → first = second)) ↔
      ReadsBack first ∧ ReadsBack second) ∧
    (∀ (unsafety : Bool) (failureError : Option SourceType) (custom : List String),
      effectRowFromSource (effectRowSource unsafety failureError custom) =
        some (unsafety, failureError, normalizeIdentities custom) ↔ RowReadsBack custom) ∧
    ∀ value : StaticValue, (∀ source, sourceFromStaticValue debug value = some source →
      staticValueFromSource source value.sort = some value) ↔ ValueReadsBack debug value := by
  refine ⟨?_, ?_, valueReadsBack_iff⟩
  · intro first second
    rw [sourceTypeFromIdentity_eq_some, sourceTypeFromIdentity_eq_some]
    constructor
    · rintro ⟨hfst, hsnd, _⟩
      exact ⟨hfst, hsnd⟩
    · rintro ⟨hfst, hsnd⟩
      refine ⟨hfst, hsnd, fun hsame => ?_⟩
      have hread := (sourceTypeFromIdentity_eq_some debug first).mpr hfst
      rw [hsame, (sourceTypeFromIdentity_eq_some debug second).mpr hsnd] at hread
      exact (Option.some.inj hread).symm
  · intro unsafety failureError custom
    rw [effectRowFromSource_effectRowSource, ← rowPieces_eq_iff]
    simp

/-- An effect of a pair comes back with an application of the empty name in its place. -/
theorem tuple_not_roundTrip : ¬ ∃ debug : SourceType → String,
    sourceTypeFromIdentity (sourceEffectIdentity debug
      (.named "State" [.tuple [.integer .i32, .bool]])) =
        some (.named "State" [.tuple [.integer .i32, .bool]]) := by
  rintro ⟨debug, hread⟩
  have hident : sourceEffectIdentity debug (.named "State" [.tuple [.integer .i32, .bool]]) =
      "State((i32, bool))" := rfl
  have hfound : sourceTypeFromIdentity "State((i32, bool))" =
      some (.named "State" [.named "" [.integer .i32, .bool]]) := by
    rfl
  rw [hident, hfound] at hread
  simp at hread

end Salicin.Codegen.CompileTime
