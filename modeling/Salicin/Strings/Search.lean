import Salicin.Strings.Invariant

/-!
# Searching and comparing text

The functions of `core/src/string.sc` that read two texts side by side. They go through bytes; for
valid texts the answers are those for scalar values.
-/

namespace Salicin.Strings

open Nat Option List

/-! ## Functions -/

/-- The loops of `text_equal` and `text_matches_at`: the bytes from an offset on are those of the
other text. -/
def matchesFrom (val needle : View) (start : Nat) : Nat → Nat → Machine Bool
  | 0, _ => pure true
  | remaining + 1, index => do
    let valueByte ← val.at (start + index)
    let needleByte ← needle.at index
    if valueByte ≠ needleByte then pure false
    else matchesFrom val needle start remaining (index + 1)

def textEqual (left right : View) : Machine Bool :=
  if left.length ≠ right.length then pure false
  else matchesFrom left right 0 left.length 0

/-- The loop of `text_compare`; it has an answer where the bytes differ. -/
def compareFrom (left right : View) : Nat → Nat → Machine (Option Ordering)
  | 0, _ => pure none
  | remaining + 1, index => do
    let leftByte ← left.at index
    let rightByte ← right.at index
    if leftByte < rightByte then pure (some .lt)
    else if leftByte > rightByte then pure (some .gt)
    else compareFrom left right remaining (index + 1)

def textCompare (left right : View) : Machine Ordering := do
  match ← compareFrom left right (min left.length right.length) 0 with
  | some answer => pure answer
  | none =>
    if left.length < right.length then pure .lt
    else if left.length > right.length then pure .gt
    else pure .eq

def textMatchesAt (val needle : View) (start : Nat) : Machine Bool :=
  if start > val.length ∨ needle.length > val.length - start then pure false
  else matchesFrom val needle start needle.length 0

/-- The loop of `text_find`. -/
def findFrom (val needle : View) : Nat → Nat → Machine (Option Nat)
  | 0, _ => pure none
  | remaining + 1, start => do
    if ← isCharBoundary val.at val.length start then
      if ← textMatchesAt val needle start then pure (some start)
      else findFrom val needle remaining (start + 1)
    else findFrom val needle remaining (start + 1)

def textFind (val needle : View) : Machine (Option Nat) :=
  if needle.length = 0 then pure (some 0)
  else if needle.length > val.length then pure none
  else findFrom val needle (val.length - needle.length + 1) 0

/-! ## Bytes side by side -/

variable {world : World} {val needle left right : View}
  {valueText needleText leftText rightText : List UInt8}

theorem matchesFrom_ok (hval : Shows world.memory val valueText)
    (hneedle : Shows world.memory needle needleText) {start remaining index : Nat}
    (hcount : index + remaining = needleText.length)
    (hroom : start + needleText.length ≤ valueText.length) :
    matchesFrom val needle start remaining index world =
      .ok (decide (needleText.drop index <+: valueText.drop (start + index))) world := by
  induction remaining generalizing index with
  | zero =>
    rw [drop_of_length_le (by omega), decide_eq_true ( nil_prefix (l := _))]
    rfl
  | succ remaining ih =>
    have hidx : index < needleText.length := by omega
    have hinside : start + index < valueText.length := by omega
    rw [matchesFrom, run_bind (hval.at_ok hinside), run_bind (hneedle.at_ok hidx),
      drop_eq_getElem_cons hidx, drop_eq_getElem_cons hinside]
    by_cases hsame : valueText[start + index] = needleText[index]
    · rw [if_neg (not_not.mpr hsame), ih (by omega), hsame]
      congr 2
      rw [prefix_cons_inj, add_assoc]
    · rw [if_pos hsame, decide_eq_false]
      · rfl
      · intro hfits
        exact hsame (cons_prefix_cons.mp hfits).1.symm

theorem textEqual_ok (hleft : Shows world.memory left leftText)
    (hright : Shows world.memory right rightText) :
    textEqual left right world = .ok (decide (leftText = rightText)) world := by
  rw [textEqual, hleft.length, hright.length]
  by_cases hlen : leftText.length = rightText.length
  · rw [if_neg (not_not.mpr hlen), hlen, matchesFrom_ok hleft hright (Nat.zero_add _) (by omega)]
    congr 2
    rw [Nat.zero_add, drop_zero, drop_zero]
    exact propext ⟨fun h => (h.eq_of_length hlen.symm).symm, fun h => h ▸ prefix_rfl⟩
  · rw [if_pos hlen, decide_eq_false fun h => hlen (congrArg length h)]
    rfl

theorem textMatchesAt_ok (hval : Shows world.memory val valueText)
    (hneedle : Shows world.memory needle needleText) {start : Nat}
    (hstart : start ≤ valueText.length) :
    textMatchesAt val needle start world =
      .ok (decide (needleText <+: valueText.drop start)) world := by
  rw [textMatchesAt, hval.length, hneedle.length]
  by_cases hroom : needleText.length ≤ valueText.length - start
  · rw [if_neg (by omega), matchesFrom_ok hval hneedle (Nat.zero_add _) (by omega), drop_zero,
      add_zero]
  · rw [if_pos (by omega), decide_eq_false]
    · rfl
    · intro hfits
      exact hroom (length_drop ▸ hfits.length_le)

/-- How two lists compare at the first place where both have a byte and these differ. -/
def difference : List UInt8 → List UInt8 → Option Ordering
  | leftByte :: left, rightByte :: right =>
    if leftByte < rightByte then some .lt
    else if leftByte > rightByte then some .gt
    else difference left right
  | _, _ => none

theorem compareFrom_ok (hleft : Shows world.memory left leftText)
    (hright : Shows world.memory right rightText) {remaining index : Nat}
    (hcount : index + remaining = min leftText.length rightText.length) :
    compareFrom left right remaining index world =
      .ok (difference (leftText.drop index) (rightText.drop index)) world := by
  induction remaining generalizing index with
  | zero =>
    rcases le_total leftText.length rightText.length with hle | hle
    · rw [drop_of_length_le (by omega : leftText.length ≤ index), difference]
      · rfl
      · simp
    · rw [drop_of_length_le (by omega : rightText.length ≤ index), difference]
      · rfl
      · simp
  | succ remaining ih =>
    have hidx : index < leftText.length := by omega
    have hidx' : index < rightText.length := by omega
    rw [compareFrom, run_bind (hleft.at_ok hidx), run_bind (hright.at_ok hidx'),
      drop_eq_getElem_cons hidx, drop_eq_getElem_cons hidx', difference]
    split
    · rfl
    split
    · rfl
    · exact ih (by omega)

theorem difference_self (text : List UInt8) : difference text text = none := by
  induction text with
  | nil => rfl
  | cons byte rest ih => simpa [difference] using ih

theorem difference_of_lt {less greater : List UInt8} (hlt : less < greater) :
    (difference less greater = some .lt ∧ difference greater less = some .gt) ∨
      (difference less greater = none ∧ difference greater less = none) ∧
        less.length < greater.length := by
  induction hlt with
  | nil => exact .inr ⟨⟨rfl, rfl⟩, by simp⟩
  | @rel low _ high _ hbyte =>
    left
    have hnot : ¬ high < low := UInt8.lt_asymm hbyte
    rw [difference, difference, if_pos hbyte, if_neg hnot, if_pos hbyte]
    exact ⟨rfl, rfl⟩
  | @cons byte _ _ _ ih =>
    have hirrefl : ¬ byte < byte := UInt8.lt_irrefl byte
    rw [difference, difference, if_neg hirrefl, if_neg hirrefl, if_neg hirrefl, if_neg hirrefl,
      length_cons, length_cons, succ_lt_succ_iff]
    exact ih

/-- Bytes are compared in the order of the scalar values that they encode. -/
theorem textCompare_ok {leftScalars rightScalars : List Char}
    (hleft : Shows world.memory left (leftScalars.flatMap String.utf8EncodeChar))
    (hright : Shows world.memory right (rightScalars.flatMap String.utf8EncodeChar)) :
    ∃ answer, textCompare left right world = .ok answer world ∧
      (answer = .lt ↔ leftScalars < rightScalars) ∧ (answer = .gt ↔ rightScalars < leftScalars) ∧
      (answer = .eq ↔ leftScalars = rightScalars) := by
  rw [textCompare, hleft.length, hright.length,
    run_bind (compareFrom_ok hleft hright (Nat.zero_add _)), drop_zero, drop_zero]
  rcases lt_trichotomy leftScalars rightScalars with hlt | rfl | hlt
  · refine ⟨.lt, ?_, by simp [hlt], by simp [hlt.not_gt], by simp [hlt.ne]⟩
    rcases difference_of_lt (Utf8.encode_lt hlt) with ⟨hans, -⟩ | ⟨⟨hans, -⟩, hlen⟩
    · rw [hans]
      rfl
    · rw [hans]
      exact congrFun (if_pos hlen) world
  · refine ⟨.eq, ?_, by simp, by simp, by simp⟩
    rw [difference_self]
    simp only [lt_irrefl, if_false]
    rfl
  · refine ⟨.gt, ?_, by simp [hlt.not_gt], by simp [hlt], by simp [hlt.ne']⟩
    rcases difference_of_lt (Utf8.encode_lt hlt) with ⟨-, hans⟩ | ⟨⟨-, hans⟩, hlen⟩
    · rw [hans]
      rfl
    · rw [hans]
      simp only [lt_asymm hlen, if_false]
      exact congrFun (if_pos hlen) world

/-! ## The least place -/

theorem findFrom_ok (hval : Shows world.memory val valueText)
    (hneedle : Shows world.memory needle needleText) {remaining start : Nat}
    (hcount : start + remaining = valueText.length - needleText.length + 1)
    (hroom : needleText.length ≤ valueText.length) :
    ∃ answer, findFrom val needle remaining start world = .ok answer world ∧
      (∀ offset, answer = some offset → start ≤ offset ∧ Boundary valueText offset ∧
        needleText <+: valueText.drop offset) ∧
      ∀ offset, start ≤ offset → offset + needleText.length ≤ valueText.length →
        Boundary valueText offset → needleText <+: valueText.drop offset →
          ∃ first ≤ offset, answer = some first := by
  induction remaining generalizing start with
  | zero =>
    refine ⟨none, rfl, by simp, fun offset hstart hoffset => ?_⟩
    omega
  | succ remaining ih =>
    have hboundary := isCharBoundary_ok (fun index hidx => hval.at_ok hidx) start
    have hnext : start + 1 + remaining = valueText.length - needleText.length + 1 := by omega
    obtain ⟨answer, hrun, hfound, hleast⟩ := ih hnext
    rw [findFrom, hval.length, run_bind hboundary]
    by_cases hhere : Boundary valueText start ∧ needleText <+: valueText.drop start
    · refine ⟨some start, ?_, fun offset h => ?_, fun offset hstart _ _ _ => ⟨start, hstart, rfl⟩⟩
      · rw [decide_eq_true hhere.1, if_pos rfl,
          run_bind (textMatchesAt_ok hval hneedle (by omega)), decide_eq_true hhere.2]
        rfl
      · cases h
        exact ⟨le_rfl, hhere⟩
    · refine ⟨answer, ?_, fun offset h => ⟨le_of_succ_le (hfound offset h).1, (hfound offset h).2⟩,
        fun offset hstart hoffset hbound hfits => ?_⟩
      · by_cases hbound : Boundary valueText start
        · rw [decide_eq_true hbound, if_pos rfl,
            run_bind (textMatchesAt_ok hval hneedle (by omega)),
            decide_eq_false fun hfits => hhere ⟨hbound, hfits⟩]
          exact hrun
        · rw [decide_eq_false hbound]
          exact hrun
      · refine hleast offset (lt_of_le_of_ne hstart ?_) hoffset hbound hfits
        rintro rfl
        exact hhere ⟨hbound, hfits⟩

/-- A valid text occurs at boundaries of a text only. -/
theorem boundary_of_occurs (hneedle : Utf8.WellFormed needleText) (hne : needleText ≠ [])
    {offset : Nat} (hfits : needleText <+: valueText.drop offset) :
    Boundary valueText offset := by
  obtain ⟨seq, rest, rfl, hseq, -⟩ := hneedle.exists_sequence hne
  obtain ⟨first, others, rfl, -⟩ := hseq.exists_first
  obtain ⟨behind, hbehind⟩ := hfits
  refine .inr (.inr ⟨first, ?_, ?_⟩)
  · rw [← add_zero offset, ← getElem?_drop, ← hbehind]
    rfl
  · rw [isContinuation_eq, decide_eq_false_iff_not]
    cases hseq <;> unfold Utf8.Within at * <;> omega

theorem textFind_ok (hval : Shows world.memory val valueText)
    (hneedle : Shows world.memory needle needleText) (hvalid : Utf8.WellFormed needleText) :
    ∃ answer, textFind val needle world = .ok answer world ∧
      (answer = none ↔ ¬ needleText <:+: valueText) ∧
      ∀ offset, answer = some offset ↔
        IsLeast {start | Boundary valueText start ∧ needleText <+: valueText.drop start} offset := by
  suffices h : ∃ answer, textFind val needle world = .ok answer world ∧
      (∀ offset, answer = some offset → Boundary valueText offset ∧
        needleText <+: valueText.drop offset) ∧
      ∀ offset, Boundary valueText offset → needleText <+: valueText.drop offset →
        ∃ first ≤ offset, answer = some first by
    obtain ⟨answer, hrun, hfound, hleast⟩ := h
    refine ⟨answer, hrun, ?_, fun offset => ⟨fun hans => ?_, fun hoffset => ?_⟩⟩
    · constructor
      · rintro rfl ⟨front, behind, hsplit⟩
        have hfits : needleText <+: valueText.drop front.length := by
          rw [← hsplit, append_assoc, drop_left]
          exact prefix_append _ _
        by_cases hne : needleText = []
        · subst hne
          obtain ⟨_, _, h⟩ := hleast 0 (.inl rfl) ( nil_prefix (l := _))
          cases h
        · obtain ⟨_, _, h⟩ := hleast _ (boundary_of_occurs hvalid hne hfits) hfits
          cases h
      · intro habsent
        rw [eq_none_iff_forall_ne_some]
        intro offset hans
        exact habsent ((hfound offset hans).2.isInfix.trans (drop_suffix _ _).isInfix)
    · refine ⟨hfound offset hans, fun start hstart => ?_⟩
      obtain ⟨first, hfst, hsame⟩ := hleast start hstart.1 hstart.2
      rw [hans, some_inj] at hsame
      exact hsame ▸ hfst
    · obtain ⟨first, hfst, hans⟩ := hleast offset hoffset.1.1 hoffset.1.2
      rw [hans, hfst.antisymm (hoffset.2 (hfound first hans))]
  rw [textFind, hval.length, hneedle.length]
  split
  next hempty =>
    obtain rfl := length_eq_zero_iff.mp hempty
    exact ⟨some 0, rfl, fun offset h => by cases h; exact ⟨.inl rfl, nil_prefix⟩,
      fun offset _ _ => ⟨0, Nat.zero_le _, rfl⟩⟩
  next hne =>
  split
  next hlong =>
    refine ⟨none, rfl, by simp, fun offset _ hfits => ?_⟩
    have hlen := hfits.length_le
    rw [length_drop] at hlen
    omega
  next hroom =>
    obtain ⟨answer, hrun, hfound, hleast⟩ :=
      findFrom_ok hval hneedle (Nat.zero_add _) (Nat.le_of_not_lt hroom)
    refine ⟨answer, hrun, fun offset h => (hfound offset h).2, fun offset hboundary hfits => ?_⟩
    refine hleast offset (Nat.zero_le _) ?_ hboundary hfits
    have hlen := hfits.length_le
    have hle := hboundary.le
    rw [length_drop] at hlen
    omega

/-! ## Scalar values -/

def encode (scalars : List Char) : List UInt8 := scalars.flatMap String.utf8EncodeChar

theorem wellFormed_encode (scalars : List Char) : Utf8.WellFormed (encode scalars) :=
  Utf8.wellFormed_iff.mpr ⟨scalars, rfl⟩

theorem encode_inj {first second : List Char} (hsame : encode first = encode second) :
    first = second := by
  by_contra hne
  have hirrefl : ∀ {less greater : List Char}, encode less = encode greater →
      ¬ less < greater := by
    intro less greater hsame hlt
    have hbytes := Utf8.encode_lt hlt
    change encode less < encode greater at hbytes
    rw [hsame] at hbytes
    exact List.lt_irrefl _ hbytes
  rcases lt_or_gt_of_ne hne with hlt | hlt
  · exact hirrefl hsame hlt
  · exact hirrefl hsame.symm hlt

/-- An offset between scalar values. -/
def Between (scalars : List Char) (offset : Nat) : Prop :=
  ∃ front behind, scalars = front ++ behind ∧ (encode front).length = offset

theorem boundary_iff_between {scalars : List Char} {offset : Nat} :
    Boundary (encode scalars) offset ↔ Between scalars offset := by
  constructor
  · intro hboundary
    have hfront := wellFormed_take (wellFormed_encode scalars) hboundary
    have hbehind := hfront.of_append
      ((take_append_drop offset (encode scalars)).symm ▸ wellFormed_encode scalars)
    obtain ⟨front, hfront⟩ := Utf8.wellFormed_iff.mp hfront
    obtain ⟨behind, hbehind⟩ := Utf8.wellFormed_iff.mp hbehind
    refine ⟨front, behind, encode_inj ?_, ?_⟩
    · have hjoined : encode (front ++ behind) = _ := flatMap_append
      rw [hjoined, hfront, hbehind, take_append_drop]
    · rw [encode, hfront, length_take, min_eq_left hboundary.le]
  · rintro ⟨front, behind, rfl, rfl⟩
    have hsplit : encode (front ++ behind) = encode front ++ encode behind := flatMap_append
    by_cases hempty : behind = []
    · rw [hempty, append_nil]
      exact .inr (.inl rfl)
    · refine boundary_of_occurs (wellFormed_encode behind) (fun h => hempty (encode_inj h)) ?_
      rw [hsplit, drop_left]

/-- Searching, slicing and comparing valid texts. -/
theorem texts_exact {leftScalars rightScalars : List Char}
    (hleft : Shows world.memory left (encode leftScalars))
    (hright : Shows world.memory right (encode rightScalars)) :
    (∃ answer, textFind left right world = .ok answer world ∧
      (answer = none ↔ ¬ encode rightScalars <:+: encode leftScalars) ∧
      ∀ offset, answer = some offset ↔ IsLeast {start | Between leftScalars start ∧
        encode rightScalars <+: (encode leftScalars).drop start} offset) ∧
    (∀ start finish, ∃ piece, left.get start finish world = .ok piece world ∧ (piece.isSome = true ↔
        start ≤ finish ∧ Between leftScalars start ∧ Between leftScalars finish) ∧
      ∀ view ∈ piece, ∃ bytes, Shows world.memory view bytes ∧ Utf8.WellFormed bytes ∧
        bytes = ((encode leftScalars).take finish).drop start) ∧
    (∃ answer, textCompare left right world = .ok answer world ∧
      (answer = .lt ↔ leftScalars < rightScalars) ∧ (answer = .gt ↔ rightScalars < leftScalars) ∧
      (answer = .eq ↔ leftScalars = rightScalars)) ∧
    textEqual left right world = .ok (decide (leftScalars = rightScalars)) world := by
  refine ⟨?_, fun start finish => ?_, textCompare_ok hleft hright, ?_⟩
  · simp only [← boundary_iff_between]
    exact textFind_ok hleft hright (wellFormed_encode _)
  · refine ⟨_, get_ok hleft start finish, ?_, fun view hview => ?_⟩
    · rw [isSome_map, part, ← boundary_iff_between, ← boundary_iff_between]
      split_ifs with hbounds
      · exact iff_of_true rfl hbounds
      · exact iff_of_false Bool.false_ne_true hbounds
    · obtain ⟨bytes, hpart, rfl⟩ := map_eq_some_iff.mp hview
      obtain ⟨-, hfinish, hbytes⟩ := part_eq_some hpart
      exact ⟨bytes, hbytes ▸ hleft.part hfinish.le,
        wellFormed_part (wellFormed_encode _) hpart, hbytes⟩
  · rw [textEqual_ok hleft hright]
    congr 2
    exact propext ⟨encode_inj, fun hsame => hsame ▸ rfl⟩

theorem texts_exact_single :
    ∃ answer, textFind ⟨0, 0, 3⟩ ⟨1, 0, 2⟩ ⟨[.literal [97, 195, 169], .literal [195, 169]], []⟩ =
      .ok answer ⟨[.literal [97, 195, 169], .literal [195, 169]], []⟩ ∧
        (answer = none ↔ ¬ encode ['é'] <:+: encode ['a', 'é']) := by
  have hshows : ∀ (memory : List Block) (block : Nat) (bytes : List UInt8),
      memory[block]? = some (.literal bytes) → Shows memory ⟨block, 0, bytes.length⟩ bytes := by
    intro memory block bytes hblock
    refine ⟨rfl, fun {index} hidx => ?_⟩
    rw [hblock, bind_some, Block.cell, Nat.zero_add, getElem?_eq_getElem hidx]
  have hleft : Shows [.literal [97, 195, 169], .literal [195, 169]] ⟨0, 0, 3⟩
      (encode ['a', 'é']) := by
    rw [show encode ['a', 'é'] = [97, 195, 169] by decide]
    exact hshows _ 0 [97, 195, 169] rfl
  have hright : Shows [.literal [97, 195, 169], .literal [195, 169]] ⟨1, 0, 2⟩ (encode ['é']) := by
    rw [show encode ['é'] = [195, 169] by decide]
    exact hshows _ 1 [195, 169] rfl
  obtain ⟨answer, hrun, hnone, -⟩ := (@texts_exact
    ⟨[.literal [97, 195, 169], .literal [195, 169]], []⟩ _ _ _ _ hleft hright).1
  exact ⟨answer, hrun, hnone⟩

end Salicin.Strings
