import Salicin.Lexing.Lexer

/-!
# What the scanners read

A scanner reads a text that does not depend on what stands behind it: the text alone is read as
the same token.
-/

namespace Salicin.Lexing

open List

open Brackets (isWhiteSpace)
open TextPositions

/-- The open parentheses and brackets behind a token. -/
def TokenKind.nest : TokenKind → Nat → Nat
  | .lParen, depth | .lBracket, depth => depth + 1
  | .rParen, depth | .rBracket, depth => depth - 1
  | _, depth => depth

namespace Lexer

/-- The lexer behind the text. -/
def behind (lexer : Lexer) (text rest : List Char) : Lexer :=
  { lexer with rest, position := lexer.position.past text }

variable {lexer : Lexer} {rest : List Char} {ch : Char}

theorem bump_of_rest (h : lexer.rest = ch :: rest) : lexer.bump.2 = lexer.behind [ch] rest := by
  rw [bump, h]
  rfl

theorem bump_bump_of_rest {ch' : Char} (h : lexer.rest = ch :: ch' :: rest) :
    lexer.bump.2.bump.2 = lexer.behind [ch, ch'] rest := by
  rw [bump_of_rest h, bump_of_rest rfl]
  rfl

theorem behind_nil (h : lexer.rest = rest) : lexer.behind [] rest = lexer := by
  subst h
  rfl

theorem behind_behind (lexer : Lexer) (text text' rest rest' : List Char) :
    (lexer.behind text rest).behind text' rest' = lexer.behind (text ++ text') rest' := by
  simp [behind, Position.past_append]

@[simp] theorem behind_rest (lexer : Lexer) (text rest : List Char) :
    (lexer.behind text rest).rest = rest := rfl

theorem bumpWhile_eq (property : Char → Bool) (lexer : Lexer) :
    lexer.bumpWhile property = (lexer.rest.takeWhile property,
      lexer.behind (lexer.rest.takeWhile property) (lexer.rest.dropWhile property)) := by
  have hloop : ∀ (rest : List Char) (lexer : Lexer), lexer.rest = rest →
      bumpWhileIn property rest lexer = (rest.takeWhile property,
        lexer.behind (rest.takeWhile property) (rest.dropWhile property)) := by
    intro rest
    induction rest with
    | nil =>
      intro lexer hrest
      rw [bumpWhileIn, takeWhile_nil, dropWhile_nil, behind_nil hrest]
    | cons ch rest ih =>
      intro lexer hrest
      rw [bumpWhileIn]
      split_ifs with hprop
      · rw [bump_of_rest hrest, ih _ rfl, takeWhile_cons_of_pos hprop, dropWhile_cons_of_pos hprop]
        simp only [behind_behind, singleton_append]
      · rw [takeWhile_cons_of_neg hprop, dropWhile_cons_of_neg hprop, behind_nil hrest]
  exact hloop lexer.rest lexer rfl

/-- The scanner reads the text as a token of the kind, and so it does where nothing stands behind
the text. A scanner also knows where its token begins. -/
structure Reads (scan : Position → Lexer → Except LexError (TokenKind × Lexer)) (lexer : Lexer)
    (kind : TokenKind) (next : Lexer) (text : List Char) : Prop where
  rest : lexer.rest = text ++ next.rest
  position : next.position = lexer.position.past text
  delimiterDepth : next.delimiterDepth = kind.nest lexer.delimiterDepth
  alone : ∀ begin position depth,
    scan begin ⟨text, position, depth⟩ = .ok (kind, ⟨[], position.past text, kind.nest depth⟩)

/-! ## Numbers and names -/

theorem takeWhile_takeWhile (property : Char → Bool) (text : List Char) :
    (text.takeWhile property).takeWhile property = text.takeWhile property :=
  takeWhile_eq_self_iff.mpr fun _ hch => mem_takeWhile_imp hch

theorem dropWhile_takeWhile (property : Char → Bool) (text : List Char) :
    (text.takeWhile property).dropWhile property = [] :=
  dropWhile_eq_nil_iff.mpr fun _ hch => mem_takeWhile_imp hch

variable {kind : TokenKind} {next : Lexer}

theorem number_reads (h : lexer.number = .ok (kind, next)) :
    Reads (fun _ => number) lexer kind next (lexer.rest.takeWhile fun c => c.isDigit || c == '_') := by
  rw [number, bumpWhile_eq] at h
  simp only at h
  split_ifs at h with hsmall
  cases h
  refine ⟨?_, rfl, rfl, ?_⟩
  · exact (takeWhile_append_dropWhile).symm
  · intro _ position depth
    rw [number, bumpWhile_eq]
    simp only [takeWhile_takeWhile, dropWhile_takeWhile]
    rw [if_pos hsmall]
    rfl

section

variable {tables : UnicodeTables}

theorem continuesName_of_startsName (h : startsName tables ch = true) :
    continuesName tables ch = true := by
  rw [startsName, Bool.or_eq_true] at h
  rw [continuesName, Bool.or_eq_true]
  exact h.imp_right (tables.continues_of_starts ch)

theorem identifier_reads (h : lexer.identifier tables = (kind, next)) :
    Reads (fun _ lexer => .ok (lexer.identifier tables)) lexer kind next
      (lexer.rest.takeWhile (continuesName tables)) := by
  rw [identifier, bumpWhile_eq] at h
  have hflat : ∀ text : String, ∀ depth, ((keyword text).getD (.ident text)).nest depth = depth := by
    intro text depth
    unfold keyword
    split <;> rfl
  cases h
  refine ⟨?_, rfl, ?_, ?_⟩
  · exact takeWhile_append_dropWhile.symm
  · exact (hflat _ _).symm
  · intro _ position depth
    rw [identifier, bumpWhile_eq]
    simp only [takeWhile_takeWhile, dropWhile_takeWhile, hflat]
    rfl

theorem regionName_reads (hrest : lexer.rest = '\'' :: rest)
    (h : lexer.regionName tables = .ok (kind, next)) :
    Reads (fun _ => regionName tables) lexer kind next ('\'' :: rest.takeWhile (continuesName tables)) := by
  rw [regionName, bump_of_rest hrest, bumpWhile_eq] at h
  cases rest with
  | nil => simp [peek] at h
  | cons first rest =>
    simp only [peek, behind_rest, List.head?_cons] at h
    split_ifs at h with hstarts
    have hcontinues := continuesName_of_startsName hstarts
    cases h
    refine ⟨?_, rfl, rfl, ?_⟩
    · rw [hrest, behind_rest, cons_append, takeWhile_append_dropWhile]
    · intro _ position depth
      rw [regionName, bump_of_rest rfl, bumpWhile_eq]
      simp only [peek, behind_rest, takeWhile_cons_of_pos hcontinues, List.head?_cons]
      rw [if_pos hstarts]
      simp only [takeWhile_takeWhile, dropWhile_takeWhile, behind_behind, singleton_append,
        dropWhile_cons_of_pos hcontinues]
      rfl

end

/-! ## Strings -/

theorem stringIn_other (hquote : ch ≠ '"') (hescape : ch ≠ '\\') (hbreak : ch ≠ '\n')
    (begin : Position) (rest : List Char) (lexer : Lexer) (value : List Char) :
    stringIn begin (ch :: rest) lexer value =
      stringIn begin rest lexer.bump.2 (value ++ [ch]) := by
  rw [stringIn.eq_def]
  split <;> simp_all

theorem stringIn_reads {begin : Position} {value : List Char} (hrest : lexer.rest = rest)
    (h : stringIn begin rest lexer value = .ok (kind, next)) :
    ∃ text, rest = text ++ next.rest ∧ next = lexer.behind text next.rest ∧
      (∀ depth, kind.nest depth = depth) ∧ ∀ begin position depth,
        stringIn begin text ⟨text, position, depth⟩ value =
          .ok (kind, ⟨[], position.past text, depth⟩) := by
  fun_induction stringIn begin rest lexer value with
  | case1 => simp at h
  | case2 rest lexer value =>
    cases h
    rw [bump_of_rest hrest]
    exact ⟨['"'], rfl, rfl, fun _ => rfl, fun _ _ _ => rfl⟩
  | case3 => simp at h
  | case4 escaped rest lexer val ch hescaped ih =>
    rw [bump_bump_of_rest hrest] at ih h
    obtain ⟨text, htext, hnext, hflat, halone⟩ := ih rfl h
    refine ⟨'\\' :: escaped :: text, by rw [htext]; rfl, ?_, hflat, ?_⟩
    · rw [hnext]
      rfl
    · intro begin position depth
      simp only [stringIn, hescaped]
      exact halone begin _ depth
  | case5 => simp at h
  | case6 => simp at h
  | case7 ch rest lexer val hquote hlast hescape hbreak ih =>
    have hplain : ch ≠ '\\' := by
      intro heq
      cases rest with
      | nil => exact hlast heq rfl
      | cons escaped rest => exact hescape escaped rest heq rfl
    rw [bump_of_rest hrest] at ih h
    obtain ⟨text, htext, hnext, hflat, halone⟩ := ih rfl h
    refine ⟨ch :: text, by rw [htext]; rfl, ?_, hflat, ?_⟩
    · rw [hnext]
      rfl
    · intro begin position depth
      rw [stringIn_other hquote hplain hbreak]
      exact halone begin _ depth

theorem string_reads (hrest : lexer.rest = '"' :: rest) (h : lexer.string = .ok (kind, next)) :
    ∃ text, Reads (fun _ => string) lexer kind next ('"' :: text) := by
  rw [string, bump_of_rest hrest] at h
  obtain ⟨text, htext, hnext, hflat, halone⟩ := stringIn_reads rfl h
  refine ⟨text, ?_, ?_, ?_, ?_⟩
  · rw [hrest, cons_append, ← htext]
    rfl
  · rw [hnext]
    rfl
  · rw [hnext, hflat]
    rfl
  · intro _ position depth
    rw [hflat]
    exact halone position _ depth

/-! ## Punctuation -/

/-- Whatever the scanner reads as a token, it reads alike where nothing stands behind it. -/
def ReadsAlone (scan : Position → Lexer → Except LexError (TokenKind × Lexer)) : Prop :=
  ∀ begin lexer kind next, scan begin lexer = .ok (kind, next) →
    ∃ text, Reads scan lexer kind next text

theorem readsAlone_pure (hflat : ∀ depth, kind.nest depth = depth) :
    ReadsAlone fun _ lexer => .ok (kind, lexer) := by
  intro _ lexer kind' next h
  cases h
  exact ⟨[], rfl, rfl, (hflat _).symm, fun _ position depth => by rw [hflat]; rfl⟩

theorem readsAlone_nest (kind : TokenKind) : ReadsAlone fun _ lexer =>
    .ok (kind, { lexer with delimiterDepth := kind.nest lexer.delimiterDepth }) := by
  intro _ lexer kind' next h
  cases h
  exact ⟨[], rfl, rfl, rfl, fun _ _ _ => rfl⟩

theorem readsAlone_error (failure : Position → LexError) :
    ReadsAlone fun begin _ => .error (failure begin) := by
  intro begin lexer kind next h
  cases h

theorem take_of_rest {expected : Char} (h : lexer.rest = expected :: rest) :
    lexer.take expected = some (lexer.behind [expected] rest) := by
  rw [take, peek, h, bump_of_rest h]
  exact if_pos rfl

theorem take_eq_none {expected : Char} (h : lexer.rest.head? ≠ some expected) :
    lexer.take expected = none :=
  if_neg h

/-- If the expected character is next, one scanner goes on behind it, and otherwise another reads
from here. A text that the other scanner reads does not begin with the expected character. -/
theorem readsAlone_take (expected : Char)
    {taken otherwise : Position → Lexer → Except LexError (TokenKind × Lexer)}
    (htaken : ReadsAlone taken) (hotherwise : ReadsAlone otherwise) :
    ReadsAlone fun begin lexer => match lexer.take expected with
      | some next => taken begin next
      | none => otherwise begin lexer := by
  intro begin lexer kind next h
  by_cases hpeek : lexer.rest.head? = some expected
  · obtain ⟨rest, hrest⟩ := List.head?_eq_some_iff.mp hpeek
    simp only [take_of_rest hrest] at h
    obtain ⟨text, htext, hpos, hdepth, halone⟩ := htaken begin _ kind next h
    refine ⟨expected :: text, ?_, hpos, hdepth, ?_⟩
    · rw [hrest, cons_append, ← htext]
      rfl
    · intro begin position depth
      have htake : (Lexer.mk (expected :: text) position depth).take expected =
          some ⟨text, position.next expected, depth⟩ := take_of_rest rfl
      simp only [htake]
      exact halone begin _ depth
  · simp only [take_eq_none hpeek] at h
    obtain ⟨text, htext, hpos, hdepth, halone⟩ := hotherwise begin _ kind next h
    refine ⟨text, htext, hpos, hdepth, ?_⟩
    intro begin position depth
    have hnot : text.head? ≠ some expected := by
      intro hhead
      rw [htext, List.head?_append, hhead] at hpeek
      exact hpeek rfl
    have htake : (Lexer.mk text position depth).take expected = none := take_eq_none hnot
    simp only [htake]
    exact halone begin position depth

theorem readsAlone_choose {otherwise : TokenKind} {choices : List (Char × TokenKind)}
    (hotherwise : ∀ depth, otherwise.nest depth = depth)
    (hchoices : ∀ choice ∈ choices, ∀ depth, choice.2.nest depth = depth) :
    ReadsAlone fun _ lexer => .ok (lexer.choose otherwise choices) := by
  induction choices with
  | nil => exact readsAlone_pure hotherwise
  | cons choice rest ih =>
    have htake := readsAlone_take choice.1
      (readsAlone_pure (hchoices choice mem_cons_self))
      (ih fun other hother => hchoices other (mem_cons_of_mem _ hother))
    have hchoose : ∀ lexer : Lexer,
        (.ok (lexer.choose otherwise (choice :: rest)) : Except LexError (TokenKind × Lexer)) =
          match lexer.take choice.1 with
          | some next => .ok (choice.2, next)
          | none => .ok (lexer.choose otherwise rest) := by
      intro lexer
      rw [choose]
      cases lexer.take choice.1 <;> rfl
    simpa only [hchoose] using htake

theorem readsAlone_punctuation (ch : Char) : ReadsAlone (punctuation ch) := by
  unfold punctuation
  split
  · exact readsAlone_nest .lParen
  · exact readsAlone_nest .rParen
  · exact readsAlone_nest .lBracket
  · exact readsAlone_nest .rBracket
  · exact readsAlone_pure fun _ => rfl
  · exact readsAlone_pure fun _ => rfl
  · exact readsAlone_pure fun _ => rfl
  · exact readsAlone_take _
      (readsAlone_take _ (readsAlone_pure fun _ => rfl) (readsAlone_error _))
      (readsAlone_pure fun _ => rfl)
  · exact readsAlone_pure fun _ => rfl
  · exact readsAlone_pure fun _ => rfl
  · exact readsAlone_choose (fun _ => rfl) (by simp [TokenKind.nest])
  · exact readsAlone_choose (fun _ => rfl) (by simp [TokenKind.nest])
  · exact readsAlone_choose (fun _ => rfl) (by simp [TokenKind.nest])
  · exact readsAlone_choose (fun _ => rfl) (by simp [TokenKind.nest])
  · exact readsAlone_choose (fun _ => rfl) (by simp [TokenKind.nest])
  · exact readsAlone_choose (fun _ => rfl) (by simp [TokenKind.nest])
  · exact readsAlone_take _ (readsAlone_choose (fun _ => rfl) (by simp [TokenKind.nest]))
      (readsAlone_choose (fun _ => rfl) (by simp [TokenKind.nest]))
  · exact readsAlone_take _ (readsAlone_choose (fun _ => rfl) (by simp [TokenKind.nest]))
      (readsAlone_choose (fun _ => rfl) (by simp [TokenKind.nest]))
  · exact readsAlone_choose (fun _ => rfl) (by simp [TokenKind.nest])
  · exact readsAlone_choose (fun _ => rfl) (by simp [TokenKind.nest])
  · exact readsAlone_choose (fun _ => rfl) (by simp [TokenKind.nest])
  · exact readsAlone_take _ (readsAlone_pure fun _ => rfl)
      (readsAlone_take _ (readsAlone_pure fun _ => rfl) (readsAlone_error _))
  · exact readsAlone_error _
  · exact readsAlone_choose (fun _ => rfl) (by simp [TokenKind.nest])
  · exact readsAlone_error _

/-! ## Tokens -/

/-- The token that begins at a character: the character stands first in its text. -/
theorem token_reads {tables : UnicodeTables} (hrest : lexer.rest = ch :: rest)
    (h : lexer.token tables ch = .ok (kind, next)) :
    ∃ text, Reads (fun _ lexer => lexer.token tables ch) lexer kind next (ch :: text) := by
  unfold token at h ⊢
  split_ifs at h ⊢ with hdigit hquote hregion hname
  · have hreads := number_reads h
    rw [hrest, takeWhile_cons_of_pos (by simp [hdigit])] at hreads
    exact ⟨_, hreads⟩
  · subst hquote
    exact string_reads hrest h
  · subst hregion
    exact ⟨_, regionName_reads hrest h⟩
  · have hreads := identifier_reads (Except.ok.inj h)
    rw [hrest, takeWhile_cons_of_pos (continuesName_of_startsName hname)] at hreads
    exact ⟨_, hreads⟩
  · rw [bump_of_rest hrest] at h
    obtain ⟨text, htext, hpos, hdepth, halone⟩ := readsAlone_punctuation ch _ _ _ _ h
    refine ⟨text, ?_, hpos, hdepth, ?_⟩
    · rw [hrest, cons_append, ← htext]
      rfl
    · intro _ position depth
      rw [bump_of_rest rfl]
      exact halone position _ depth

end Lexer

end Salicin.Lexing
