import Salicin.Parsing.Reparsing

/-!
# Reading atoms and suffixes

Atoms are read by the primary expressions, and a suffix by one step of the loop after what it
follows. The elements of tuples and arrays and the arguments of calls are separated by commas.
-/

namespace Salicin.Parsing

open Bool Nat List Salicin.Source TokenParser OperatorTable

variable {asyncDepth : Nat} {expr : Expr}

attribute [local simp] level body parserTable BeginsSuffixed

namespace Reparses

theorem of_suffix (hlevel : 13 ≤ parserTable.level expr)
    (hbegins : Begins expr (parserTable.body expr))
    (hhead : ∀ token ∈ (parserTable.body expr).head?, BeginsSuffixed asyncDepth token)
    (hsuffix : ∀ depth allow rest, (parserTable.body expr ++ rest).length ≤ depth →
      (parserTable.level expr = 13 → rest.head? ≠ some .bang) →
      ∃ fuel canTake, rest.length < fuel ∧
        postfixed (parsersOf asyncDepth depth) allow (parserTable.body expr ++ rest) =
          postfixLoop (parsersOf asyncDepth depth) allow fuel expr canTake rest) :
    Reparses asyncDepth expr where
  begins := hbegins
  beginsSuffixed _ := hhead
  read depth allow rest hlen hstops _ := by
    rw [min_eq_left (by omega)] at hstops ⊢
    have hbang : rest.head? ≠ some .bang := fun hbang =>
      hstops.ne .bang (by decide) _ hbang rfl
    obtain ⟨fuel, canTake, hfuel, hloop⟩ := hsuffix depth allow rest hlen (fun _ => hbang)
    rw [parserAt_unary, unary_of_postfixed, hloop]
    · exact postfixLoop_stop (by omega) hstops
    · rw [List.head?_append_of_ne_nil _ hbegins.ne_nil, asyncDepth_parsersOf]
      exact hhead
  chain := by
    rintro left operator right rfl
    have hbinary := parserLevel_le operator
    have hlow : 13 ≤ parserLevel operator := hlevel
    omega
  suffix _ := hsuffix

theorem of_primary (hlevel : parserTable.level expr = 15)
    (hbegins : Begins expr (parserTable.body expr))
    (hhead : ∀ token ∈ (parserTable.body expr).head?, BeginsSuffixed asyncDepth token)
    (hprim : ∀ depth rest, (parserTable.body expr ++ rest).length ≤ depth →
      primary (parsersOf asyncDepth depth) (parserTable.body expr ++ rest) = .ok (expr, rest)) :
    Reparses asyncDepth expr := by
  refine of_suffix (by omega) hbegins hhead ?_
  intro depth allow rest hlen _
  refine ⟨rest.length + 1, false, lt_succ_self _, ?_⟩
  rw [postfixed, bind_of_ok (hprim depth rest hlen)]
  rfl

theorem of_read (hlevel : parserTable.level expr ≤ 12)
    (hchain : ∀ left operator right, expr = .binary left operator right → chains operator = false)
    (hbegins : Begins expr (parserTable.body expr))
    (hread : ∀ depth allow rest, (parserTable.body expr ++ rest).length ≤ depth →
      Stops (parserTable.level expr) rest → EndsBefore expr rest →
      parserAt (parsersOf asyncDepth depth) allow (parserTable.level expr)
        (parserTable.body expr ++ rest) = .ok (expr, rest)) :
    Reparses asyncDepth expr where
  begins := hbegins
  beginsSuffixed hhigh := by omega
  read depth allow rest hlen hstops hends := by
    rw [min_eq_right hlevel] at hstops ⊢
    exact hread depth allow rest hlen hstops hends
  chain left operator right hexpr hchains := by
    rw [hchain left operator right hexpr] at hchains
    exact absurd hchains false_ne_true
  suffix hhigh := by omega

/-! ## Sequences -/

variable {rest : List Token}

theorem head_bodies {value : Expr} {values : List Expr} (hne : parserTable.body value ≠ []) :
    (parserTable.bodies (value :: values) ++ rest).head? = (parserTable.body value).head? := by
  cases values with
  | nil => exact List.head?_append_of_ne_nil _ hne
  | cons =>
    simp only [bodies, append_assoc]
    exact List.head?_append_of_ne_nil _ hne

/-- The elements of a tuple or an array, after the ones that were read. -/
theorem seq {values : List Expr} (hvals : ∀ value ∈ values, Reparses asyncDepth value)
    (hne : values ≠ []) {close : Token} (hfollow : follow close = 0) (hcomma : close ≠ .comma)
    (hclose : cannotBegin close = true) (msg : String) {depth : Nat} :
    ∀ (fuel : Nat) (prior : List Expr), (parserTable.bodies values ++ close :: rest).length < fuel →
      (parserTable.bodies values ++ close :: rest).length < depth →
      sequenceLoop .comma close (fun _ => (parsersOf asyncDepth depth).expression true)
        (expect close msg) .exhausted fuel prior (parserTable.bodies values ++ close :: rest) =
          .ok (prior ++ values, rest) := by
  induction values with
  | nil => exact absurd rfl hne
  | cons value others ih =>
    intro fuel prior hfuel hdepth
    obtain ⟨fuel, rfl⟩ := exists_eq_succ_of_ne_zero (ne_zero_of_lt hfuel)
    have hval := hvals value mem_cons_self
    cases others with
    | nil =>
      simp only [bodies] at hdepth ⊢
      exact sequenceLoop_close hcomma
        (hval.read_expression hdepth (stops_cons (le_of_eq hfollow) rest))
        (expect_self close msg rest)
    | cons next others =>
      simp only [bodies, append_assoc, cons_append] at hfuel hdepth ⊢
      have hnext := hvals next (by simp)
      -- the next elem does not begin with the closing token
      have hopen : ∀ token ∈ (parserTable.bodies (next :: others) ++ close :: rest).head?,
          token ≠ close := by
        rintro token htoken rfl
        rw [head_bodies hnext.begins.ne_nil] at htoken
        exact absurd (hnext.begins.head token htoken) (by simp [hclose])
      rw [sequenceLoop_comma (hval.read_expression hdepth (stops_cons (by decide) _)) hopen]
      simp only [length_append, length_cons] at hfuel hdepth
      have hrest := ih (fun value hval => hvals value (mem_cons_of_mem _ hval))
        (by simp) fuel (prior ++ [value])
        (by simp only [length_append, length_cons]; omega)
        (by simp only [length_append, length_cons]; omega)
      rw [hrest]
      simp

/-! ## Atoms -/

theorem tuple {field : Expr} {fields : List Expr} (hfst : Reparses asyncDepth field)
    (hrest : ∀ value ∈ fields, Reparses asyncDepth value) :
    Reparses asyncDepth (.tuple (field :: fields)) := by
  refine of_primary rfl (.inr rfl) (by simp) ?_
  intro depth rest hlen
  simp only [body, cons_append, append_assoc, nil_append, length_cons, length_append] at hlen ⊢
  have hopen : ∀ token ∈ (parserTable.body field ++
      .comma :: (parserTable.bodies fields ++ .rParen :: rest)).head?, token ≠ .rParen := by
    rw [List.head?_append_of_ne_nil _ hfst.begins.ne_nil]
    rintro token htoken rfl
    exact absurd (hfst.begins.head _ htoken) (by decide)
  have hread : (parsersOf asyncDepth depth).expression true (parserTable.body field ++
      .comma :: (parserTable.bodies fields ++ .rParen :: rest)) =
      .ok (field, .comma :: (parserTable.bodies fields ++ .rParen :: rest)) :=
    hfst.read_expression (by simp only [length_append, length_cons]; omega)
      (stops_cons (by decide) _)
  simp only [primary, groupOrTuple]
  rw [bind_of_ok (take_of_ne hopen)]
  simp only [false_eq_true, if_false]
  rw [bind_of_ok hread, bind_of_ok (take_self Token.comma _)]
  simp only [if_true]
  cases fields with
  | nil =>
    simp only [bodies, nil_append]
    rw [bind_of_ok (take_self _ rest)]
    rfl
  | cons next fields =>
    have hnext := (hrest next mem_cons_self).begins
    have hmore : ∀ token ∈ (parserTable.bodies (next :: fields) ++ .rParen :: rest).head?,
        token ≠ .rParen := by
      rw [head_bodies hnext.ne_nil]
      rintro token htoken rfl
      exact absurd (hnext.head _ htoken) (by decide)
    rw [bind_of_ok (take_of_ne hmore)]
    simp only [false_eq_true, if_false]
    rw [bind_of_ok (position_apply _), bind_of_ok (seq hrest (by simp) rfl (by decide) rfl
      _ _ [field] (lt_succ_self _)
      (by simp only [length_append, length_cons]; omega))]
    rfl

theorem array {elements : List Expr} (helems : ∀ value ∈ elements, Reparses asyncDepth value) :
    Reparses asyncDepth (.array elements) := by
  refine of_primary rfl (.inr rfl) (by simp) ?_
  intro depth rest hlen
  simp only [body, cons_append, append_assoc, nil_append, length_cons, length_append] at hlen ⊢
  simp only [primary, arrayLiteral]
  cases elements with
  | nil =>
    simp only [bodies, nil_append]
    rw [bind_of_ok (take_self _ rest)]
    rfl
  | cons first elements =>
    have hfst := (helems first mem_cons_self).begins
    have hopen : ∀ token ∈ (parserTable.bodies (first :: elements) ++ .rBracket :: rest).head?,
        token ≠ .rBracket := by
      rw [head_bodies hfst.ne_nil]
      rintro token htoken rfl
      exact absurd (hfst.head _ htoken) (by decide)
    rw [bind_of_ok (take_of_ne hopen)]
    simp only [false_eq_true, if_false]
    rw [bind_of_ok (position_apply _), bind_of_ok (seq helems (by simp) rfl (by decide)
      rfl _ _ [] (lt_succ_self _)
      (by simp only [length_append, length_cons]; omega))]
    rfl

theorem word {word : Word} (hname : word.IsValueName asyncDepth) :
    Reparses asyncDepth (.name (.word word)) := by
  refine of_primary rfl (.inl ⟨word, rfl, rfl⟩) ?_ ?_
  · simpa [body, nameToken, BeginsSuffixed] using hname.2
  · intro depth rest _
    simp [nameToken, primary, hname.1]

/-! ## Call arguments -/

theorem identFollowedByColon_of_begins {tokens : List Token}
    (hbegins : BeginsExpression tokens) : identFollowedByColon tokens = false := by
  unfold identFollowedByColon
  split
  · exact absurd hbegins Bool.noConfusion
  · rfl

theorem identFollowedByColon_append {tokens : List Token} (hbegins : Begins expr tokens)
    (hrest : Stops 0 rest) :
    identFollowedByColon (tokens ++ rest) = false := by
  rcases hbegins with ⟨word, _, rfl⟩ | hbegins
  · cases rest with
    | nil => rfl
    | cons token tail =>
      have htoken := hrest.ne .colon (by decide) token rfl
      cases token <;> first | rfl | exact absurd rfl htoken
  · exact identFollowedByColon_of_begins (hbegins.append rest)

theorem argumentLabel_read {tokens : List Token} (hbegins : Begins expr tokens)
    (hrest : Stops 0 rest) (label : Option Word) :
    argumentLabel (labelTokens label ++ (tokens ++ rest)) = .ok (label, tokens ++ rest) := by
  cases label with
  | none =>
    rw [labelTokens, nil_append, argumentLabel, bind_of_ok (position_apply _),
      if_neg (by simp [identFollowedByColon_append hbegins hrest])]
    rfl
  | some name =>
    rw [labelTokens, cons_append, cons_append, nil_append, argumentLabel,
      bind_of_ok (position_apply _), if_pos (by rfl),
      bind_of_ok (expectIdent_ident _ name (.colon :: (tokens ++ rest))),
      bind_of_ok (expect_self _ _ _)]
    rfl

/-- An argument is read with its label, when the first one has a label just if it has. -/
theorem argument {label : Option Word} {value : Expr} (hval : Reparses asyncDepth value)
    {prior : List CallArg} (hprior : ∀ first ∈ prior.head?, first.label.isSome = label.isSome)
    {depth : Nat} (hlen : (labelTokens label ++ (parserTable.body value ++ rest)).length < depth)
    (hstops : Stops 0 rest) :
    callArgument (parsersOf asyncDepth depth) prior
      (labelTokens label ++ (parserTable.body value ++ rest)) = .ok (.mk label value, rest) := by
  have hlabel : prior.head?.any (fun first => first.label.isSome ≠ label.isSome) = false := by
    cases hfst : prior.head? with
    | none => rfl
    | some first => simp [hprior first hfst]
  have hread : (parsersOf asyncDepth depth).expression true (parserTable.body value ++ rest) =
      .ok (value, rest) :=
    hval.read_expression (by simp only [length_append] at hlen ⊢; omega) hstops
  rw [callArgument, bind_of_ok (position_apply _),
    bind_of_ok (argumentLabel_read hval.begins hstops label), if_neg (by rw [hlabel]; decide)]
  exact bind_of_ok hread

variable {args : List CallArg}

theorem head_argumentBodies {label : Option Word} {value : Expr}
    (hbegins : Begins value (parserTable.body value)) :
    ∀ token ∈ (parserTable.argumentBodies (.mk label value :: args) ++ rest).head?,
      cannotBegin token = false := by
  have hlabeled : ∀ tail : List Token, ∀ token ∈
      (labelTokens label ++ (parserTable.body value ++ tail)).head?,
      cannotBegin token = false := by
    intro tail
    cases label with
    | none =>
      rw [labelTokens, nil_append, List.head?_append_of_ne_nil _ hbegins.ne_nil]
      exact hbegins.head
    | some name => simp [labelTokens, cannotBegin, endsWord]
  cases args with
  | nil => simpa only [argumentBodies, append_assoc] using hlabeled rest
  | cons next args =>
    simp only [argumentBodies, append_assoc]
    exact hlabeled _

theorem argumentSequence (hargs : ∀ argument ∈ args, Reparses asyncDepth argument.value)
    (hne : args ≠ []) {depth : Nat} :
    ∀ (fuel : Nat) (prior : List CallArg), (∀ first ∈ prior ++ args, ∀ second ∈ prior ++ args,
        first.label.isSome = second.label.isSome) →
      (parserTable.argumentBodies args ++ .rParen :: rest).length < fuel →
      (parserTable.argumentBodies args ++ .rParen :: rest).length < depth →
      sequenceLoop .comma .rParen (callArgument (parsersOf asyncDepth depth))
        (expect .rParen "`)` after arguments") .exhausted fuel prior
        (parserTable.argumentBodies args ++ .rParen :: rest) =
          .ok (prior ++ args, rest) := by
  induction args with
  | nil => exact absurd rfl hne
  | cons first others ih =>
    obtain ⟨label, value⟩ := first
    intro fuel prior hlabels hfuel hdepth
    obtain ⟨fuel, rfl⟩ := exists_eq_succ_of_ne_zero (ne_zero_of_lt hfuel)
    have hval : Reparses asyncDepth value := hargs (.mk label value) mem_cons_self
    have hprior : ∀ first ∈ prior.head?, first.label.isSome = label.isSome := fun first hfst =>
      hlabels first (mem_append_left _ (mem_of_mem_head? hfst)) (.mk label value)
        (mem_append_right _ mem_cons_self)
    cases others with
    | nil =>
      simp only [argumentBodies, append_assoc] at hdepth ⊢
      exact sequenceLoop_close (by decide) (hval.argument hprior hdepth
        (stops_cons (by decide) rest)) (expect_self _ _ rest)
    | cons next others =>
      obtain ⟨nextLabel, nextValue⟩ := next
      have hnext : Reparses asyncDepth nextValue := hargs (.mk nextLabel nextValue) (by simp)
      have hopen : ∀ token ∈ (parserTable.argumentBodies
          (.mk nextLabel nextValue :: others) ++ .rParen :: rest).head?, token ≠ .rParen := by
        rintro token htoken rfl
        exact absurd (head_argumentBodies hnext.begins _ htoken) (by decide)
      rw [argumentBodies] at hfuel hdepth ⊢
      simp only [append_assoc, cons_append] at hfuel hdepth ⊢
      rw [sequenceLoop_comma (hval.argument hprior hdepth (stops_cons (by decide) _)) hopen]
      simp only [length_append, length_cons] at hfuel hdepth
      have hrest := ih
        (fun argument harg => hargs argument (mem_cons_of_mem _ harg))
        (by simp) fuel (prior ++ [.mk label value]) (by simpa using hlabels)
        (by simp only [length_append, length_cons]; omega)
        (by simp only [length_append, length_cons]; omega)
      rw [hrest]
      simp

theorem callArguments_read (hargs : ∀ argument ∈ args, Reparses asyncDepth argument.value)
    (hlabels : ∀ first ∈ args, ∀ second ∈ args,
      first.label.isSome = second.label.isSome) {depth : Nat}
    (hlen : (parserTable.argumentBodies args ++ .rParen :: rest).length < depth) :
    callArguments (parsersOf asyncDepth depth)
      (parserTable.argumentBodies args ++ .rParen :: rest) = .ok (args, rest) := by
  rw [callArguments]
  cases args with
  | nil =>
    simp only [argumentBodies, nil_append]
    rw [bind_of_ok (take_self _ rest)]
    rfl
  | cons first others =>
    obtain ⟨label, value⟩ := first
    have hval : Reparses asyncDepth value := hargs (.mk label value) mem_cons_self
    have hopen : ∀ token ∈ (parserTable.argumentBodies (.mk label value :: others) ++
        .rParen :: rest).head?, token ≠ .rParen := by
      rintro token htoken rfl
      exact absurd (head_argumentBodies hval.begins _ htoken) (by decide)
    rw [bind_of_ok (take_of_ne hopen)]
    simp only [false_eq_true, if_false]
    rw [bind_of_ok (position_apply _)]
    simpa using argumentSequence hargs (by simp) _ [] (by simpa using hlabels)
      (lt_succ_self _) hlen

/-! ## Suffixes -/

variable {base : Expr}

theorem print_ne_nil (hbase : Reparses asyncDepth base) (needed : Nat) :
    parserTable.print needed base ≠ [] := by
  unfold print group
  split
  · exact cons_ne_nil _ _
  · exact hbase.begins.ne_nil

/-- One step of the loop over suffixes, from what the suffix follows. -/
theorem of_step (hbase : Reparses asyncDepth base) (needed : Nat) (first : Token)
    (more : List Token) (hneeded : needed = 13 ∧ first ≠ .bang ∨ needed = 14)
    (hfst : endsWord first = false) (hlevel : 13 ≤ parserTable.level expr)
    (hbody : parserTable.body expr = parserTable.print needed base ++ first :: more)
    (hstep : ∀ depth allow fuel canTake rest, (first :: (more ++ rest)).length < depth →
      (parserTable.level expr = 13 → rest.head? ≠ some .bang) →
      ∃ taken, postfixLoop (parsersOf asyncDepth depth) allow (fuel + 1) base canTake
        (first :: (more ++ rest)) =
          postfixLoop (parsersOf asyncDepth depth) allow fuel expr taken rest) :
    Reparses asyncDepth expr := by
  refine of_suffix hlevel ?_ ?_ ?_
  · rw [hbody]
    exact .inr (hbase.begins.group_append (by simp [hfst]) (by simp))
  · rw [hbody]
    exact begins_group_suffixed hbase.begins.ne_nil hbase.beginsSuffixed (by omega) _
  · intro depth allow rest hlen hrest
    have hpositive := length_pos_iff.mpr (hbase.print_ne_nil needed)
    rw [hbody, append_assoc, cons_append] at hlen ⊢
    obtain ⟨fuel, canTake, hfuel, hloop⟩ := hbase.suffix_print allow (by omega) (by omega) hlen
      (fun heq hbang => by simp only [List.head?_cons, Option.some.injEq] at hbang; grind)
    rw [length_append] at hlen
    obtain ⟨fuel, rfl⟩ := exists_eq_succ_of_ne_zero (ne_zero_of_lt hfuel)
    obtain ⟨taken, htaken⟩ := hstep depth allow fuel canTake rest (by omega) hrest
    refine ⟨fuel, taken, ?_, hloop.trans htaken⟩
    simp only [length_cons, length_append] at hfuel
    omega

theorem call {callee : Expr} (hcallee : Reparses asyncDepth callee)
    (hargs : ∀ argument ∈ args, Reparses asyncDepth argument.value)
    (hgroups : callee.startsImplicitHandlerGroups = false)
    (hlabels : ∀ first ∈ args, ∀ second ∈ args, first.label.isSome = second.label.isSome) :
    Reparses asyncDepth (.call callee args) := by
  refine hcallee.of_step 13 .lParen (parserTable.argumentBodies args ++ [.rParen])
    (.inl ⟨rfl, by decide⟩) rfl (by simp) rfl ?_
  intro depth allow fuel canTake rest hlen _
  refine ⟨true, ?_⟩
  simp only [cons_append, append_assoc, nil_append, length_cons] at hlen ⊢
  simp only [postfixLoop, hgroups, false_eq_true, if_false]
  rw [bind_of_ok (callArguments_read hargs hlabels (by omega))]

theorem index {index : Expr} (hbase : Reparses asyncDepth base) (hidx : Reparses asyncDepth index) :
    Reparses asyncDepth (.index base index) := by
  refine hbase.of_step 13 .lBracket (parserTable.body index ++ [.rBracket])
    (.inl ⟨rfl, by decide⟩) rfl (by simp) rfl ?_
  intro depth allow fuel canTake rest hlen _
  refine ⟨canTake, ?_⟩
  simp only [cons_append, append_assoc, nil_append, length_cons] at hlen ⊢
  simp only [postfixLoop]
  rw [bind_of_ok (hidx.read_expression (by omega) (stops_cons (by decide) _)),
    bind_of_ok (expect_self _ _ _)]

theorem member {member : MemberName} (hbase : Reparses asyncDepth base)
    (hmember : MemberIsWritable base member) : Reparses asyncDepth (.member base member) := by
  refine hbase.of_step 13 .dot [memberToken member] (.inl ⟨rfl, by decide⟩) rfl
    (by simp) rfl ?_
  intro depth allow fuel canTake rest hlen _
  refine ⟨canTake, ?_⟩
  have hname : memberName base (memberToken member :: rest) = .ok (member, rest) := by
    cases member with
    | word word =>
      have hword : word.text ≠ "_" := hmember
      simp [memberToken, memberName, expectRelativePathSegment, hword]
    | index value => rfl
    | super =>
      have hpath : base.isSuperPathExpression = true := hmember
      simp [memberToken, memberName, hpath]
  simp only [cons_append, nil_append, postfixLoop]
  rw [bind_of_ok hname]

theorem chainMember (hbase : Reparses asyncDepth base) (member : Word) :
    Reparses asyncDepth (.chainMember base member) := by
  refine hbase.of_step 13 .questionDot [.ident member] (.inl ⟨rfl, by decide⟩) rfl
    (by simp) rfl ?_
  intro depth allow fuel canTake rest hlen _
  refine ⟨canTake, ?_⟩
  simp only [cons_append, nil_append, postfixLoop]
  rw [bind_of_ok (expectIdent_ident _ member rest)]

/-- One `!` is no two, as the operand of another `!` is between parentheses. -/
theorem raise {operand : Expr} (hoperand : Reparses asyncDepth operand) :
    Reparses asyncDepth (.raise operand) := by
  refine hoperand.of_step 14 .bang [] (.inr rfl) rfl (by simp) rfl ?_
  intro depth allow fuel canTake rest hlen hrest
  refine ⟨canTake, ?_⟩
  have hbang := hrest rfl
  cases rest with
  | nil => rfl
  | cons token tail => cases token <;> first | rfl | exact absurd rfl hbang

theorem unwrap {operand : Expr} (hoperand : Reparses asyncDepth operand) :
    Reparses asyncDepth (.unwrap operand) := by
  refine hoperand.of_step 14 .bang [.bang] (.inr rfl) rfl
    (by simp) rfl ?_
  intro depth allow fuel canTake rest hlen hrest
  refine ⟨canTake, ?_⟩
  have hbang := hrest rfl
  cases rest with
  | nil => rfl
  | cons token tail => cases token <;> first | rfl | exact absurd rfl hbang

end Reparses

end Salicin.Parsing
