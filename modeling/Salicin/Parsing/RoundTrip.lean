import Salicin.Parsing.SuffixReparsing

/-!
# Printing and parsing

An expression that is printed by the parser's table is read back, by induction on the
expression. Prefix and infix operators read their operands at the levels that the table gives.
-/

namespace Salicin.Parsing

open Nat List Salicin.Source TokenParser OperatorTable

variable {asyncDepth : Nat} {expr : Expr}

namespace Reparses

/-! ## Prefix operators -/

variable {rest : List Token} {depth : Nat}

theorem prefixed_read {opnd : Expr} (hoperand : Reparses asyncDepth opnd) (node : Expr → Expr)
    (allow : Bool) (hlen : (parserTable.print 12 opnd ++ rest).length < depth)
    (hstops : Stops 12 rest) (hends : 12 ≤ parserTable.level opnd → EndsBefore opnd rest) :
    prefixed (parsersOf asyncDepth depth) allow node (parserTable.print 12 opnd ++ rest) =
      .ok (node opnd, rest) := by
  obtain ⟨depth, rfl⟩ := exists_eq_succ_of_ne_zero (ne_zero_of_lt hlen)
  have hread : (parsersOf asyncDepth (depth + 1)).unary allow
      (parserTable.print 12 opnd ++ rest) = .ok (opnd, rest) :=
    hoperand.read_print allow (le_refl 12) (le_of_lt_succ hlen) hstops hends
  rw [prefixed, bind_of_ok hread]
  rfl

theorem unary {opnd : Expr} (hoperand : Reparses asyncDepth opnd) (op : UnaryOp) :
    Reparses asyncDepth (.unary op opnd) := by
  refine of_read (by simp [level, parserTable]) (by simp)
    (by cases op <;> exact .inr rfl) ?_
  intro depth allow rest hlen hstops hends
  have hread := hoperand.prefixed_read (.unary op) allow
    (lt_of_succ_le hlen) hstops (fun hlevel hoperand => hends (by
      simpa [endsInNameBorrow, hoperand] using hlevel))
  cases op <;> exact hread

theorem await {opnd : Expr} (hoperand : Reparses asyncDepth opnd)
    (hasync : 0 < asyncDepth) : Reparses asyncDepth (.await opnd) := by
  refine of_read (by simp [level, parserTable]) (by simp)
    (.inr (hoperand.begins.word_group awaitWord)) ?_
  intro depth allow rest hlen hstops hends
  have hread := hoperand.prefixed_read .await allow (lt_of_succ_le hlen) hstops
    (fun hlevel hoperand => hends (by simpa [endsInNameBorrow, hoperand] using hlevel))
  have hword : 0 < (parsersOf asyncDepth depth).asyncDepth ∧ awaitWord.text = "await" :=
    ⟨by rwa [asyncDepth_parsersOf], rfl⟩
  have hlevel : parserTable.level (.await opnd) = 12 := rfl
  rw [hlevel, parserAt_unary]
  simp only [body, cons_append, Parsing.unary, if_pos hword]
  exact hread

theorem borrowArguments_read (word : Word) (rest : List Token) :
    borrowArguments (.ident word :: .rParen :: rest) = .ok ((word.text = "mut",
        if word.text = "mut" ∨ word.text = "shared" then none else some word), rest) := by
  have hregion : borrowRegion (.rParen :: rest) = .ok ((), .rParen :: rest) := rfl
  rw [borrowArguments, bind_of_ok (expectIdent_ident _ word _), bind_of_ok hregion,
    bind_of_ok (expect_self _ _ rest)]
  rfl

variable {val : Expr}

theorem borrowGroupExpression_read (hval : Reparses asyncDepth val)
    (hplace : val.isAssignablePlace = true) (mutable : Bool) (access : Option Word)
    (op : List Token) (hlen : (parserTable.body val ++ .rParen :: rest).length < depth) :
    borrowGroupExpression (parsersOf asyncDepth depth) mutable access op
      (.lParen :: (parserTable.body val ++ .rParen :: rest)) =
        .ok (.borrow mutable access val, rest) := by
  have hopen : (parserTable.body val ++ .rParen :: rest).head? ≠ some .rParen := by
    rw [List.head?_append_of_ne_nil _ hval.begins.ne_nil]
    intro hhead
    exact absurd (hval.begins.head _ hhead) (by decide)
  rw [borrowGroupExpression, bind_of_ok (expect_self _ _ _), bind_of_ok (position_apply _),
    if_neg hopen, bind_of_ok (hval.read_expression hlen (stops_cons (by decide) _)),
    bind_of_ok (expect_self _ _ rest), if_pos hplace]
  rfl

theorem borrowQualifierGroupFollows_of_begins {tokens : List Token}
    (hbegins : BeginsExpression tokens) :
    borrowQualifierGroupFollows (.lParen :: tokens) = false := by
  unfold borrowQualifierGroupFollows
  split
  · next heq =>
      obtain ⟨_, rfl⟩ := cons.inj heq
      exact absurd hbegins Bool.noConfusion
  · next heq =>
      obtain ⟨_, rfl⟩ := cons.inj heq
      exact absurd hbegins Bool.noConfusion
  · rfl

/-- The operand of a borrow is taken for an access only when a star follows. -/
theorem borrowQualifierGroupFollows_operand (hval : Reparses asyncDepth val)
    (hstops : Stops 12 rest) (hends : EndsBefore (.borrow false none val) rest) :
    borrowQualifierGroupFollows
      (.lParen :: (parserTable.body val ++ .rParen :: rest)) = false := by
  rcases hval.begins with ⟨word, rfl, hword⟩ | hbegins
  · rw [hword]
    cases rest with
    | nil => rfl
    | cons token tail =>
      have htoken := hstops token rfl
      have hstar := hends rfl
      cases token <;> first
        | rfl
        | exact (hstar rfl).elim
        | exact absurd htoken (by simp [follow])
  · exact borrowQualifierGroupFollows_of_begins (hbegins.append _)

theorem borrowQualifier_read (hval : Reparses asyncDepth val) {mutable : Bool}
    {access : Option Word} (haccess : AccessIsWritable mutable access) (hstops : Stops 12 rest)
    (hends : EndsBefore (.borrow mutable access val) rest) :
    borrowQualifier (accessTokens mutable access ++
      .lParen :: (parserTable.body val ++ .rParen :: rest)) =
        .ok ((mutable, access), .lParen :: (parserTable.body val ++ .rParen :: rest)) := by
  rw [borrowQualifier, bind_of_ok (position_apply _)]
  cases access with
  | none =>
    cases mutable with
    | true =>
      simp only [accessTokens, if_true, cons_append, nil_append]
      rw [if_pos (by rfl), bind_of_ok (expect_self _ _ _), borrowArguments_read]
      rfl
    | false =>
      simp only [accessTokens, Bool.false_eq_true, if_false, nil_append]
      rw [if_neg (by simp [hval.borrowQualifierGroupFollows_operand hstops hends])]
      rfl
  | some word =>
    obtain ⟨rfl, hmut, hshared⟩ := haccess word rfl
    simp only [accessTokens, Bool.false_eq_true, if_false, cons_append, nil_append]
    rw [if_pos (by rfl), bind_of_ok (expect_self _ _ _), borrowArguments_read,
      if_neg (by simp [hmut, hshared]), decide_eq_false hmut]

theorem borrow (hval : Reparses asyncDepth val) {mutable : Bool} {access : Option Word}
    (haccess : AccessIsWritable mutable access) (hplace : val.isAssignablePlace = true) :
    Reparses asyncDepth (.borrow mutable access val) := by
  have hbegins : Begins (.borrow mutable access val)
      (parserTable.body (.borrow mutable access val)) := by
    right
    unfold body accessTokens
    split
    · rfl
    · split <;> rfl
  refine of_read (by simp [level, parserTable]) (by simp) hbegins ?_
  intro depth allow rest hlen hstops hends
  have hword : ¬ (0 < (parsersOf asyncDepth depth).asyncDepth ∧ borrowWord.text = "await") :=
    fun hawait => absurd hawait.2 (by decide)
  have hlevel : parserTable.level (.borrow mutable access val) = 12 := rfl
  rw [hlevel, parserAt_unary]
  simp only [body, cons_append, append_assoc, nil_append, length_cons, length_append] at hlen ⊢
  simp only [Parsing.unary, if_neg hword]
  rw [if_pos (by rfl), borrowExpression,
    bind_of_ok (hval.borrowQualifier_read haccess hstops hends)]
  dsimp only
  rw [bind_of_ok (position_apply _), if_pos (by rfl)]
  exact hval.borrowGroupExpression_read hplace mutable access _
    (by simp only [length_append, length_cons]; omega)

/-! ## Infix operators -/

variable {op : BinaryOp} {right left : Expr}

theorem endsBefore_right (hends : EndsBefore (.binary left op right) rest)
    (hlevel : parserLevel op + 1 ≤ parserTable.level right) : EndsBefore right rest := by
  intro hright
  apply hends
  rw [endsInNameBorrow, hright, Bool.and_true]
  exact decide_eq_true hlevel

theorem endsBefore_left {tail : List Token} (hallowed : NoNameBorrowProduct (.binary left op right))
    (hlevel : parserLevel op ≤ parserTable.level left) :
    EndsBefore left (binaryToken op :: tail) := by
  intro hleft hstar
  cases op
  case mul => exact hallowed ⟨hlevel, hleft⟩
  all_goals exact absurd hstar (by simp [binaryToken])

theorem body_binary (left right : Expr) (op : BinaryOp) (rest : List Token) :
    parserTable.body (.binary left op right) ++ rest =
      parserTable.print (parserTable.left op) left ++ binaryToken op ::
          (parserTable.print (parserLevel op + 1) right ++ rest) := by
  simp only [body, print, parserTable, append_assoc, cons_append]

theorem chain_step (hleft : Reparses asyncDepth left) (hright : Reparses asyncDepth right)
    (hchains : chains op = true) (hallowed : NoNameBorrowProduct (.binary left op right))
    (allow : Bool) (hlen : (parserTable.body (.binary left op right) ++ rest).length ≤ depth)
    (hstops : Stops (parserLevel op + 1) rest) (hends : EndsBefore (.binary left op right) rest) :
    ∃ fuel, rest.length < fuel ∧ leftAssociative (operatorsAt (parserLevel op))
        (parserAt (parsersOf asyncDepth depth) allow (parserLevel op + 1))
        (parserTable.body (.binary left op right) ++ rest) =
      chainLoop (operatorOf (operatorsAt (parserLevel op)))
        (fun op left right => .binary left op right)
        (parserAt (parsersOf asyncDepth depth) allow (parserLevel op + 1)) .exhausted fuel
        (.binary left op right) rest := by
  have hlevel : parserTable.left op = parserLevel op := if_pos hchains
  rw [body_binary, hlevel] at hlen ⊢
  obtain ⟨fuel, hfuel, hloop⟩ := hleft.chain_print hchains allow hlen
    (stops_binaryToken op _) (endsBefore_left hallowed)
  obtain ⟨fuel, rfl⟩ := exists_eq_succ_of_ne_zero (ne_zero_of_lt hfuel)
  simp only [length_append, length_cons] at hlen hfuel
  have hread : parserAt (parsersOf asyncDepth depth) allow (parserLevel op + 1)
      (parserTable.print (parserLevel op + 1) right ++ rest) = .ok (right, rest) :=
    hright.read_print allow (succ_le_succ (parserLevel_le op))
      (by simp only [length_append]; omega) hstops (endsBefore_right hends)
  refine ⟨fuel, by omega, hloop.trans ?_⟩
  exact chainLoop_step (operatorOf_binaryToken op) hread

theorem nonAssociative_read (hleft : Reparses asyncDepth left) (hright : Reparses asyncDepth right)
    (hchains : chains op = false) (hallowed : NoNameBorrowProduct (.binary left op right))
    {allow : Bool} (hlen : (parserTable.body (.binary left op right) ++ rest).length ≤ depth)
    (hstops : Stops (parserLevel op) rest) (hends : EndsBefore (.binary left op right) rest)
    (chained : String) :
    nonAssociative (operatorsAt (parserLevel op)) chained
      (parserAt (parsersOf asyncDepth depth) allow (parserLevel op + 1))
      (parserTable.body (.binary left op right) ++ rest) =
        .ok (.binary left op right, rest) := by
  have hlevel : parserTable.left op = parserLevel op + 1 := if_neg (by rw [hchains]; decide)
  have hnext : parserLevel op + 1 ≤ 12 := succ_le_succ (parserLevel_le op)
  rw [body_binary, hlevel] at hlen ⊢
  have hlast : ((rest.head?).bind (operatorOf (operatorsAt (parserLevel op)))).isSome =
      false := by
    cases hhead : rest.head? with
    | none => rfl
    | some token =>
      rw [Option.bind_some, operatorOf_of_stops hstops token hhead]
      rfl
  have hreadLeft := fun (allow : Bool) => hleft.read_print allow hnext hlen
    (stops_binaryToken op _) (fun hle => endsBefore_left hallowed (le_of_succ_le hle))
  simp only [length_append, length_cons] at hlen
  have hread : parserAt (parsersOf asyncDepth depth) allow (parserLevel op + 1)
      (parserTable.print (parserLevel op + 1) right ++ rest) = .ok (right, rest) :=
    hright.read_print allow hnext (by simp only [length_append]; omega)
      (hstops.mono (le_succ _)) (endsBefore_right hends)
  rw [nonAssociative, bind_of_ok (hreadLeft allow),
    bind_of_ok (takeMap_of_some (operatorOf_binaryToken op) _)]
  dsimp only
  rw [bind_of_ok hread, bind_of_ok (position_apply rest), hlast]
  rfl

theorem binary (hleft : Reparses asyncDepth left) (hright : Reparses asyncDepth right)
    (hallowed : NoNameBorrowProduct (.binary left op right)) :
    Reparses asyncDepth (.binary left op right) where
  begins := .inr (hleft.begins.group_append (by simp [endsWord_binaryToken]) (by simp))
  beginsSuffixed hlevel := by
    have hle := parserLevel_le op
    have hhigh : 13 ≤ parserLevel op := hlevel
    omega
  read depth allow rest hlen hstops hends := by
    have hle := parserLevel_le op
    have hlevel : min 12 (parserTable.level (.binary left op right)) =
        parserLevel op := min_eq_right (le_succ_of_le hle)
    rw [hlevel] at hstops ⊢
    rw [parserAt_operators _ allow (two_le_parserLevel op) hle]
    cases hchains : chains op with
    | false =>
      rw [chains_eq, decide_eq_false_iff_not, not_not] at hchains
      rw [if_pos hchains]
      exact nonAssociative_read hleft hright (by rw [chains_eq]; simp [hchains]) hallowed hlen
        hstops hends _
    | true =>
      have hbinary := hchains
      rw [chains_eq, decide_eq_true_eq] at hbinary
      rw [if_neg hbinary]
      obtain ⟨fuel, hfuel, hloop⟩ := chain_step hleft hright hchains hallowed allow hlen
        (hstops.mono (le_succ _)) hends
      rw [hloop]
      exact chainLoop_stop (by omega) (operatorOf_of_stops hstops)
  chain := by
    rintro _ _ _ heq hchains depth allow rest hlen hstops hends
    cases heq
    exact chain_step hleft hright hchains hallowed allow hlen hstops hends
  suffix hlevel := by
    have hle := parserLevel_le op
    have hhigh : 13 ≤ parserLevel op := hlevel
    omega

/-! ## Coalescing and assignments -/

theorem coalesce (hleft : Reparses asyncDepth left) (hright : Reparses asyncDepth right) :
    Reparses asyncDepth (.coalesce left right) := by
  refine of_read (by simp [level, parserTable]) (by simp)
    (.inr (hleft.begins.group_append (by simp [endsWord]) (by simp))) ?_
  intro depth allow rest hlen (hstops : Stops 1 rest) _
  have hbody : parserTable.body (.coalesce left right) ++ rest = parserTable.print 2 left ++
        .questionQuestion :: (parserTable.print 1 right ++ rest) := by
    simp only [body, print, parserTable, append_assoc, cons_append]
  rw [hbody] at hlen ⊢
  have hstop : Stops 2 (.questionQuestion :: (parserTable.print 1 right ++ rest)) :=
    stops_cons (by decide) _
  have hreadLeft : logicalOr (parsersOf asyncDepth depth) allow (parserTable.print 2 left ++
      .questionQuestion :: (parserTable.print 1 right ++ rest)) = _ :=
    hleft.read_print allow (by decide) hlen hstop
      (fun _ => endsBefore_of_stops hstop (by decide) left)
  simp only [length_append, length_cons] at hlen
  obtain ⟨depth, rfl⟩ := exists_eq_succ_of_ne_zero (by omega : depth ≠ 0)
  have hread : (parsersOf asyncDepth (depth + 1)).coalesce allow
      (parserTable.print 1 right ++ rest) = .ok (right, rest) :=
    hright.read_print allow (by decide) (by simp only [length_append]; omega) hstops
      (fun _ => endsBefore_of_stops hstops (by decide) right)
  change Parsing.coalesce _ _ _ = _
  rw [Parsing.coalesce, bind_of_ok hreadLeft, bind_of_ok (take_self _ _), if_pos rfl,
    bind_of_ok hread]
  rfl

theorem read_value (hval : Reparses asyncDepth val) (depth : Nat) (allow : Bool)
    (hlen : (parserTable.body val ++ rest).length < depth) (hstops : Stops 0 rest) :
    (parsersOf asyncDepth depth).assignment allow (parserTable.body val ++ rest) =
      .ok (val, rest) :=
  hval.read_expression hlen hstops

theorem read_place {place : Expr} (hplace : Reparses asyncDepth place) (allow : Bool)
    {op : Token} {tail : List Token} (hop : follow op = 1)
    (hlen : (parserTable.print 1 place ++ op :: tail).length ≤ depth) :
    Parsing.coalesce (parsersOf asyncDepth depth) allow
      (parserTable.print 1 place ++ op :: tail) = .ok (place, op :: tail) := by
  have hstops : Stops 1 (op :: tail) := stops_cons (le_of_eq hop) tail
  exact hplace.read_print allow (by decide) hlen hstops
    (fun _ => endsBefore_of_stops hstops (by decide) place)

theorem assign {place : Expr} (hplace : Reparses asyncDepth place)
    (hval : Reparses asyncDepth val) (hassign : place.isAssignablePlace = true) :
    Reparses asyncDepth (.assign place val) := by
  refine of_read (by simp [level, parserTable]) (by simp)
    (.inr (hplace.begins.group_append (by simp [endsWord]) (by simp))) ?_
  intro depth allow rest hlen hstops _
  have hbody : parserTable.body (.assign place val) ++ rest =
      parserTable.print 1 place ++ .equal :: (parserTable.body val ++ rest) := by
    simp only [body, print, parserTable, append_assoc, cons_append]
  rw [hbody] at hlen ⊢
  have hreadPlace := hplace.read_place allow rfl hlen
  simp only [length_append, length_cons] at hlen
  have hread := hval.read_value depth allow
    (by simp only [length_append]; omega) hstops
  change assignment _ _ _ = _
  rw [assignment, bind_of_ok hreadPlace, bind_of_ok (position_apply _),
    bind_of_ok (takeMap_of_none (by simp [operatorOf, compoundOperators])),
    bind_of_ok (position_apply _), bind_of_ok (take_self _ _), if_pos (.inl rfl), bind_of_ok hread,
    if_pos hassign]
  rfl

theorem compoundAssign {place : Expr} (hplace : Reparses asyncDepth place)
    (hval : Reparses asyncDepth val) (hassign : place.isAssignablePlace = true)
    (hop : (compoundToken op).isSome = true) :
    Reparses asyncDepth (.compoundAssign place op val) := by
  obtain ⟨token, htoken⟩ := Option.isSome_iff_exists.mp hop
  have hlookup := operatorOf_compoundToken htoken
  have hfollow := (operatorOf_compound_eq_some hlookup).2
  have hends : endsWord token = false := by
    cases token <;> first | rfl | exact absurd hfollow (by decide)
  have hbody : ∀ rest, parserTable.body (.compoundAssign place op val) ++ rest =
      parserTable.print 1 place ++ token :: (parserTable.body val ++ rest) := by
    intro rest
    simp only [body, print, parserTable, append_assoc,
      cons_append, htoken, Option.toList_some, nil_append]
  refine of_read (by simp [level, parserTable]) (by simp) ?_ ?_
  · have hempty := hbody []
    simp only [append_nil] at hempty
    rw [hempty]
    exact .inr (hplace.begins.group_append (by simp [hends]) (by simp))
  · intro depth allow rest hlen hstops _
    rw [hbody] at hlen ⊢
    have hreadPlace := hplace.read_place allow hfollow hlen
    simp only [length_append, length_cons] at hlen
    have hread := hval.read_value depth allow
      (by simp only [length_append]; omega) hstops
    have hvalueHead : ∀ first ∈ (parserTable.body val ++ rest).head?, first ≠ .equal := by
      rw [List.head?_append_of_ne_nil _ hval.begins.ne_nil]
      rintro first hfst rfl
      exact absurd (hval.begins.head _ hfst) (by decide)
    change assignment _ _ _ = _
    rw [assignment, bind_of_ok hreadPlace, bind_of_ok (position_apply _),
      bind_of_ok (takeMap_of_some hlookup _), bind_of_ok (position_apply _),
      bind_of_ok (take_of_ne hvalueHead), if_pos (.inr rfl), bind_of_ok hread, if_pos hassign]
    rfl

end Reparses

/-! ## All expressions -/

theorem Expressible.reparses (hexpressible : Expressible asyncDepth NoNameBorrowProduct expr) :
    Reparses asyncDepth expr := by
  induction hexpressible with
  | unit =>
    exact .of_primary rfl (.inr rfl) (by simp [body, BeginsSuffixed])
      (fun _ _ _ => rfl)
  | integer val =>
    exact .of_primary rfl (.inr rfl) (by simp [body, BeginsSuffixed])
      (fun _ _ _ => rfl)
  | bool val =>
    cases val <;>
      exact .of_primary rfl (.inr rfl) (by simp [body, BeginsSuffixed])
        (fun _ _ _ => rfl)
  | string val =>
    exact .of_primary rfl (.inr rfl) (by simp [body, BeginsSuffixed])
      (fun _ _ _ => rfl)
  | word hname => exact .word hname
  | root =>
    exact .of_primary rfl (.inr rfl) (by simp [body, nameToken, BeginsSuffixed])
      (fun _ _ _ => rfl)
  | super =>
    exact .of_primary rfl (.inr rfl) (by simp [body, nameToken, BeginsSuffixed])
      (fun _ _ _ => rfl)
  | tuple hfst hrest ihfirst ihrest => exact ihfirst.tuple ihrest
  | array helems ih => exact .array ih
  | unary op hoperand ih => exact ih.unary op
  | borrow haccess hplace hval ih => exact ih.borrow haccess hplace
  | binary hallowed hleft hright ihleft ihright => exact ihleft.binary ihright hallowed
  | coalesce hleft hright ihleft ihright => exact ihleft.coalesce ihright
  | await hasync hoperand ih => exact ih.await hasync
  | assign hassign hplace hval ihplace ihvalue => exact ihplace.assign ihvalue hassign
  | compoundAssign hassign hop hplace hval ihplace ihvalue =>
    exact ihplace.compoundAssign ihvalue hassign hop
  | call hgroups hlabels hcallee hargs ihcallee iharguments =>
    exact ihcallee.call iharguments hgroups hlabels
  | index hbase hidx ihbase ihindex => exact ihbase.index ihindex
  | member hmember hbase ih => exact ih.member hmember
  | chainMember member hbase ih => exact ih.chainMember member
  | raise hoperand ih => exact ih.raise
  | unwrap hoperand ih => exact ih.unwrap

theorem parse_print (hexpressible : Expressible asyncDepth NoNameBorrowProduct expr) :
    parse asyncDepth (parserTable.print 0 expr) = .ok expr := by
  have hprint : parserTable.print 0 expr = parserTable.body expr := by
    rw [print, group, if_neg (not_lt_zero _)]
  have hread : assignment (parsersOf asyncDepth (parserTable.body expr).length) true
      (parserTable.body expr ++ []) = .ok (expr, []) :=
    hexpressible.reparses.read_assignment (by simp) (by simp [Stops])
  rw [append_nil] at hread
  rw [hprint, parse, hread]

end Salicin.Parsing
