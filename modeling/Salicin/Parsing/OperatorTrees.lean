import Salicin.Parsing.Printing

/-!
# Trees of operators

The trees that are built from atoms with prefix, postfix and infix operators, and how the tokens
that they are printed as begin.
-/

namespace Salicin.Parsing

open List Salicin.Source

/-- A word that names a value where an expression begins. -/
def Word.IsValueName (asyncDepth : Nat) (word : Word) : Prop :=
  word.text ≠ "_" ∧ word.text ≠ "borrow" ∧ word.text ≠ "mut" ∧
    (0 < asyncDepth → word.text ≠ "await")

/-- The access of a borrow that a group before its operand can stand for. -/
def AccessIsWritable (mutable : Bool) (access : Option Word) : Prop :=
  ∀ word ∈ access, mutable = false ∧ word.text ≠ "mut" ∧ word.text ≠ "shared"

/-- A member that can be written after an expression. -/
def MemberIsWritable (base : Expr) : MemberName → Prop
  | .word word => word.text ≠ "_"
  | .index _ => True
  | .super => base.isSuperPathExpression

/-- A tree of operators over atoms. `allowed` restricts the trees of infix operators. -/
inductive Expressible (asyncDepth : Nat) (allowed : Expr → Prop) : Expr → Prop
  | unit : Expressible asyncDepth allowed .unit
  | integer (value : Nat) : Expressible asyncDepth allowed (.integer value)
  | bool (value : Bool) : Expressible asyncDepth allowed (.bool value)
  | string (value : String) : Expressible asyncDepth allowed (.string value)
  | word {word : Word} (hname : word.IsValueName asyncDepth) :
      Expressible asyncDepth allowed (.name (.word word))
  | root : Expressible asyncDepth allowed (.name .root)
  | super : Expressible asyncDepth allowed (.name .super)
  | tuple {field : Expr} {fields : List Expr} (hfst : Expressible asyncDepth allowed field)
      (hrest : ∀ value ∈ fields, Expressible asyncDepth allowed value) :
      Expressible asyncDepth allowed (.tuple (field :: fields))
  | array {elements : List Expr}
      (helems : ∀ value ∈ elements, Expressible asyncDepth allowed value) :
      Expressible asyncDepth allowed (.array elements)
  | unary (operator : UnaryOp) {operand : Expr}
      (hoperand : Expressible asyncDepth allowed operand) :
      Expressible asyncDepth allowed (.unary operator operand)
  | borrow {mutable : Bool} {access : Option Word} {value : Expr}
      (haccess : AccessIsWritable mutable access) (hplace : value.isAssignablePlace = true)
      (hval : Expressible asyncDepth allowed value) :
      Expressible asyncDepth allowed (.borrow mutable access value)
  | binary {left right : Expr} {operator : BinaryOp}
      (hallowed : allowed (.binary left operator right))
      (hleft : Expressible asyncDepth allowed left)
      (hright : Expressible asyncDepth allowed right) :
      Expressible asyncDepth allowed (.binary left operator right)
  | coalesce {left right : Expr} (hleft : Expressible asyncDepth allowed left)
      (hright : Expressible asyncDepth allowed right) :
      Expressible asyncDepth allowed (.coalesce left right)
  | await {operand : Expr} (hasync : 0 < asyncDepth)
      (hoperand : Expressible asyncDepth allowed operand) :
      Expressible asyncDepth allowed (.await operand)
  | assign {place value : Expr} (hassign : place.isAssignablePlace = true)
      (hplace : Expressible asyncDepth allowed place)
      (hval : Expressible asyncDepth allowed value) :
      Expressible asyncDepth allowed (.assign place value)
  | compoundAssign {place value : Expr} {operator : BinaryOp}
      (hassign : place.isAssignablePlace = true)
      (hop : (compoundToken operator).isSome = true)
      (hplace : Expressible asyncDepth allowed place)
      (hval : Expressible asyncDepth allowed value) :
      Expressible asyncDepth allowed (.compoundAssign place operator value)
  | call {callee : Expr} {arguments : List CallArg}
      (hgroups : callee.startsImplicitHandlerGroups = false)
      (hlabels : ∀ first ∈ arguments, ∀ second ∈ arguments,
        first.label.isSome = second.label.isSome)
      (hcallee : Expressible asyncDepth allowed callee)
      (hargs : ∀ argument ∈ arguments, Expressible asyncDepth allowed argument.value) :
      Expressible asyncDepth allowed (.call callee arguments)
  | index {base index : Expr} (hbase : Expressible asyncDepth allowed base)
      (hidx : Expressible asyncDepth allowed index) :
      Expressible asyncDepth allowed (.index base index)
  | member {base : Expr} {member : MemberName} (hmember : MemberIsWritable base member)
      (hbase : Expressible asyncDepth allowed base) :
      Expressible asyncDepth allowed (.member base member)
  | chainMember {base : Expr} (member : Word) (hbase : Expressible asyncDepth allowed base) :
      Expressible asyncDepth allowed (.chainMember base member)
  | raise {operand : Expr} (hoperand : Expressible asyncDepth allowed operand) :
      Expressible asyncDepth allowed (.raise operand)
  | unwrap {operand : Expr} (hoperand : Expressible asyncDepth allowed operand) :
      Expressible asyncDepth allowed (.unwrap operand)

/-- The last operand, printed without parentheses, borrows a name without naming an access. -/
def endsInNameBorrow : Expr → Bool
  | .borrow false none (.name (.word _)) => true
  | .unary _ operand => 12 ≤ parserTable.level operand && endsInNameBorrow operand
  | .await operand => 12 ≤ parserTable.level operand && endsInNameBorrow operand
  | .binary _ operator right =>
    parserTable.right operator ≤ parserTable.level right && endsInNameBorrow right
  | _ => false

/-- A product does not begin with the borrow of a name: `borrow(a) * b` is read as a borrow of
`*b` with the access `a`. -/
def NoNameBorrowProduct : Expr → Prop
  | .binary left .mul _ => ¬ (11 ≤ parserTable.level left ∧ endsInNameBorrow left = true)
  | _ => True

/-! ## How printed expressions begin -/

/-- A token that cannot stand behind the first word of an expression. -/
def endsWord : Token → Bool
  | .colon | .comma | .rParen | .rBracket => true
  | _ => false

/-- A token that no expression begins with. -/
def cannotBegin : Token → Bool
  | .equal => true
  | token => endsWord token

theorem endsWord_of_cannotBegin {token : Token} (htoken : cannotBegin token = false) :
    endsWord token = false := by
  cases token <;> first | rfl | exact htoken

/-- The tokens begin an expression that is no bare word. -/
def BeginsExpression : List Token → Prop
  | [] => False
  | .ident _ :: [] => False
  | .ident _ :: second :: _ => endsWord second = false
  | first :: _ => cannotBegin first = false

variable {tokens : List Token}

theorem BeginsExpression.append (hbegins : BeginsExpression tokens) (rest : List Token) :
    BeginsExpression (tokens ++ rest) := by
  cases tokens with
  | nil => exact hbegins.elim
  | cons first tail =>
    cases first
    case ident word =>
      cases tail with
      | nil => exact hbegins.elim
      | cons second tail => exact hbegins
    all_goals exact hbegins

theorem BeginsExpression.head (hbegins : BeginsExpression tokens) :
    ∀ token ∈ tokens.head?, cannotBegin token = false := by
  intro token htoken
  cases tokens with
  | nil => simp at htoken
  | cons first tail =>
    simp only [List.head?_cons, Option.mem_def, Option.some.injEq] at htoken
    subst htoken
    cases first
    case ident word => rfl
    all_goals exact hbegins

/-- An expression is a bare word, or it begins as other expressions do. -/
def Begins (expr : Expr) (tokens : List Token) : Prop :=
  (∃ word, expr = .name (.word word) ∧ tokens = [.ident word]) ∨ BeginsExpression tokens

variable {expr : Expr}

section
variable (hbegins : Begins expr tokens)
include hbegins

theorem Begins.group (needed level : Nat) :
    Begins expr tokens ∧ OperatorTable.group needed level tokens = tokens ∨
      BeginsExpression (OperatorTable.group needed level tokens) := by
  unfold OperatorTable.group
  split
  · exact .inr rfl
  · exact .inl ⟨hbegins, rfl⟩

theorem Begins.group_append {rest : List Token} {needed level : Nat}
    (hrest : ∀ token ∈ rest.head?, endsWord token = false) (hne : rest ≠ []) :
    BeginsExpression (OperatorTable.group needed level tokens ++ rest) := by
  rcases hbegins.group needed level with ⟨hbegins, heq⟩ | hgroup
  · rw [heq]
    rcases hbegins with ⟨word, _, rfl⟩ | hbegins
    · obtain ⟨token, tail, rfl⟩ := exists_cons_of_ne_nil hne
      exact hrest token rfl
    · exact hbegins.append rest
  · exact hgroup.append rest

theorem Begins.head : ∀ token ∈ tokens.head?, cannotBegin token = false := by
  rcases hbegins with ⟨word, _, rfl⟩ | hbegins
  · simp [cannotBegin, endsWord]
  · exact hbegins.head

theorem Begins.ne_nil : tokens ≠ [] := by
  rintro rfl
  rcases hbegins with ⟨word, _, hword⟩ | hbegins
  · exact cons_ne_nil _ _ hword.symm
  · exact hbegins

theorem Begins.word_group {needed level : Nat} (word : Word) :
    BeginsExpression (.ident word :: OperatorTable.group needed level tokens) := by
  have hhead : ∀ token ∈ (OperatorTable.group needed level tokens).head?,
      cannotBegin token = false := by
    rcases hbegins.group needed level with ⟨hbegins, heq⟩ | hgroup
    · rw [heq]
      exact hbegins.head
    · exact hgroup.head
  have hne : OperatorTable.group needed level tokens ≠ [] := by
    unfold OperatorTable.group
    split
    · exact cons_ne_nil _ _
    · exact hbegins.ne_nil
  obtain ⟨first, tail, heq⟩ := exists_cons_of_ne_nil hne
  rw [heq] at hhead ⊢
  exact endsWord_of_cannotBegin (hhead first rfl)

end

theorem endsWord_binaryToken (operator : BinaryOp) : endsWord (binaryToken operator) = false := by
  cases operator <;> rfl

/-- A token that begins what has no prefix operator. -/
def BeginsSuffixed (asyncDepth : Nat) : Token → Prop
  | .ident word => word.text ≠ "borrow" ∧ word.text ≠ "mut" ∧ (0 < asyncDepth → word.text ≠ "await")
  | .minus | .bang | .star => False
  | _ => True

theorem begins_group_suffixed {depth level : Nat} (hne : tokens ≠ [])
    (hbare : 13 ≤ level → ∀ token ∈ tokens.head?,
      BeginsSuffixed depth token) {needed : Nat} (hneeded : 13 ≤ needed) (rest : List Token) :
    ∀ token ∈ (OperatorTable.group needed level tokens ++ rest).head?,
      BeginsSuffixed depth token := by
  unfold OperatorTable.group
  split
  · intro token htoken
    simp only [cons_append, List.head?_cons, Option.mem_def, Option.some.injEq] at htoken
    subst htoken
    trivial
  · next hlevel =>
      rw [List.head?_append_of_ne_nil _ hne]
      exact hbare (by omega)

end Salicin.Parsing
