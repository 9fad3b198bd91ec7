import Salicin.Parsing.OperatorTrees
import Salicin.Parsing.Expressions

/-!
# The operator grammar

The token sequences of each level of an operator table, with the trees that they stand for. An
operand in parentheses is of every level. Arguments without parentheses and nested trailing
calls are suffixes of their own; they do not follow where trailing groups are not allowed.
-/

namespace Salicin.Parsing

open Salicin.Source

/-- The group before the operand of a borrow, where a region may follow the access. -/
inductive BorrowQualifier : Bool → Option Word → List Token → Prop
  | none : BorrowQualifier false none []
  | group (word : Word) {region : List Token}
      (hregion : region = [] ∨ ∃ name, region = [.comma, .ident name]) :
      BorrowQualifier (word.text = "mut")
        (if word.text = "mut" ∨ word.text = "shared" then none else some word)
        (.lParen :: .ident word :: (region ++ [.rParen]))

mutual

/-- The tokens of a level of the table, with or without trailing groups, and their tree. -/
inductive Derives (table : OperatorTable) (asyncDepth : Nat) :
    Nat → Bool → List Token → Expr → Prop
  | looser {low high : Nat} {trailing : Bool} {tokens : List Token} {expression : Expr}
      (hle : low ≤ high) (hexpr : Derives table asyncDepth high trailing tokens expression) :
      Derives table asyncDepth low trailing tokens expression
  | assign {trailing : Bool} {front tokens : List Token} {place value : Expr}
      (hassign : place.isAssignablePlace = true)
      (hplace : Derives table asyncDepth table.place trailing front place)
      (hval : Derives table asyncDepth table.assignment trailing tokens value) :
      Derives table asyncDepth table.assignment trailing (front ++ .equal :: tokens)
        (.assign place value)
  | compoundAssign {trailing : Bool} {front tokens : List Token} {place value : Expr}
      {operator : BinaryOp} {token : Token} (htoken : compoundToken operator = some token)
      (hassign : place.isAssignablePlace = true)
      (hplace : Derives table asyncDepth table.place trailing front place)
      (hval : Derives table asyncDepth table.assignment trailing tokens value) :
      Derives table asyncDepth table.assignment trailing (front ++ token :: tokens)
        (.compoundAssign place operator value)
  | coalesce {trailing : Bool} {front tokens : List Token} {left right : Expr}
      (hleft : Derives table asyncDepth table.coalesceLeft trailing front left)
      (hright : Derives table asyncDepth table.coalesceRight trailing tokens right) :
      Derives table asyncDepth table.coalesce trailing (front ++ .questionQuestion :: tokens)
        (.coalesce left right)
  | binary {trailing : Bool} {front tokens : List Token} {left right : Expr} (operator : BinaryOp)
      (hleft : Derives table asyncDepth (table.left operator) trailing front left)
      (hright : Derives table asyncDepth (table.right operator) trailing tokens right) :
      Derives table asyncDepth (table.binary operator) trailing
        (front ++ binaryToken operator :: tokens) (.binary left operator right)
  | unary {trailing : Bool} {tokens : List Token} {operand : Expr} (operator : UnaryOp)
      (hoperand : Derives table asyncDepth table.prefixed trailing tokens operand) :
      Derives table asyncDepth table.prefixed trailing (unaryToken operator :: tokens)
        (.unary operator operand)
  | await {trailing : Bool} {tokens : List Token} {operand : Expr} {word : Word}
      (hasync : 0 < asyncDepth) (hword : word.text = "await")
      (hoperand : Derives table asyncDepth table.prefixed trailing tokens operand) :
      Derives table asyncDepth table.prefixed trailing (.ident word :: tokens) (.await operand)
  | borrow {trailing mutable : Bool} {access : Option Word} {qualifier tokens : List Token}
      {value : Expr} {word : Word} (hword : word.text = "borrow")
      (hqualifier : BorrowQualifier mutable access qualifier)
      (hassign : value.isAssignablePlace = true)
      (hval : Derives table asyncDepth table.assignment true tokens value) :
      Derives table asyncDepth table.prefixed trailing
        (.ident word :: (qualifier ++ .lParen :: (tokens ++ [.rParen])))
        (.borrow mutable access value)
  | mutName {trailing : Bool} {word : Word} (hword : word.text = "mut") :
      Derives table asyncDepth table.prefixed trailing [.ident word] (.name (.word word))
  | call {trailing : Bool} {front group tokens : List Token} {callee : Expr} {arguments : List CallArg}
      (hgroups : callee.startsImplicitHandlerGroups = false)
      (hlabels : ∀ first ∈ arguments, ∀ second ∈ arguments,
        first.label.isSome = second.label.isSome)
      (hcallee : Derives table asyncDepth table.base trailing front callee)
      (hargs : DerivesArguments table asyncDepth group arguments)
      (hclosing : tokens = group ∨ arguments ≠ [] ∧ tokens = group ++ [.comma]) :
      Derives table asyncDepth table.suffixed trailing
        (front ++ .lParen :: (tokens ++ [.rParen])) (.call callee arguments)
  | bareCall {front tokens : List Token} {callee argument : Expr}
      (hstart : bareCallArgumentCanStart tokens = true)
      (hcallee : Derives table asyncDepth table.base true front callee)
      (harg : Derives table asyncDepth table.prefixed false tokens argument) :
      Derives table asyncDepth table.suffixed true (front ++ tokens)
        (.call callee [.mk none argument])
  | trailingCall {front tokens : List Token} {callee nested : Expr} (label : Word)
      (hcallee : Derives table asyncDepth table.base true front callee)
      (hnested : Derives table asyncDepth table.assignment true tokens nested) :
      Derives table asyncDepth table.suffixed true (front ++ .ident label :: tokens)
        (.call callee [.mk (some label) (.closure nested)])
  | index {trailing : Bool} {front tokens : List Token} {base index : Expr}
      (hbase : Derives table asyncDepth table.base trailing front base)
      (hidx : Derives table asyncDepth table.assignment true tokens index) :
      Derives table asyncDepth table.suffixed trailing
        (front ++ .lBracket :: (tokens ++ [.rBracket])) (.index base index)
  | member {trailing : Bool} {front : List Token} {base : Expr} {member : MemberName}
      (hmember : MemberIsWritable base member)
      (hbase : Derives table asyncDepth table.base trailing front base) :
      Derives table asyncDepth table.suffixed trailing (front ++ [.dot, memberToken member])
        (.member base member)
  | chainMember {trailing : Bool} {front : List Token} {base : Expr} (member : Word)
      (hbase : Derives table asyncDepth table.base trailing front base) :
      Derives table asyncDepth table.suffixed trailing (front ++ [.questionDot, .ident member])
        (.chainMember base member)
  | raise {trailing : Bool} {front : List Token} {operand : Expr}
      (hoperand : Derives table asyncDepth table.propagated trailing front operand) :
      Derives table asyncDepth table.propagation trailing (front ++ [.bang]) (.raise operand)
  | unwrap {trailing : Bool} {front : List Token} {operand : Expr}
      (hoperand : Derives table asyncDepth table.propagated trailing front operand) :
      Derives table asyncDepth table.propagation trailing (front ++ [.bang, .bang])
        (.unwrap operand)
  | integer {trailing : Bool} (value : Nat) :
      Derives table asyncDepth table.primary trailing [.integer value] (.integer value)
  | bool {trailing : Bool} (value : Bool) :
      Derives table asyncDepth table.primary trailing [if value then .true else .false]
        (.bool value)
  | string {trailing : Bool} (value : String) :
      Derives table asyncDepth table.primary trailing [.string value] (.string value)
  | word {trailing : Bool} {word : Word} (hword : word.text ≠ "_") :
      Derives table asyncDepth table.primary trailing [.ident word] (.name (.word word))
  | root {trailing : Bool} :
      Derives table asyncDepth table.primary trailing [.root] (.name .root)
  | super {trailing : Bool} :
      Derives table asyncDepth table.primary trailing [.super] (.name .super)
  | unit {trailing : Bool} :
      Derives table asyncDepth table.primary trailing [.lParen, .rParen] .unit
  | parenthesized {trailing : Bool} {tokens : List Token} {expression : Expr}
      (hexpr : Derives table asyncDepth table.assignment true tokens expression) :
      Derives table asyncDepth table.primary trailing (.lParen :: (tokens ++ [.rParen]))
        expression
  | tuple {trailing : Bool} {group tokens : List Token} {fields : List Expr}
      (hfields : DerivesElements table asyncDepth group fields)
      (hclosing : 1 ≤ fields.length ∧ tokens = group ++ [.comma] ∨
        2 ≤ fields.length ∧ tokens = group) :
      Derives table asyncDepth table.primary trailing (.lParen :: (tokens ++ [.rParen]))
        (.tuple fields)
  | array {trailing : Bool} {group tokens : List Token} {elements : List Expr}
      (helems : DerivesElements table asyncDepth group elements)
      (hclosing : tokens = group ∨ elements ≠ [] ∧ tokens = group ++ [.comma]) :
      Derives table asyncDepth table.primary trailing (.lBracket :: (tokens ++ [.rBracket]))
        (.array elements)

/-- Expressions with commas between them. -/
inductive DerivesElements (table : OperatorTable) (asyncDepth : Nat) :
    List Token → List Expr → Prop
  | none : DerivesElements table asyncDepth [] []
  | one {tokens : List Token} {value : Expr}
      (hval : Derives table asyncDepth table.assignment true tokens value) :
      DerivesElements table asyncDepth tokens [value]
  | more {front tokens : List Token} {values : List Expr} {value : Expr} (hne : values ≠ [])
      (hvals : DerivesElements table asyncDepth front values)
      (hval : Derives table asyncDepth table.assignment true tokens value) :
      DerivesElements table asyncDepth (front ++ .comma :: tokens) (values ++ [value])

/-- Arguments with commas between them. -/
inductive DerivesArguments (table : OperatorTable) (asyncDepth : Nat) :
    List Token → List CallArg → Prop
  | none : DerivesArguments table asyncDepth [] []
  | one {tokens : List Token} {value : Expr} (label : Option Word)
      (hval : Derives table asyncDepth table.assignment true tokens value) :
      DerivesArguments table asyncDepth (labelTokens label ++ tokens) [.mk label value]
  | more {front tokens : List Token} {arguments : List CallArg} {value : Expr}
      (label : Option Word) (hne : arguments ≠ [])
      (hargs : DerivesArguments table asyncDepth front arguments)
      (hval : Derives table asyncDepth table.assignment true tokens value) :
      DerivesArguments table asyncDepth (front ++ .comma :: (labelTokens label ++ tokens))
        (arguments ++ [.mk label value])

end

end Salicin.Parsing
