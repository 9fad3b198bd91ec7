import Salicin.Codegen.CtfeValue

/-!
# Emitted integer operations

The instructions and guards that the emitter writes for the unary and binary integer
operators, with the meaning LLVM gives them: `sdiv` and its siblings are undefined on a zero
divisor and on the overflowing quotient, shifts on a count that reaches the width, and
`add`, `sub`, `mul` and `shl` without flags wrap.
-/

namespace Salicin.Codegen

inductive UnaryOp
  | neg | not | deref

inductive IcmpPredicate
  | eq | ne | slt | ult | sle | ule | sgt | ugt | sge | uge

inductive LlvmInstruction
  | add | sub | mul
  | sdiv | udiv | srem | urem
  | and | or | xor
  | shl | ashr | lshr
  | icmp (predicate : IcmpPredicate)

/-- How the evaluation of emitted code ends. -/
inductive LlvmOutcome (w : Nat)
  | integer (value : BitVec w)
  | bool (value : Bool)
  | trap
  | undefined

def IcmpPredicate.eval {w : Nat} (predicate : IcmpPredicate) (x y : BitVec w) : Bool :=
  match predicate with
  | .eq => x == y
  | .ne => x != y
  | .slt => x.slt y
  | .ult => x.ult y
  | .sle => x.sle y
  | .ule => x.ule y
  | .sgt => y.slt x
  | .ugt => y.ult x
  | .sge => y.sle x
  | .uge => y.ule x

def LlvmInstruction.eval {w : Nat} (instruction : LlvmInstruction) (x y : BitVec w) :
    LlvmOutcome w :=
  match instruction with
  | .add => .integer (x + y)
  | .sub => .integer (x - y)
  | .mul => .integer (x * y)
  | .sdiv => if y = 0 ∨ x = BitVec.intMin w ∧ y = -1 then .undefined else .integer (x.sdiv y)
  | .udiv => if y = 0 then .undefined else .integer (x.udiv y)
  | .srem => if y = 0 ∨ x = BitVec.intMin w ∧ y = -1 then .undefined else .integer (x.srem y)
  | .urem => if y = 0 then .undefined else .integer (x.umod y)
  | .and => .integer (x &&& y)
  | .or => .integer (x ||| y)
  | .xor => .integer (x ^^^ y)
  | .shl => if y.toNat < w then .integer (x <<< y.toNat) else .undefined
  | .ashr => if y.toNat < w then .integer (x.sshiftRight y.toNat) else .undefined
  | .lshr => if y.toNat < w then .integer (x >>> y.toNat) else .undefined
  | .icmp predicate => .bool (predicate.eval x y)

/-- The instruction for a binary operator. The logical operators have none: they are
emitted as branches. -/
def selectInstruction (signed : Bool) : BinaryOp → Option LlvmInstruction
  | .add => some .add
  | .sub => some .sub
  | .mul => some .mul
  | .div => some (if signed then .sdiv else .udiv)
  | .rem => some (if signed then .srem else .urem)
  | .bitAnd => some .and
  | .bitOr => some .or
  | .bitXor => some .xor
  | .shl => some .shl
  | .shr => some (if signed then .ashr else .lshr)
  | .eq => some (.icmp .eq)
  | .ne => some (.icmp .ne)
  | .lt => some (.icmp (if signed then .slt else .ult))
  | .le => some (.icmp (if signed then .sle else .ule))
  | .gt => some (.icmp (if signed then .sgt else .ugt))
  | .ge => some (.icmp (if signed then .sge else .uge))
  | .and | .or => none

/-- `emit_integer_division_guard`: the condition of the branch to the trap. -/
def integerDivisionGuard (ty : IntegerTy) (left right : BitVec ty.width) : Bool :=
  let isZero := IcmpPredicate.eq.eval right 0
  match nativeTarget.signedMin ty with
  | some minimum =>
    let isMinimum := IcmpPredicate.eq.eval left (BitVec.ofInt _ minimum)
    let isNegativeOne := IcmpPredicate.eq.eval right (-1)
    isZero || (isMinimum && isNegativeOne)
  | none => isZero

/-- `emit_shift_guard`: the condition of the branch to the trap. -/
def shiftGuard (ty : IntegerTy) (right : BitVec ty.width) : Bool :=
  IcmpPredicate.uge.eval right (BitVec.ofNat _ ty.width)

/-- The code of a binary operator on two operands of an integer type. -/
def emitBinary (ty : IntegerTy) (operator : BinaryOp) (left right : BitVec ty.width) :
    LlvmOutcome ty.width :=
  if (operator = .div ∨ operator = .rem) ∧ integerDivisionGuard ty left right then .trap
  else if (operator = .shl ∨ operator = .shr) ∧ shiftGuard ty right then .trap
  else
    match selectInstruction ty.isSigned operator with
    | some instruction => instruction.eval left right
    | none => .undefined

/-- The code of unary minus. -/
def emitNeg (ty : IntegerTy) (operand : BitVec ty.width) : LlvmOutcome ty.width :=
  LlvmInstruction.sub.eval 0 operand

end Salicin.Codegen
