import Salicin.Codegen.Calls.Hir
import Salicin.Foundation.SelfDelimiting

/-!
# Canonical type encodings

The text that stands for a type in a generated name. It is a keyword and then the parts of the
type. A part that is a text comes behind its length in bytes, and parts that may be many come
behind their number or begin with a letter, so a text is the encoding of at most one type.
-/

namespace Salicin.Codegen.Names

open List

open Calls (CallableKind)
open SelfDelimiting

/-! ## Types -/

/-- The name of a region: an identifier of the source or a name of the compiler's own. -/
structure RegionName where
  text : String
  nonempty : text ≠ ""

mutual

/-- The types that have a canonical name, as `Ty` has them: the captures of a callable have a pass
mode, and references a region. -/
inductive Ty
  | integer (kind : IntegerTy)
  | bool
  | unit
  | tuple (fields : List Ty)
  | pointer (pointee : Ty) (mutable : Bool)
  | reference (pointee : Ty) (mutable : Bool) (region : Option RegionName)
  | array (element : Ty) (length : Nat)
  | slice (element : Ty)
  | str
  | struct (name : String)
  | enum (name : String)
  | never
  | function (function : FunctionTy)
  | callable (callable : CallableTy)
  | continuation (input output : Ty)
  | effectCallable (input output answer : Ty)
  | effectRow (unsafety : Bool) (failureError : Option Ty) (customEffects : List String)
  | error

structure FunctionTy where
  groups : List (List Ty)
  unsafety : Bool
  failureError : Option Ty
  customEffects : List String
  result : Ty

structure CallableTy where
  signature : FunctionTy
  captures : List CallableCaptureTy
  kind : CallableKind

structure CallableCaptureTy where
  ty : Ty
  mode : PassMode

end

/-! ## The encoding -/

/-- What `push_canonical_component` adds to the output. -/
def canonicalComponent (component : String) : String :=
  toString component.utf8ByteSize ++ ":" ++ component

/-- The components of a list of effects. -/
def effectComponents : List String → String
  | [] => ""
  | effect :: rest => canonicalComponent effect ++ effectComponents rest

def integerName : IntegerTy → String
  | .i8 => "i8" | .i16 => "i16" | .i32 => "i32" | .i64 => "i64" | .i128 => "i128"
  | .isize => "isize"
  | .u8 => "u8" | .u16 => "u16" | .u32 => "u32" | .u64 => "u64" | .u128 => "u128"
  | .usize => "usize"

def passModeLetter : PassMode → String
  | .inferred => "i"
  | .copy => "c"
  | .move => "m"
  | .borrow => "b"
  | .mutBorrow => "u"

/-- `u8::from`, as text. -/
def bitText (bit : Bool) : String := if bit then "1" else "0"

def callableKindEncoding : CallableKind → String
  | .partialCall function consumedGroups isFnMut isFnOnce =>
    String.join ["p", canonicalComponent function, toString consumedGroups, ":", bitText isFnMut, ":",
      bitText isFnOnce, ":"]
  | .closure function isFnMut isFnOnce =>
    String.join ["c", canonicalComponent function, bitText isFnMut, ":", bitText isFnOnce, ":"]

def regionComponent : Option RegionName → String
  | some region => canonicalComponent region.text
  | none => "0:"

/-- The text of a function type, of the texts of its parts. -/
def functionText (groupCount : Nat) (groups : String) (unsafety : Bool) (failure : String)
    (customEffects : List String) (result : String) : String :=
  String.join ["function", toString groupCount, ":", groups, if unsafety then "u:" else "p:", failure,
    toString customEffects.length, ":", effectComponents customEffects, canonicalComponent result]

mutual

/-- `canonical_type_encoding`. -/
def canonicalTypeEncoding : Ty → String
  | .integer kind => integerName kind
  | .bool => "bool"
  | .unit => "unit"
  | .tuple fields => String.join ["tuple", toString fields.length, ":", typeComponents fields]
  | .pointer pointee mutable =>
    (if mutable then "mutptr" else "ptr") ++ canonicalComponent (canonicalTypeEncoding pointee)
  | .reference pointee mutable region =>
    String.join [if mutable then "mutref" else "ref", regionComponent region,
      canonicalComponent (canonicalTypeEncoding pointee)]
  | .array element length =>
    String.join ["array", toString length, ":", canonicalComponent (canonicalTypeEncoding element)]
  | .slice element => "slice" ++ canonicalComponent (canonicalTypeEncoding element)
  | .str => "str"
  | .struct name => "struct" ++ canonicalComponent name
  | .enum name => "enum" ++ canonicalComponent name
  | .never => "never"
  | .function function => functionTypeEncoding function
  | .callable callable => callableTypeEncoding callable
  | .continuation input output =>
    String.join ["continuation", canonicalComponent (canonicalTypeEncoding input),
      canonicalComponent (canonicalTypeEncoding output)]
  | .effectCallable input output answer =>
    String.join ["effect-callable", canonicalComponent (canonicalTypeEncoding input),
      canonicalComponent (canonicalTypeEncoding output),
      canonicalComponent (canonicalTypeEncoding answer)]
  | .effectRow unsafety failureError customEffects =>
    String.join [if unsafety then "effect-row-u" else "effect-row-p", failureEncoding failureError,
      toString customEffects.length, ":", effectComponents customEffects]
  | .error => "error"
termination_by structural ty => ty

def functionTypeEncoding : FunctionTy → String
  | ⟨groups, unsafety, failureError, customEffects, result⟩ =>
    functionText groups.length (groupComponents groups) unsafety (failureEncoding failureError)
      customEffects (canonicalTypeEncoding result)
termination_by structural function => function

def callableTypeEncoding : CallableTy → String
  | ⟨signature, captures, kind⟩ =>
    String.join ["callable", callableKindEncoding kind, captureComponents captures,
      canonicalComponent (functionTypeEncoding signature)]
termination_by structural callable => callable

def captureEncoding : CallableCaptureTy → String
  | ⟨ty, mode⟩ => passModeLetter mode ++ canonicalComponent (canonicalTypeEncoding ty)
termination_by structural capture => capture

def typeComponents : List Ty → String
  | [] => ""
  | ty :: rest => canonicalComponent (canonicalTypeEncoding ty) ++ typeComponents rest
termination_by structural types => types

def groupComponents : List (List Ty) → String
  | [] => ""
  | group :: rest =>
    String.join [toString group.length, ":", typeComponents group, groupComponents rest]
termination_by structural groups => groups

def captureComponents : List CallableCaptureTy → String
  | [] => ""
  | capture :: rest => captureEncoding capture ++ captureComponents rest
termination_by structural captures => captures

def failureEncoding : Option Ty → String
  | some failure => "t:" ++ canonicalComponent (canonicalTypeEncoding failure)
  | none => "n:"
termination_by structural failure => failure

end

/-! ## The encoding as a list of characters -/

def typeText (ty : Ty) : List Char := (canonicalTypeEncoding ty).toList

def captureText (capture : CallableCaptureTy) : List Char :=
  (passModeLetter capture.mode).toList ++ component (typeText capture.ty)

theorem toList_canonicalComponent (text : String) :
    (canonicalComponent text).toList = component text.toList := by
  rw [canonicalComponent, component, number, String.toList_append, String.toList_append,
    toList_toString, utf8ByteSize_eq]
  rfl

theorem colon_toList : ":".toList = [':'] := rfl

theorem toList_join_cons (text : String) (rest : List String) :
    (String.join (text :: rest)).toList = text.toList ++ (String.join rest).toList := by
  rw [String.join_cons, String.toList_append]

theorem toList_join_nil : (String.join []).toList = [] := by
  rw [String.join_nil]
  rfl

theorem toList_typeComponents (types : List Ty) :
    (typeComponents types).toList = types.flatMap fun ty => component (typeText ty) := by
  induction types with
  | nil => rfl
  | cons ty rest ih =>
    rw [typeComponents, String.toList_append, toList_canonicalComponent, ih]
    rfl

theorem toList_groupComponents (groups : List (List Ty)) :
    (groupComponents groups).toList = groups.flatMap fun group =>
      number group.length ++ group.flatMap fun ty => component (typeText ty) := by
  induction groups with
  | nil => rfl
  | cons group rest ih =>
    rw [groupComponents, flatMap_cons, number, ← ih]
    simp only [toList_join_cons, toList_join_nil, toList_toString, colon_toList,
      toList_typeComponents, append_assoc, append_nil]

theorem toList_captureComponents (captures : List CallableCaptureTy) :
    (captureComponents captures).toList = captures.flatMap captureText := by
  induction captures with
  | nil => rfl
  | cons capture rest ih =>
    obtain ⟨ty, mode⟩ := capture
    rw [captureComponents, captureEncoding, String.toList_append, String.toList_append,
      toList_canonicalComponent, ih]
    rfl

theorem toList_effectComponents (effects : List String) :
    (effectComponents effects).toList = effects.flatMap fun effect => component effect.toList := by
  induction effects with
  | nil => rfl
  | cons effect rest ih =>
    rw [effectComponents, String.toList_append, toList_canonicalComponent, ih]
    rfl

/-! ## Keywords -/

/-- What the keyword of a type says. -/
inductive Shape
  | integer (signed pointerSized : Bool)
  | bool
  | unit
  | tuple
  | pointer (mutable : Bool)
  | reference (mutable : Bool)
  | array
  | slice
  | str
  | struct
  | enum
  | never
  | function
  | callable (partialCall : Bool)
  | continuation
  | effectCallable
  | effectRow (unsafety failing : Bool)
  | error
  deriving DecidableEq

/-- The characters of the encoding before its first digit. -/
def Shape.keyword : Shape → String
  | .integer true false => "i"
  | .integer true true => "isize"
  | .integer false false => "u"
  | .integer false true => "usize"
  | .bool => "bool"
  | .unit => "unit"
  | .tuple => "tuple"
  | .pointer mutable => if mutable then "mutptr" else "ptr"
  | .reference mutable => if mutable then "mutref" else "ref"
  | .array => "array"
  | .slice => "slice"
  | .str => "str"
  | .struct => "struct"
  | .enum => "enum"
  | .never => "never"
  | .function => "function"
  | .callable partialCall => if partialCall then "callablep" else "callablec"
  | .continuation => "continuation"
  | .effectCallable => "effect-callable"
  | .effectRow unsafety failing =>
    (if unsafety then "effect-row-u" else "effect-row-p") ++ if failing then "t:" else "n:"
  | .error => "error"

def Shape.all : List Shape :=
  [.integer true false, .integer true true, .integer false false, .integer false true, .bool, .unit,
    .tuple, .pointer true, .pointer false, .reference true, .reference false, .array, .slice, .str,
    .struct, .enum, .never, .function, .callable true, .callable false, .continuation,
    .effectCallable, .effectRow true true, .effectRow true false, .effectRow false true,
    .effectRow false false, .error]

theorem Shape.mem_all (shape : Shape) : shape ∈ Shape.all := by
  cases shape with
  | integer signed pointerSized => cases signed <;> cases pointerSized <;> decide
  | pointer mutable => cases mutable <;> decide
  | reference mutable => cases mutable <;> decide
  | callable partialCall => cases partialCall <;> decide
  | effectRow unsafety failing => cases unsafety <;> cases failing <;> decide
  | _ => decide

theorem Shape.keyword_injective : Function.Injective Shape.keyword := by
  have hnodup : (Shape.all.map Shape.keyword).Nodup := by decide
  intro shape other hkeyword
  exact inj_on_of_nodup_map hnodup shape.mem_all other.mem_all hkeyword

theorem Shape.keyword_letters (shape : Shape) :
    ∀ char ∈ shape.keyword.toList, ¬ char.isDigit = true := by
  have hall : (Shape.all.all fun shape => shape.keyword.toList.all fun char => !char.isDigit) = true := by
    decide
  intro char hchar
  simpa using all_eq_true.mp (all_eq_true.mp hall shape shape.mem_all) char hchar

/-! ## The parts behind a keyword -/

def IntegerTy.isSigned : IntegerTy → Bool
  | .i8 | .i16 | .i32 | .i64 | .i128 | .isize => true
  | .u8 | .u16 | .u32 | .u64 | .u128 | .usize => false

def IntegerTy.isPointerSized : IntegerTy → Bool
  | .isize | .usize => true
  | _ => false

def IntegerTy.digits : IntegerTy → List Char
  | .i8 | .u8 => ['8']
  | .i16 | .u16 => ['1', '6']
  | .i32 | .u32 => ['3', '2']
  | .i64 | .u64 => ['6', '4']
  | .i128 | .u128 => ['1', '2', '8']
  | .isize | .usize => []

def CallableKind.isPartial : CallableKind → Bool
  | .partialCall .. => true
  | .closure .. => false

def flagText (bit : Bool) : List Char := (bitText bit).toList ++ [':']

def CallableKind.content : CallableKind → List Char
  | .partialCall function consumedGroups isFnMut isFnOnce =>
    component function.toList ++ (number consumedGroups ++ (flagText isFnMut ++ flagText isFnOnce))
  | .closure function isFnMut isFnOnce =>
    component function.toList ++ (flagText isFnMut ++ flagText isFnOnce)

def FunctionTy.content (function : FunctionTy) : List Char :=
  (number function.groups.length ++ function.groups.flatMap fun group =>
      number group.length ++ group.flatMap fun ty => component (typeText ty)) ++
    ((if function.unsafety then ['u', ':'] else ['p', ':']) ++
      ((function.failureError.elim ['n', ':'] fun failure =>
          ['t', ':'] ++ component (typeText failure)) ++
        ((number function.customEffects.length ++
            function.customEffects.flatMap fun effect => component effect.toList) ++
          component (typeText function.result))))

def Ty.shape : Ty → Shape
  | .integer kind => .integer (IntegerTy.isSigned kind) (IntegerTy.isPointerSized kind)
  | .bool => .bool
  | .unit => .unit
  | .tuple _ => .tuple
  | .pointer _ mutable => .pointer mutable
  | .reference _ mutable _ => .reference mutable
  | .array _ _ => .array
  | .slice _ => .slice
  | .str => .str
  | .struct _ => .struct
  | .enum _ => .enum
  | .never => .never
  | .function _ => .function
  | .callable called => .callable (CallableKind.isPartial called.kind)
  | .continuation _ _ => .continuation
  | .effectCallable _ _ _ => .effectCallable
  | .effectRow unsafety failureError _ => .effectRow unsafety failureError.isSome
  | .error => .error

def regionText (region : Option RegionName) : List Char :=
  region.elim [] fun region => region.text.toList

def Ty.content : Ty → List Char
  | .integer kind => IntegerTy.digits kind
  | .tuple fields => number fields.length ++ fields.flatMap fun ty => component (typeText ty)
  | .pointer pointee _ => component (typeText pointee)
  | .reference pointee _ region => component (regionText region) ++ component (typeText pointee)
  | .array element length => number length ++ component (typeText element)
  | .slice element => component (typeText element)
  | .struct name | .enum name => component name.toList
  | .function signature => signature.content
  | .callable called =>
    CallableKind.content called.kind ++ (called.captures.flatMap captureText ++
      component (typeText (.function called.signature)))
  | .continuation input output => component (typeText input) ++ component (typeText output)
  | .effectCallable input output answer =>
    component (typeText input) ++ (component (typeText output) ++ component (typeText answer))
  | .effectRow _ failureError customEffects =>
    (failureError.elim [] fun failure => component (typeText failure)) ++
      (number customEffects.length ++ customEffects.flatMap fun effect => component effect.toList)
  | .bool | .unit | .str | .never | .error => []

theorem toList_regionComponent (region : Option RegionName) :
    (regionComponent region).toList = component (regionText region) := by
  cases region with
  | none => rfl
  | some region => exact toList_canonicalComponent region.text

theorem toList_failureEncoding (failureError : Option Ty) : (failureEncoding failureError).toList =
      failureError.elim ['n', ':'] fun failure => ['t', ':'] ++ component (typeText failure) := by
  cases failureError with
  | none => rfl
  | some failure =>
    rw [failureEncoding, String.toList_append, toList_canonicalComponent]
    rfl

theorem toList_functionTypeEncoding (function : FunctionTy) :
    (functionTypeEncoding function).toList = Shape.function.keyword.toList ++ function.content := by
  obtain ⟨groups, unsafety, failureError, customEffects, res⟩ := function
  have hunsafety : (if unsafety then "u:" else "p:").toList =
      if unsafety then ['u', ':'] else ['p', ':'] := by
    cases unsafety <;> rfl
  simp only [functionTypeEncoding, functionText, FunctionTy.content, Shape.keyword, number,
    toList_join_cons, toList_join_nil, toList_canonicalComponent, toList_groupComponents,
    toList_effectComponents, toList_failureEncoding, toList_toString, colon_toList, hunsafety,
    typeText, append_assoc, append_nil]

theorem toList_callableKindEncoding (kind : CallableKind) : (callableKindEncoding kind).toList =
      (if CallableKind.isPartial kind then "p" else "c").toList ++ CallableKind.content kind := by
  cases kind with
  | partialCall function consumedGroups isFnMut isFnOnce =>
    simp only [callableKindEncoding, CallableKind.content, CallableKind.isPartial, number, flagText,
      toList_join_cons, toList_join_nil, toList_canonicalComponent, toList_toString, colon_toList,
      append_assoc, append_nil, if_true]
  | closure function isFnMut isFnOnce =>
    simp only [callableKindEncoding, CallableKind.content, CallableKind.isPartial, flagText,
      toList_join_cons, toList_join_nil, toList_canonicalComponent, colon_toList,
      append_assoc, append_nil, Bool.false_eq_true, if_false]

theorem typeText_eq (ty : Ty) : typeText ty = ty.shape.keyword.toList ++ ty.content := by
  cases ty with
  | integer kind => cases kind <;> rfl
  | tuple fields =>
    simp only [typeText, canonicalTypeEncoding, Ty.shape, Ty.content, Shape.keyword, number,
      toList_join_cons, toList_join_nil, toList_toString, colon_toList, toList_typeComponents,
      append_assoc, append_nil]
  | pointer pointee mutable =>
    simp only [typeText, canonicalTypeEncoding, Ty.shape, Ty.content, Shape.keyword,
      String.toList_append, toList_canonicalComponent]
  | reference pointee mutable region =>
    simp only [typeText, canonicalTypeEncoding, Ty.shape, Ty.content, Shape.keyword,
      toList_join_cons, toList_join_nil, toList_canonicalComponent, toList_regionComponent,
      append_nil]
  | array element len =>
    simp only [typeText, canonicalTypeEncoding, Ty.shape, Ty.content, Shape.keyword, number,
      toList_join_cons, toList_join_nil, toList_toString, colon_toList,
      toList_canonicalComponent, append_assoc, append_nil]
  | slice element =>
    simp only [typeText, canonicalTypeEncoding, Ty.shape, Ty.content, Shape.keyword,
      String.toList_append, toList_canonicalComponent]
  | struct name =>
    simp only [typeText, canonicalTypeEncoding, Ty.shape, Ty.content, Shape.keyword,
      String.toList_append, toList_canonicalComponent]
  | enum name =>
    simp only [typeText, canonicalTypeEncoding, Ty.shape, Ty.content, Shape.keyword,
      String.toList_append, toList_canonicalComponent]
  | function signature => exact toList_functionTypeEncoding signature
  | callable called =>
    obtain ⟨signature, captures, kind⟩ := called
    have hkeyword : (Shape.keyword (.callable (CallableKind.isPartial kind))).toList =
        "callable".toList ++ (if CallableKind.isPartial kind then "p" else "c").toList := by
      cases CallableKind.isPartial kind <;> decide
    simp only [typeText, canonicalTypeEncoding, callableTypeEncoding, Ty.shape, Ty.content,
      hkeyword, toList_join_cons, toList_join_nil, toList_canonicalComponent,
      toList_callableKindEncoding, toList_captureComponents, append_assoc, append_nil]
  | continuation input output =>
    simp only [typeText, canonicalTypeEncoding, Ty.shape, Ty.content, Shape.keyword,
      toList_join_cons, toList_join_nil, toList_canonicalComponent, append_nil]
  | effectCallable input output answer =>
    simp only [typeText, canonicalTypeEncoding, Ty.shape, Ty.content, Shape.keyword,
      toList_join_cons, toList_join_nil, toList_canonicalComponent, append_nil]
  | effectRow unsafety failureError customEffects =>
    have hfail : (failureEncoding failureError).toList =
        (if failureError.isSome then "t:" else "n:").toList ++
          failureError.elim [] fun failure => component (typeText failure) := by
      rw [toList_failureEncoding]
      cases failureError with
      | none => rfl
      | some failure =>
        simp only [Option.isSome_some, if_true, Option.elim]
        rfl
    simp only [typeText, canonicalTypeEncoding, Ty.shape, Ty.content, Shape.keyword, number,
      String.toList_append, toList_join_cons, toList_join_nil, toList_toString, colon_toList,
      toList_effectComponents, hfail, append_assoc, append_nil]
  | bool => rfl
  | unit => rfl
  | str => rfl
  | never => rfl
  | error => rfl

/-! ## The encoding determines the type -/

theorem Ty.content_head (ty : Ty) : ∀ char ∈ ty.content.head?, char.isDigit = true := by
  have hnum : ∀ count rest, ∀ char ∈ (number count ++ rest).head?, char.isDigit = true := by
    intro count rest char hchar
    obtain ⟨first, hfst, hdigit⟩ := number_head count rest
    obtain rfl : first = char := Option.some.inj (hfst.symm.trans hchar)
    exact hdigit
  have hcomp : ∀ text rest, ∀ char ∈ (component text ++ rest).head?, char.isDigit = true := by
    intro text rest
    rw [component, append_assoc]
    exact hnum _ _
  cases ty with
  | integer kind =>
    have hdigits : (IntegerTy.digits kind).all Char.isDigit = true := by
      cases kind <;> decide
    exact fun char hchar => all_eq_true.mp hdigits char (mem_of_head? hchar)
  | tuple fields => exact hnum _ _
  | pointer pointee mutable => exact hnum _ _
  | reference pointee mutable region => exact hcomp _ _
  | array element len => exact hnum _ _
  | slice element => exact hnum _ _
  | struct name => exact hnum _ _
  | enum name => exact hnum _ _
  | function signature =>
    rw [Ty.content, FunctionTy.content, append_assoc]
    exact hnum _ _
  | callable called =>
    obtain ⟨signature, captures, kind⟩ := called
    cases kind with
    | partialCall function consumedGroups isFnMut isFnOnce =>
      rw [Ty.content, CallableKind.content, append_assoc]
      exact hcomp _ _
    | closure function isFnMut isFnOnce =>
      rw [Ty.content, CallableKind.content, append_assoc]
      exact hcomp _ _
  | continuation input output => exact hcomp _ _
  | effectCallable input output answer => exact hcomp _ _
  | effectRow unsafety failureError customEffects =>
    cases failureError with
    | none => exact hnum _ _
    | some failure => exact hcomp _ _
  | bool => simp [Ty.content]
  | unit => simp [Ty.content]
  | str => simp [Ty.content]
  | never => simp [Ty.content]
  | error => simp [Ty.content]

theorem shape_content_of_typeText_eq {ty other : Ty} (h : typeText ty = typeText other) :
    ty.shape = other.shape ∧ ty.content = other.content := by
  rw [typeText_eq, typeText_eq] at h
  obtain ⟨hkeyword, hcontent⟩ := eq_of_letters (fun char => ¬ char.isDigit = true)
    ty.shape.keyword_letters other.shape.keyword_letters
    (fun char hchar => not_not_intro (ty.content_head char hchar))
    (fun char hchar => not_not_intro (other.content_head char hchar)) h
  exact ⟨Shape.keyword_injective (String.toList_inj.mp hkeyword), hcontent⟩

theorem regionText_injective : Function.Injective regionText := by
  intro region other h
  cases region with
  | none =>
    cases other with
    | none => rfl
    | some other => exact absurd (String.toList_eq_nil_iff.mp h.symm) other.nonempty
  | some region =>
    cases other with
    | none => exact absurd (String.toList_eq_nil_iff.mp h) region.nonempty
    | some other =>
      obtain ⟨text, _⟩ := region
      obtain ⟨text', _⟩ := other
      obtain rfl : text = text' := String.toList_inj.mp h
      rfl

theorem delimited_string (text : String) :
    Delimited (fun text : String => component text.toList) text :=
  delimited_component fun _ h => String.toList_inj.mp h

theorem delimited_type {ty : Ty} (hty : Determined typeText ty) :
    Delimited (fun ty => component (typeText ty)) ty :=
  delimited_component hty

theorem delimited_types {types : List Ty} (htypes : ∀ ty ∈ types, Determined typeText ty) :
    Delimited (fun types : List Ty =>
      number types.length ++ types.flatMap fun ty => component (typeText ty)) types :=
  Delimited.counted delimited_number fun ty hty => delimited_type (htypes ty hty)

theorem delimited_effects (effects : List String) :
    Delimited (fun effects : List String =>
      number effects.length ++ effects.flatMap fun effect => component effect.toList) effects :=
  Delimited.counted delimited_number fun effect _ => delimited_string effect

theorem delimited_flag (yes no : Char) (hne : yes ≠ no) (flag : Bool) :
    Delimited (fun flag : Bool => if flag then [yes, ':'] else [no, ':']) flag := by
  intro other rest rest' h
  cases flag <;> cases other <;> simp_all [eq_comm]

theorem delimited_flagText (flag : Bool) : Delimited flagText flag := by
  intro other rest rest' h
  cases flag <;> cases other
  · exact ⟨rfl, append_cancel_left h⟩
  · exact absurd (cons.inj h).1 (by decide)
  · exact absurd (cons.inj h).1 (by decide)
  · exact ⟨rfl, append_cancel_left h⟩

theorem delimited_function {function : FunctionTy}
    (hgroups : ∀ group ∈ function.groups, ∀ ty ∈ group, Determined typeText ty)
    (hfail : ∀ failure ∈ function.failureError, Determined typeText failure)
    (hres : Determined typeText function.result) : Delimited FunctionTy.content function := by
  have hmarks : ∀ rest rest', ['t', ':'] ++ rest ≠ ['n', ':'] ++ rest' := by
    intro rest rest' h
    exact absurd (cons.inj h).1 (by decide)
  have hparts := Delimited.pair
    (Delimited.counted delimited_number fun group hgroup => delimited_types (hgroups group hgroup))
    (Delimited.pair (delimited_flag 'u' 'p' (by decide) function.unsafety)
      (Delimited.pair
        (Delimited.option hmarks fun failure hheld => delimited_type (hfail failure hheld))
        (Delimited.pair (delimited_effects function.customEffects) (delimited_type hres))))
  refine Delimited.comp (fun function : FunctionTy => (function.groups,
    function.unsafety, function.failureError, function.customEffects, function.result)) hparts ?_
  intro other hother
  obtain ⟨groups, unsafety, failureError, customEffects, res⟩ := function
  obtain ⟨groups', unsafety', failureError', customEffects', res'⟩ := other
  simpa using hother

theorem callableKind_eq {kind kind' : CallableKind}
    (hsort : CallableKind.isPartial kind = CallableKind.isPartial kind') {rest rest' : List Char}
    (h : CallableKind.content kind ++ rest = CallableKind.content kind' ++ rest') :
    kind = kind' ∧ rest = rest' := by
  cases kind with
  | partialCall function consumedGroups isFnMut isFnOnce =>
    cases kind' with
    | partialCall function' consumedGroups' isFnMut' isFnOnce' =>
      obtain ⟨hparts, hrest⟩ := (Delimited.pair (delimited_string function)
        (Delimited.pair (delimited_number consumedGroups)
          (Delimited.pair (delimited_flagText isFnMut) (delimited_flagText isFnOnce)))).split
        (function', consumedGroups', isFnMut', isFnOnce') h
      cases hparts
      exact ⟨rfl, hrest⟩
    | closure function' isFnMut' isFnOnce' => cases hsort
  | closure function isFnMut isFnOnce =>
    cases kind' with
    | partialCall function' consumedGroups' isFnMut' isFnOnce' => cases hsort
    | closure function' isFnMut' isFnOnce' =>
      obtain ⟨hparts, hrest⟩ := (Delimited.pair (delimited_string function)
        (Delimited.pair (delimited_flagText isFnMut) (delimited_flagText isFnOnce))).split
        (function', isFnMut', isFnOnce') h
      cases hparts
      exact ⟨rfl, hrest⟩

theorem delimited_mode (mode : PassMode) :
    Delimited (fun mode => (passModeLetter mode).toList) mode := by
  intro other rest rest' h
  obtain ⟨hletter, hrest⟩ := append_inj h (by cases mode <;> cases other <;> rfl)
  refine ⟨?_, hrest⟩
  cases mode <;> cases other <;> first | rfl | exact absurd hletter (by decide)

theorem delimited_captureText {capture : CallableCaptureTy}
    (hty : Determined typeText capture.ty) : Delimited captureText capture := by
  refine Delimited.comp (fun capture : CallableCaptureTy => (capture.mode, capture.ty))
    (Delimited.pair (delimited_mode capture.mode) (delimited_type hty)) ?_
  intro other hother
  obtain ⟨ty, mode⟩ := capture
  obtain ⟨ty', mode'⟩ := other
  cases hother
  rfl

theorem captureText_head (capture : CallableCaptureTy) :
    ∃ char ∈ (captureText capture).head?, ¬ char.isDigit = true := by
  rw [captureText, List.head?_append]
  cases capture.mode with
  | inferred => exact ⟨'i', rfl, by decide⟩
  | copy => exact ⟨'c', rfl, by decide⟩
  | move => exact ⟨'m', rfl, by decide⟩
  | borrow => exact ⟨'b', rfl, by decide⟩
  | mutBorrow => exact ⟨'u', rfl, by decide⟩

/-- What stands behind the captures of a callable begins with a digit, and no capture does. -/
theorem delimited_callable {called : CallableTy}
    (hsignature : Determined typeText (.function called.signature))
    (hcaptures : ∀ capture ∈ called.captures, Determined typeText capture.ty) {other : CallableTy}
    (hsort : CallableKind.isPartial called.kind = CallableKind.isPartial other.kind)
    (h : (Ty.callable called).content = (Ty.callable other).content) : called = other := by
  obtain ⟨signature, captures, kind⟩ := called
  obtain ⟨signature', captures', kind'⟩ := other
  have hdigit : ∀ signature : FunctionTy, ∀ char ∈ (component (typeText (.function signature))).head?,
      ¬ ¬ char.isDigit = true := by
    intro signature char hchar
    exact not_not_intro ((Ty.slice (.function signature)).content_head char hchar)
  obtain ⟨hkind, htail⟩ := callableKind_eq hsort h
  obtain ⟨hcapture, hrest⟩ := Delimited.marked (fun char => ¬ char.isDigit = true)
    (fun capture hcapture => delimited_captureText (hcaptures capture hcapture)) captureText_head
    (hdigit signature) (hdigit signature') htail
  cases (delimited_type hsignature).determined hrest
  cases hkind
  cases hcapture
  rfl

/-- A type whose parts are determined by their encodings is determined by its own. -/
theorem determined_of_parts {ty : Ty}
    (hparts : ∀ part : Ty, sizeOf part < sizeOf ty → Determined typeText part) :
    Determined typeText ty := by
  intro other h
  obtain ⟨hshape, hcontent⟩ := shape_content_of_typeText_eq h
  cases ty with
  | integer kind =>
    cases other with
    | integer kind' =>
      have hname := String.toList_inj.mp h
      rw [canonicalTypeEncoding, canonicalTypeEncoding] at hname
      cases kind <;> cases kind' <;> first | rfl | exact absurd hname (by decide)
    | _ => cases hshape
  | tuple fields =>
    cases other with
    | tuple fields' =>
      have hdetermined : ∀ field ∈ fields, Determined typeText field := by
        intro field hfield
        have hsize := sizeOf_lt_of_mem hfield
        apply hparts field
        simp only [Ty.tuple.sizeOf_spec]
        omega
      rw [(delimited_types hdetermined).determined hcontent]
    | _ => cases hshape
  | pointer pointee mutable =>
    cases other with
    | pointer pointee' mutable' =>
      cases hshape
      have hpointee := hparts pointee (by simp only [Ty.pointer.sizeOf_spec]; omega)
      rw [(delimited_type hpointee).determined hcontent]
    | _ => cases hshape
  | reference pointee mutable region =>
    cases other with
    | reference pointee' mutable' region' =>
      cases hshape
      have hregion : Delimited (fun region => component (regionText region)) region :=
        delimited_component fun _ h => regionText_injective h
      have hpointee := hparts pointee (by simp only [Ty.reference.sizeOf_spec]; omega)
      cases (Delimited.pair hregion (delimited_type hpointee)).eq_of
        (region', pointee') hcontent
      rfl
    | _ => cases hshape
  | array element len =>
    cases other with
    | array element' len' =>
      have helem := hparts element (by simp only [Ty.array.sizeOf_spec]; omega)
      cases (Delimited.pair (delimited_number len) (delimited_type helem)).eq_of
        (len', element') hcontent
      rfl
    | _ => cases hshape
  | slice element =>
    cases other with
    | slice element' =>
      have helem := hparts element (by simp only [Ty.slice.sizeOf_spec]; omega)
      rw [(delimited_type helem).determined hcontent]
    | _ => cases hshape
  | struct name =>
    cases other with
    | struct name' => rw [(delimited_string name).determined hcontent]
    | _ => cases hshape
  | enum name =>
    cases other with
    | enum name' => rw [(delimited_string name).determined hcontent]
    | _ => cases hshape
  | function signature =>
    cases other with
    | function signature' =>
      obtain ⟨groups, unsafety, failureError, customEffects, res⟩ := signature
      have hsignature : Delimited FunctionTy.content
          ⟨groups, unsafety, failureError, customEffects, res⟩ := by
        refine delimited_function ?_ ?_ ?_
        · intro group hgroup ty hty
          have hsize : sizeOf group < sizeOf groups := sizeOf_lt_of_mem hgroup
          have hsize' := sizeOf_lt_of_mem hty
          refine hparts ty ?_
          simp only [Ty.function.sizeOf_spec, FunctionTy.mk.sizeOf_spec]
          omega
        · intro failure hfail
          obtain rfl : failureError = some failure := hfail
          refine hparts failure ?_
          simp only [Ty.function.sizeOf_spec, FunctionTy.mk.sizeOf_spec, Option.some.sizeOf_spec]
          omega
        · refine hparts res ?_
          simp only [Ty.function.sizeOf_spec, FunctionTy.mk.sizeOf_spec]
          omega
      rw [hsignature.determined hcontent]
    | _ => cases hshape
  | callable called =>
    cases other with
    | callable called' =>
      obtain ⟨signature, captures, kind⟩ := called
      have hsort : CallableKind.isPartial kind = CallableKind.isPartial called'.kind :=
        Shape.callable.inj hshape
      refine congrArg Ty.callable (delimited_callable ?_ ?_ hsort hcontent)
      · refine hparts _ ?_
        simp only [Ty.callable.sizeOf_spec, Ty.function.sizeOf_spec, CallableTy.mk.sizeOf_spec]
        omega
      · intro capture hcapture
        obtain ⟨captured, mode⟩ := capture
        have hsize := sizeOf_lt_of_mem hcapture
        refine hparts captured ?_
        simp only [Ty.callable.sizeOf_spec, CallableTy.mk.sizeOf_spec,
          CallableCaptureTy.mk.sizeOf_spec] at hsize ⊢
        omega
    | _ => cases hshape
  | continuation input output =>
    cases other with
    | continuation input' output' =>
      have hinput := hparts input (by simp only [Ty.continuation.sizeOf_spec]; omega)
      have houtput := hparts output (by simp only [Ty.continuation.sizeOf_spec]; omega)
      cases (Delimited.pair (delimited_type hinput) (delimited_type houtput)).eq_of
        (input', output') hcontent
      rfl
    | _ => cases hshape
  | effectCallable input output answer =>
    cases other with
    | effectCallable input' output' answer' =>
      have hinput := hparts input (by simp only [Ty.effectCallable.sizeOf_spec]; omega)
      have houtput := hparts output (by simp only [Ty.effectCallable.sizeOf_spec]; omega)
      have hans := hparts answer (by simp only [Ty.effectCallable.sizeOf_spec]; omega)
      cases (Delimited.pair (delimited_type hinput)
        (Delimited.pair (delimited_type houtput) (delimited_type hans))).eq_of
        (input', output', answer') hcontent
      rfl
    | _ => cases hshape
  | effectRow unsafety failureError customEffects =>
    cases other with
    | effectRow unsafety' failureError' customEffects' =>
      obtain ⟨rfl, hfailing⟩ := Shape.effectRow.inj hshape
      have heffs := delimited_effects customEffects
      cases failureError with
      | none =>
        obtain rfl : failureError' = none := by simpa using hfailing.symm
        rw [heffs.determined hcontent]
      | some failure =>
        obtain ⟨failure', rfl⟩ : ∃ failure', failureError' = some failure' :=
          Option.isSome_iff_exists.mp hfailing.symm
        have hfail : Determined typeText failure := by
          apply hparts failure
          simp only [Ty.effectRow.sizeOf_spec, Option.some.sizeOf_spec]
          omega
        cases (Delimited.pair (delimited_type hfail) heffs).eq_of
          (failure', customEffects') hcontent
        rfl
    | _ => cases hshape
  | bool =>
    cases other with
    | bool => rfl
    | _ => cases hshape
  | unit =>
    cases other with
    | unit => rfl
    | _ => cases hshape
  | str =>
    cases other with
    | str => rfl
    | _ => cases hshape
  | never =>
    cases other with
    | never => rfl
    | _ => cases hshape
  | error =>
    cases other with
    | error => rfl
    | _ => cases hshape

theorem determined_typeText (ty : Ty) : Determined typeText ty :=
  determined_of_parts fun part _ => determined_typeText part
termination_by sizeOf ty

theorem canonicalTypeEncoding_injective : Function.Injective canonicalTypeEncoding := by
  intro ty other h
  exact determined_typeText ty (congrArg String.toList h)

end Salicin.Codegen.Names
