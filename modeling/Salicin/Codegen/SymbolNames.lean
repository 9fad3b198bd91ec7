import Salicin.Codegen.TypeEncoding

/-!
# Symbol names

The names of the instances that monomorphization makes and the LLVM symbols of these names. The
name of an instance says what it is an instance of and at which types, and a symbol spells the name
byte by byte, so one symbol stands for one instance.
-/

namespace Salicin.Codegen.Names

open List SelfDelimiting Delimited

/-! ## Keys and their names -/

structure FunctionInstanceKey where
  template : String
  arguments : List Ty

inductive NominalKind
  | struct
  | enum

structure NominalInstanceKey where
  kind : NominalKind
  template : String
  arguments : List Ty

structure TraitRefKey where
  name : String
  arguments : List Ty

structure TraitImplKey where
  selfTy : Ty
  traitRef : TraitRefKey

/-- `function_instance_name`. -/
def functionInstanceName (key : FunctionInstanceKey) : String :=
  String.join ["$mono$fn$", canonicalComponent key.template, toString key.arguments.length, ":",
    typeComponents key.arguments]

def NominalKind.word : NominalKind → String
  | .struct => "struct"
  | .enum => "enum"

/-- `nominal_instance_name`. -/
def nominalInstanceName (key : NominalInstanceKey) : String :=
  String.join ["$mono$type$", canonicalComponent key.kind.word, canonicalComponent key.template,
    toString key.arguments.length, ":", typeComponents key.arguments]

/-- `trait_method_name`. -/
def traitMethodName (key : TraitImplKey) (member : String) : String :=
  String.join ["$trait$impl$", canonicalComponent key.traitRef.name,
    canonicalComponent (canonicalTypeEncoding key.selfTy), toString key.traitRef.arguments.length,
    ":", typeComponents key.traitRef.arguments, canonicalComponent member]

/-! ## Symbols -/

/-- A byte as `{byte:02x}` writes it. -/
def hexByte (byte : UInt8) : List Char :=
  [Nat.digitChar (byte.toNat / 16), Nat.digitChar (byte.toNat % 16)]

/-- `hex_name`. -/
def hexName (name : String) : String := String.ofList (name.toUTF8.data.toList.flatMap hexByte)

/-- `function_symbol`. -/
def functionSymbol (name : String) : String := "sali.fn." ++ hexName name

/-- `type_symbol`. -/
def typeSymbol (name : String) : String := "sali.type." ++ hexName name

/-- `drop_glue_symbol`. -/
def dropGlueSymbol (ty : Ty) : String := "sali.drop." ++ hexName (canonicalTypeEncoding ty)

/-- The functions that a program exports, each with the encoding of its signature. -/
structure ExportedFunctions where
  primaryPackageIdentity : String
  abiEncoding : String → Option String

/-- `exported_function_symbol`. -/
def exportedFunctionSymbol (identity name abi : String) : String :=
  String.join ["sali.export.", hexName identity, ".", hexName name, ".", hexName abi]

/-- `HirProgram::function_symbol`: exported functions have a symbol of their own. -/
def ExportedFunctions.functionSymbol (exported : ExportedFunctions) (name : String) : String :=
  match exported.abiEncoding name with
  | some abi => exportedFunctionSymbol exported.primaryPackageIdentity name abi
  | none => Names.functionSymbol name

/-- What the compiler generates a symbol for. -/
inductive SymbolKey
  | function (key : FunctionInstanceKey)
  | nominal (key : NominalInstanceKey)
  | traitMethod (key : TraitImplKey) (member : String)
  | dropGlue (ty : Ty)

def SymbolKey.symbol (exported : ExportedFunctions) : SymbolKey → String
  | .function key => exported.functionSymbol (functionInstanceName key)
  | .nominal key => typeSymbol (nominalInstanceName key)
  | .traitMethod key member => exported.functionSymbol (traitMethodName key member)
  | .dropGlue ty => dropGlueSymbol ty

/-! ## A symbol spells its name -/

theorem digitChar_inj {digit digit' : Nat} (hdigit : digit < 16) (hdigit' : digit' < 16)
    (h : Nat.digitChar digit = Nat.digitChar digit') : digit = digit' := by
  have hall : ∀ digit < 16, ∀ digit' < 16, Nat.digitChar digit = Nat.digitChar digit' →
      digit = digit' := by decide
  exact hall digit hdigit digit' hdigit' h

theorem delimited_hexByte (byte : UInt8) : Delimited hexByte byte := by
  intro other rest rest' h
  obtain ⟨hhigh, htail⟩ := cons.inj h
  obtain ⟨hlow, hrest⟩ := cons.inj htail
  have hbyte := byte.toNat_lt
  have hother := other.toNat_lt
  have hhigh := digitChar_inj (by omega) (by omega) hhigh
  have hlow := digitChar_inj (by omega) (by omega) hlow
  exact ⟨UInt8.toNat_inj.mp (by omega), hrest⟩

theorem hexName_injective : Function.Injective hexName := by
  intro name other h
  have hbytes := Determined.flatMap delimited_hexByte (fun _ => cons_ne_nil _ _) _
    (String.ofList_inj.mp h)
  refine String.toByteArray_inj.mp ?_
  exact ByteArray.ext (Array.toList_inj.mp hbytes)

theorem dot_notMem_hexName (name : String) : '.' ∉ (hexName name).toList := by
  have hdigits : ∀ digit < 16, '.' ≠ Nat.digitChar digit := by decide
  rw [hexName, String.toList_ofList]
  intro hmem
  obtain ⟨byte, _, hbyte⟩ := mem_flatMap.mp hmem
  have hlt := byte.toNat_lt
  simp only [hexByte, mem_cons, not_mem_nil, or_false] at hbyte
  rcases hbyte with hhigh | hlow
  · exact hdigits _ (by omega) hhigh
  · exact hdigits _ (by omega) hlow

theorem toList_exportedFunctionSymbol (ident name abi : String) :
    (exportedFunctionSymbol ident name abi).toList =
      "sali.export.".toList ++ ((hexName ident).toList ++
        '.' :: ((hexName name).toList ++ '.' :: (hexName abi).toList)) := by
  have hdot : ".".toList = ['.'] := rfl
  simp only [exportedFunctionSymbol, toList_join_cons, toList_join_nil, hdot, append_nil,
    singleton_append]

variable (exported : ExportedFunctions)

/-- An exported symbol spells the package, the function and its signature, in this order. -/
theorem functionSymbol_injective :
    Function.Injective exported.functionSymbol := by
  intro name other h
  have hlist := congrArg String.toList h
  unfold ExportedFunctions.functionSymbol functionSymbol at hlist
  cases hname : exported.abiEncoding name with
  | none =>
    cases hother : exported.abiEncoding other with
    | none =>
      simp only [hname, hother, String.toList_append] at hlist
      exact hexName_injective (String.toList_inj.mp (append_cancel_left hlist))
    | some abi' =>
      simp only [hname, hother, String.toList_append, toList_exportedFunctionSymbol] at hlist
      exact absurd (congrArg (fun text => text[5]?) hlist) (by simp)
  | some abi =>
    cases hother : exported.abiEncoding other with
    | none =>
      simp only [hname, hother, String.toList_append, toList_exportedFunctionSymbol] at hlist
      exact absurd (congrArg (fun text => text[5]?) hlist) (by simp)
    | some abi' =>
      simp only [hname, hother, toList_exportedFunctionSymbol] at hlist
      obtain ⟨_, hrest⟩ := eq_of_terminated (dot_notMem_hexName _) (dot_notMem_hexName _)
        (append_cancel_left hlist)
      obtain ⟨hspelled, _⟩ := eq_of_terminated (dot_notMem_hexName _) (dot_notMem_hexName _)
        hrest
      exact hexName_injective (String.toList_inj.mp hspelled)

/-! ## A name says its key -/

/-- Type arguments behind their number. -/
def argumentsText (arguments : List Ty) : List Char :=
  number arguments.length ++ arguments.flatMap fun ty => component (typeText ty)

theorem delimited_argumentsText (arguments : List Ty) : Delimited argumentsText arguments :=
  delimited_types fun ty _ => determined_typeText ty

theorem toList_functionInstanceName (key : FunctionInstanceKey) :
    (functionInstanceName key).toList =
      "$mono$fn$".toList ++ (component key.template.toList ++ argumentsText key.arguments) := by
  simp only [functionInstanceName, argumentsText, number, toList_join_cons, toList_join_nil,
    toList_canonicalComponent, toList_toString, colon_toList, toList_typeComponents,
    append_assoc, append_nil]

theorem functionInstanceName_injective : Function.Injective functionInstanceName := by
  intro key other h
  obtain ⟨template, arguments⟩ := key
  obtain ⟨template', arguments'⟩ := other
  have hlist := congrArg String.toList h
  rw [toList_functionInstanceName, toList_functionInstanceName] at hlist
  cases (pair (delimited_string template)
    (delimited_argumentsText arguments)).eq_of (template', arguments')
    (append_cancel_left hlist)
  rfl

theorem toList_nominalInstanceName (key : NominalInstanceKey) :
    (nominalInstanceName key).toList = "$mono$type$".toList ++ (component key.kind.word.toList ++
        (component key.template.toList ++ argumentsText key.arguments)) := by
  simp only [nominalInstanceName, argumentsText, number, toList_join_cons, toList_join_nil,
    toList_canonicalComponent, toList_toString, colon_toList, toList_typeComponents,
    append_assoc, append_nil]

theorem delimited_kind (kind : NominalKind) :
    Delimited (fun kind : NominalKind => component kind.word.toList) kind := by
  refine delimited_component ?_
  intro kind' hword
  cases kind <;> cases kind' <;> first | rfl | exact absurd hword (by decide)

theorem nominalInstanceName_injective : Function.Injective nominalInstanceName := by
  intro key other h
  obtain ⟨kind, template, arguments⟩ := key
  obtain ⟨kind', template', arguments'⟩ := other
  have hlist := congrArg String.toList h
  rw [toList_nominalInstanceName, toList_nominalInstanceName] at hlist
  cases (pair (delimited_kind kind)
    (pair (delimited_string template) (delimited_argumentsText arguments))).eq_of
    (kind', template', arguments') (append_cancel_left hlist)
  rfl

theorem toList_traitMethodName (key : TraitImplKey) (member : String) :
    (traitMethodName key member).toList =
      "$trait$impl$".toList ++ (component key.traitRef.name.toList ++
        (component (typeText key.selfTy) ++
          (argumentsText key.traitRef.arguments ++ component member.toList))) := by
  simp only [traitMethodName, argumentsText, number, typeText, toList_join_cons, toList_join_nil,
    toList_canonicalComponent, toList_toString, colon_toList, toList_typeComponents,
    append_assoc, append_nil]

theorem traitMethodName_injective {key other : TraitImplKey} {member member' : String}
    (h : traitMethodName key member = traitMethodName other member') :
    key = other ∧ member = member' := by
  obtain ⟨selfTy, name, arguments⟩ := key
  obtain ⟨selfTy', name', arguments'⟩ := other
  have hlist := congrArg String.toList h
  rw [toList_traitMethodName, toList_traitMethodName] at hlist
  cases (pair (delimited_string name)
    (pair (delimited_type (determined_typeText selfTy))
      (pair (delimited_argumentsText arguments) (delimited_string member)))).eq_of
    (name', selfTy', arguments', member') (append_cancel_left hlist)
  exact ⟨rfl, rfl⟩

theorem functionInstanceName_ne_traitMethodName (key : FunctionInstanceKey) (other : TraitImplKey)
    (member : String) : functionInstanceName key ≠ traitMethodName other member := by
  intro h
  have hlist := congrArg String.toList h
  rw [toList_functionInstanceName, toList_traitMethodName] at hlist
  exact absurd (congrArg (fun text => text[1]?) hlist) (by simp)

/-! ## One symbol for each key -/

/-- The character that tells a function from a type and from drop glue. -/
theorem functionSymbol_sort (name : String) :
    (exported.functionSymbol name).toList[5]? = some 'f' ∨
      (exported.functionSymbol name).toList[5]? = some 'e' := by
  unfold ExportedFunctions.functionSymbol
  cases exported.abiEncoding name with
  | none => simp [functionSymbol]
  | some abi => simp [toList_exportedFunctionSymbol]

theorem typeSymbol_sort (name : String) : (typeSymbol name).toList[5]? = some 't' := by
  simp [typeSymbol]

theorem dropGlueSymbol_sort (ty : Ty) : (dropGlueSymbol ty).toList[5]? = some 'd' := by
  simp [dropGlueSymbol]

theorem typeSymbol_injective : Function.Injective typeSymbol := by
  intro name other h
  have hlist := congrArg String.toList h
  rw [typeSymbol, typeSymbol, String.toList_append, String.toList_append] at hlist
  exact hexName_injective (String.toList_inj.mp (append_cancel_left hlist))

theorem dropGlueSymbol_injective : Function.Injective dropGlueSymbol := by
  intro ty other h
  have hlist := congrArg String.toList h
  rw [dropGlueSymbol, dropGlueSymbol, String.toList_append, String.toList_append] at hlist
  exact canonicalTypeEncoding_injective
    (hexName_injective (String.toList_inj.mp (append_cancel_left hlist)))

/-- Symbols with different characters at the place that tells the sort. -/
theorem ne_of_sort {symbol other : String}
    (h : symbol.toList[5]? ≠ other.toList[5]?) : symbol ≠ other :=
  fun heq => h (by rw [heq])

theorem functionSymbol_ne_typeSymbol (name other : String) :
    exported.functionSymbol name ≠ typeSymbol other := by
  refine ne_of_sort ?_
  rw [typeSymbol_sort]
  rcases functionSymbol_sort exported name with hsort | hsort <;> simp [hsort]

theorem functionSymbol_ne_dropGlueSymbol (name : String) (ty : Ty) :
    exported.functionSymbol name ≠ dropGlueSymbol ty := by
  refine ne_of_sort ?_
  rw [dropGlueSymbol_sort]
  rcases functionSymbol_sort exported name with hsort | hsort <;> simp [hsort]

theorem typeSymbol_ne_dropGlueSymbol (name : String) (ty : Ty) :
    typeSymbol name ≠ dropGlueSymbol ty := by
  refine ne_of_sort ?_
  simp [typeSymbol_sort, dropGlueSymbol_sort]

theorem SymbolKey.symbol_injective :
    Function.Injective (SymbolKey.symbol exported) := by
  intro key other h
  cases key with
  | function key =>
    cases other with
    | function other =>
      rw [functionInstanceName_injective (functionSymbol_injective exported h)]
    | nominal other => exact absurd h (functionSymbol_ne_typeSymbol exported _ _)
    | traitMethod other member =>
      exact absurd (functionSymbol_injective exported h)
        (functionInstanceName_ne_traitMethodName key other member)
    | dropGlue ty => exact absurd h (functionSymbol_ne_dropGlueSymbol exported _ _)
  | nominal key =>
    cases other with
    | function other => exact absurd h.symm (functionSymbol_ne_typeSymbol exported _ _)
    | nominal other => rw [nominalInstanceName_injective (typeSymbol_injective h)]
    | traitMethod other member =>
      exact absurd h.symm (functionSymbol_ne_typeSymbol exported _ _)
    | dropGlue ty => exact absurd h (typeSymbol_ne_dropGlueSymbol _ _)
  | traitMethod key member =>
    cases other with
    | function other =>
      exact absurd (functionSymbol_injective exported h).symm
        (functionInstanceName_ne_traitMethodName other key member)
    | nominal other => exact absurd h (functionSymbol_ne_typeSymbol exported _ _)
    | traitMethod other member' =>
      obtain ⟨hkey, hmember⟩ := traitMethodName_injective (functionSymbol_injective exported h)
      rw [hkey, hmember]
    | dropGlue ty => exact absurd h (functionSymbol_ne_dropGlueSymbol exported _ _)
  | dropGlue ty =>
    cases other with
    | function other => exact absurd h.symm (functionSymbol_ne_dropGlueSymbol exported _ _)
    | nominal other => exact absurd h.symm (typeSymbol_ne_dropGlueSymbol _ _)
    | traitMethod other member =>
      exact absurd h.symm (functionSymbol_ne_dropGlueSymbol exported _ _)
    | dropGlue ty' => rw [dropGlueSymbol_injective h]

/-- Two types never have one encoding, and two instances, trait methods or drop glues never one
symbol. -/
theorem encodings_and_symbols_injective (exported : ExportedFunctions) :
    Function.Injective canonicalTypeEncoding ∧ Function.Injective (SymbolKey.symbol exported) :=
  ⟨canonicalTypeEncoding_injective, SymbolKey.symbol_injective exported⟩

end Salicin.Codegen.Names
