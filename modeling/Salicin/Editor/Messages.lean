import Mathlib.Data.Rat.Defs
import Salicin.Editor.Session
import Salicin.Foundation.Bytes

/-!
# Messages of the language server

JSON values with the accessors the server uses, the readers of its parameters, and document
addresses.
-/

namespace Salicin.Editor

/-- A number is an integer or a finite float. -/
inductive Number where
  | int (value : Int)
  | float (value : Rat)
deriving BEq

/-- Entries of an object stand in the order of their keys. -/
inductive Value where
  | null
  | bool (value : Bool)
  | number (value : Number)
  | string (value : String)
  | array (items : List Value)
  | object (entries : List (String × Value))
deriving BEq

namespace Value

def get (field : String) : Value → Option Value
  | object entries => entries.lookup field
  | _ => none

def asObject : Value → Option (List (String × Value))
  | object entries => some entries
  | _ => none

def asArray : Value → Option (List Value)
  | array items => some items
  | _ => none

def asStr : Value → Option String
  | string value => some value
  | _ => none

def asBool : Value → Option Bool
  | bool value => some value
  | _ => none

def asI64 : Value → Option Int
  | number (.int value) => if -2 ^ 63 ≤ value ∧ value < 2 ^ 63 then some value else none
  | _ => none

def asU64 : Value → Option Nat
  | number (.int value) => if 0 ≤ value ∧ value < 2 ^ 64 then some value.toNat else none
  | _ => none

def ofNat (value : Nat) : Value := number (.int value)

end Value

/-! ## Readers of parameters -/

def requiredObject (value : Value) (field : String) : Except String (List (String × Value)) :=
  match (value.get field).bind Value.asObject with
  | some object => .ok object
  | none => .error s!"missing object field `{field}`"

def requiredString (object : List (String × Value)) (field : String) : Except String String :=
  match (object.lookup field).bind Value.asStr with
  | some text => .ok text
  | none => .error s!"missing string field `{field}`"

def requiredI64 (object : List (String × Value)) (field : String) : Except String Int :=
  match (object.lookup field).bind Value.asI64 with
  | none => .error s!"missing integer field `{field}`"
  | some value =>
    if -2 ^ 31 ≤ value ∧ value < 2 ^ 31 then .ok value
    else .error s!"integer field `{field}` is outside the LSP integer range"

def requiredU32 (object : List (String × Value)) (field : String) : Except String Nat :=
  match ((object.lookup field).bind Value.asU64).filter fun value => value < 2 ^ 32 with
  | some value => .ok value
  | none => .error s!"missing or invalid unsigned integer field `{field}`"

/-! ## Document addresses -/

/-- A digit of `u8::from_str_radix` with radix 16. -/
def hexDigit (byte : UInt8) : Option Nat :=
  if 48 ≤ byte ∧ byte ≤ 57 then some (byte.toNat - 48)
  else if 65 ≤ byte ∧ byte ≤ 70 then some (byte.toNat - 55)
  else if 97 ≤ byte ∧ byte ≤ 102 then some (byte.toNat - 87)
  else none

/-- Two characters as a byte. The parser of integers takes a plus sign in front, too. -/
def percentByte (high low : UInt8) : Option UInt8 :=
  if high = 43 then (hexDigit low).map UInt8.ofNat
  else do
    let upper ← hexDigit high
    let lower ← hexDigit low
    some (UInt8.ofNat (16 * upper + lower))

/-- The bytes of a path behind the scheme. An escape that is cut off, also in the middle of a
character, and one that is no number have the same error. -/
def percentDecode : List UInt8 → Option (List UInt8)
  | [] => some []
  | byte :: rest =>
    if byte = 37 then
      match rest with
      | high :: low :: rest => do
        let decoded ← percentByte high low
        let others ← percentDecode rest
        some (decoded :: others)
      | _ => none
    else do
      let others ← percentDecode rest
      some (byte :: others)

def fileUriToPath (uri : String) : Except String String :=
  let scheme := TextBytes.encode "file://"
  let bytes := TextBytes.encode uri
  if scheme.isPrefixOf bytes then
    match percentDecode (bytes.drop scheme.length) with
    | none => .error "invalid percent escape in file URI"
    | some decoded =>
      match TextBytes.decode decoded with
      | some path => .ok path
      | none => .error "file URI path is not UTF-8"
  else .error "Salicin supports only file document URIs"

def hexCharacter (digit : Nat) : Char :=
  if digit < 10 then Char.ofNat (digit + 48) else Char.ofNat (digit + 55)

def pathToFileUri (path : String) : String :=
  (TextBytes.encode path).foldl (fun uri byte =>
    let character := Char.ofNat byte.toNat
    if byte < 128 ∧ character.isAlphanum ∨ byte ∈ [47, 45, 95, 46, 126] then
      uri.push character
    else ((uri.push '%').push (hexCharacter (byte.toNat / 16))).push
      (hexCharacter (byte.toNat % 16))) "file://"

/-! ## Positions -/

structure SemanticPosition where
  line : Nat
  utf16Character : Nat

structure EditorRange where
  start : SemanticPosition
  finish : SemanticPosition

def navigationPosition (params : Value) : Except String (String × SemanticPosition) := do
  let document ← requiredObject params "textDocument"
  let uri ← requiredString document "uri"
  let position ← requiredObject params "position"
  let path ← fileUriToPath uri
  let line ← requiredU32 position "line"
  let character ← requiredU32 position "character"
  return (path, ⟨line, character⟩)

def renameName (params : Value) : Except String String :=
  match (params.get "newName").bind Value.asStr with
  | some name => .ok name
  | none => .error "rename requires string newName"

def lspRange (range : EditorRange) : Value :=
  .object [
    ("end", .object [("character", .ofNat range.finish.utf16Character),
      ("line", .ofNat range.finish.line)]),
    ("start", .object [("character", .ofNat range.start.utf16Character),
      ("line", .ofNat range.start.line)])]

end Salicin.Editor
