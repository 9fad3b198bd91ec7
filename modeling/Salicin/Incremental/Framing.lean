import Mathlib.Tactic.NormNum
import Salicin.Incremental.Stream

/-!
# Framing

The bytes that are written show what was written: every value ends where its bytes say so.
-/

namespace Salicin.Incremental

open List SelfDelimiting Delimited TextBytes

theorem usizeLimit_eq : usizeLimit = 256 ^ 8 := by
  rw [usizeLimit]
  norm_num

theorem length_bytes (text : Str) : text.bytes.length < 256 ^ 8 := by
  rw [← usizeLimit_eq]
  exact text.2

theorem encode_injective {first second : String}
    (h : encode first = encode second) : first = second := by
  have hdecode := congrArg decode h
  rw [decode_encode, decode_encode] at hdecode
  exact Option.some.inj hdecode

theorem delimited_text (text : Str) : Delimited writeText text := by
  apply delimited_sized 8 length_bytes
  intro other hbytes
  exact Subtype.ext (encode_injective hbytes)

theorem delimited_flag (value : Bool) : Delimited writeFlag value := by
  apply delimited_of_length
  · intro other
    rfl
  · intro other hbytes
    cases value <;> cases other <;> first | rfl | (revert hbytes; decide)

theorem delimited_schema (schema : UInt32) : Delimited writeSchema schema := by
  apply delimited_store 4 UInt32.toNat_lt
  intro other hnum
  exact UInt32.toNat_inj.mp hnum

theorem delimited_vec {Item : Type} {write : Item → List UInt8}
    (hwrite : ∀ item, Delimited write item) (items : Vec Item) :
    Delimited (writeVec write) items := by
  apply listed 8
  · intro other
    rw [← usizeLimit_eq]
    exact other.2
  · intro other hitems
    exact Subtype.ext hitems
  · intro item _
    exact hwrite item

theorem delimited_pair (entry : Str × Str) : Delimited writePair entry :=
  pair (delimited_text entry.1) (delimited_text entry.2)

theorem delimited_source (source : SourceText) : Delimited writeSource source :=
  pair (delimited_flag source.1)
    (pair (delimited_vec delimited_text source.2.1) (delimited_text source.2.2))

theorem delimited_package (package : PackageText) : Delimited writePackage package := by
  obtain ⟨ident, name, version, isPrimary, deps, srcs⟩ := package
  have hlists := (delimited_vec delimited_pair deps).pair
    (delimited_vec delimited_source srcs)
  have hver := (delimited_text version).pair ((delimited_flag isPrimary).pair hlists)
  exact (delimited_text ident).pair ((delimited_text name).pair hver)

/-! ## Targets -/

theorem literal_split {first second : String} (hfst : first.utf8ByteSize < usizeLimit)
    (hsnd : second.utf8ByteSize < usizeLimit) {rest rest' : List UInt8}
    (h : writeLiteral first ++ rest = writeLiteral second ++ rest') :
    first = second ∧ rest = rest' := by
  obtain ⟨htext, hrest⟩ := (delimited_text ⟨first, hfst⟩).split ⟨second, hsnd⟩ h
  exact ⟨congrArg Subtype.val htext, hrest⟩

def targetName : IncrementalTarget → String
  | .binary => "binary"
  | .library => "library"
  | .test _ => "test"

def writeFilter (filter : Option Str) : List UInt8 :=
  filter.elim (writeFlag false) fun filter => writeFlag true ++ writeText filter

def writeDetail : IncrementalTarget → List UInt8
  | .test filter => writeFilter filter
  | _ => []

variable (target : IncrementalTarget)

theorem writeTarget_eq :
    writeTarget target = writeLiteral (targetName target) ++ writeDetail target := by
  cases target with
  | binary => exact (append_nil _).symm
  | library => exact (append_nil _).symm
  | test filter => cases filter <;> rfl

theorem targetName_size :
    (targetName target).utf8ByteSize < usizeLimit := by
  cases target <;> simp only [targetName] <;> decide

theorem delimited_filter (filter : Option Str) : Delimited writeFilter filter := by
  apply option
  · intro rest rest' htext
    exact absurd (cons.inj htext).1 (by decide)
  · intro held _
    exact delimited_text held

theorem delimited_target : Delimited writeTarget target := by
  intro other rest rest' htext
  rw [writeTarget_eq, writeTarget_eq, append_assoc, append_assoc] at htext
  obtain ⟨hname, hdetail⟩ := literal_split (targetName_size target) (targetName_size other) htext
  cases target with
  | binary =>
    cases other with
    | binary => exact ⟨rfl, hdetail⟩
    | library => exact absurd hname (by decide)
    | test filter => exact absurd hname (by simp [targetName])
  | library =>
    cases other with
    | binary => exact absurd hname (by decide)
    | library => exact ⟨rfl, hdetail⟩
    | test filter => exact absurd hname (by simp [targetName])
  | test filter =>
    cases other with
    | binary => exact absurd hname (by simp [targetName])
    | library => exact absurd hname (by simp [targetName])
    | test filter' =>
      obtain ⟨rfl, hrest⟩ := delimited_filter filter hdetail
      exact ⟨rfl, hrest⟩

/-! ## The whole input -/

theorem delimited_bundle (name : String) (sources : Vec (Str × Str)) :
    Delimited (writeBundle name) sources :=
  (delimited_vec delimited_pair sources).behind _

theorem delimited_environment (text : EnvironmentText) : Delimited writeEnvironment text := by
  obtain ⟨schema, compiler, hostOs, hostArch, target, edition, core, alloc, standard⟩ := text
  have hbundles := (delimited_bundle "core" core).pair
    ((delimited_bundle "alloc" alloc).pair (delimited_bundle "std" standard))
  have hoptions := (delimited_target target).pair ((delimited_text edition).pair hbundles)
  have hhost := (delimited_text hostOs).pair ((delimited_text hostArch).pair hoptions)
  exact (delimited_schema schema).pair ((delimited_text compiler).pair hhost)

theorem delimited_input (text : EnvironmentText × Vec PackageText) : Delimited writeInput text :=
  (pair (delimited_environment text.1)
    (delimited_vec delimited_package text.2)).behind _

/-! ## Paths of the cache -/

theorem hexDigit_injective : ∀ first second : Fin 16,
    hexDigit first = hexDigit second → first = second := by
  decide

theorem delimited_hexByte (byte : UInt8) :
    Delimited (fun byte : UInt8 => [hexDigit (byte.toNat / 16), hexDigit (byte.toNat % 16)])
      byte := by
  apply delimited_of_length
  · intro other
    rfl
  · intro other hdigits
    have hbyte := byte.toNat_lt
    have hother := other.toNat_lt
    obtain ⟨hhigh, hrest⟩ := cons.inj hdigits
    have hhighs := Fin.val_eq_of_eq (hexDigit_injective ⟨byte.toNat / 16, by omega⟩
      ⟨other.toNat / 16, by omega⟩ hhigh)
    have hlows := Fin.val_eq_of_eq (hexDigit_injective ⟨byte.toNat % 16, by omega⟩
      ⟨other.toNat % 16, by omega⟩ (cons.inj hrest).1)
    apply UInt8.toNat_inj.mp
    dsimp only at hhighs hlows
    omega

theorem cacheEntryRelativePath_injective {first second : IncrementalFingerprint}
    (h : cacheEntryRelativePath first = cacheEntryRelativePath second) : first = second := by
  rw [cacheEntryRelativePath, cacheEntryRelativePath] at h
  have hshard : (toHex first).take 2 = (toHex second).take 2 := by
    simpa using congrArg (fun path => (path.getD 3 "").toList) h
  have hname : (toHex first).drop 2 = (toHex second).drop 2 := by
    simpa using congrArg (fun path => (path.getD 4 "").toList) h
  have hhex : toHex first = toHex second := by
    rw [← take_append_drop 2 (toHex first), hshard, hname, take_append_drop]
  have hbytes : (toHex first) ++ [] = toHex second ++ [] := by rw [hhex]
  apply Subtype.ext
  exact (flatMap (fun byte _ => delimited_hexByte byte)
    (first.2.trans second.2.symm) hbytes).1

end Salicin.Incremental
