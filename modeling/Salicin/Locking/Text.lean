import Salicin.Locking.Parsing
import Mathlib.Tactic.IntervalCases

/-!
# The text of a lockfile

The text that is written for a lockfile says the tables of the lockfile, whatever characters its
values have.
-/

namespace Salicin.Locking

open List Registry TomlText

/-! ## Escaping -/

theorem hexValue_digitChar {digit : Nat} (hdigit : digit < 16) :
    hexValue digit.digitChar.toUpper = some digit := by
  interval_cases digit <;> decide

theorem piece_escaped (char : Char) : Piece char (escaped char) := by
  unfold escaped
  split_ifs with hquote hbackslash hnewline hreturn htab hcontrol
  · subst hquote
    exact .escape _ _ rfl
  · subst hbackslash
    exact .escape _ _ rfl
  · subst hnewline
    exact .escape _ _ rfl
  · subst hreturn
    exact .escape _ _ rfl
  · subst htab
    exact .escape _ _ rfl
  · -- A control char has a code below 160, so its first two digits are 0.
    have hcode : char.toNat < 160 := by
      simp only [isControl, Bool.or_eq_true, Bool.and_eq_true, decide_eq_true_eq] at hcontrol
      omega
    refine .unicode char _ _ _ _ (hexValue_digitChar ?_) (hexValue_digitChar ?_)
      (hexValue_digitChar ?_) (hexValue_digitChar ?_) ?_ <;> omega
  · refine .plain char hquote hbackslash ?_
    simp only [isControl, Bool.or_eq_true, Bool.and_eq_true, decide_eq_true_eq] at hcontrol
    rintro (⟨hlow, _⟩ | hdelete) <;> omega

theorem body_escaped (chars : List Char) : Body chars (chars.flatMap escaped) := by
  induction chars with
  | nil => exact .nil
  | cons char rest ih =>
    rw [flatMap_cons]
    exact .cons (piece_escaped char) ih

/-- The keys and the headers of a lockfile. -/
def tomlKeys : List String :=
  ["alias", "checksum", "edition", "format", "name", "package", "package.dependencies",
    "package.registry-dependencies", "path", "registry", "registry-package",
    "registry-package.dependencies", "registry-snapshot", "snapshot", "source", "version"]

theorem isBareKey_of_mem {key : String} (hkey : key ∈ tomlKeys) : isBareKey key = true :=
  all_eq_true.mp (by decide +kernel : tomlKeys.all isBareKey = true) key hkey

theorem says_fields {others : List Line} {texts : List String} (fields : List (String × String))
    (hnames : ∀ field ∈ fields, field.1 ∈ tomlKeys) (hothers : Says others (String.join texts)) :
    Says (fields.map (fun field => .string field.1 field.2) ++ others)
      (String.join (fields.map (fun field => writeTomlField field.1 field.2) ++ texts)) := by
  induction fields with
  | nil => exact hothers
  | cons field rest ih =>
    obtain ⟨hname, hrest⟩ := forall_mem_cons.mp hnames
    have hfield : Says [.string field.1 field.2] (writeTomlField field.1 field.2) := by
      apply Says.line (.string field.1 (isBareKey_of_mem hname) field.2
        (body_escaped field.2.toList))
      simp [writeTomlField, tomlString, String.join_cons]
    exact hfield.join_cons (ih hrest)

theorem says_header {header start : String} (hheader : header ∈ tomlKeys)
    (hstart : start.toList = "\n[[".toList ++ (header.toList ++ "]]\n".toList)) :
    Says [.tables header] start :=
  .header (isBareKey_of_mem hheader) hstart

/-! ## The tables -/

variable {Version : Type} [LockedVersions Version]

def LockedRegistrySnapshot.raw (snap : LockedRegistrySnapshot) : RawLockedRegistrySnapshot where
  registry := snap.registry
  checksum := snap.checksum.text

def LockedRegistryDependency.raw (dep : LockedRegistryDependency Version) :
    RawLockedRegistryDependency where
  aliasName := dep.aliasName
  registry := dep.registry
  name := dep.name
  version := LockedVersions.text dep.version
  snapshot := dep.snapshot.text
  checksum := dep.checksum.text

def LockedRegistryPackage.raw (pkg : LockedRegistryPackage Version) :
    RawLockedRegistryPackage where
  registry := pkg.registry
  name := pkg.name
  version := LockedVersions.text pkg.version
  snapshot := pkg.snapshot.text
  checksum := pkg.checksum.text
  dependencies := pkg.dependencies.map LockedRegistryDependency.raw

def LockedDependency.raw (dep : LockedDependency Version) : RawLockedDependency where
  aliasName := dep.aliasName
  name := dep.name
  version := LockedVersions.text dep.version
  source := dep.source
  path := dep.path

def LockedPackage.raw (pkg : LockedPackage Version) : RawLockedPackage where
  name := pkg.name
  version := LockedVersions.text pkg.version
  edition := pkg.edition.asStr
  source := pkg.source
  path := pkg.path
  dependencies := pkg.dependencies.map LockedDependency.raw
  registryDependencies := pkg.registryDependencies.map LockedRegistryDependency.raw

/-- The tables that are written for a lockfile. -/
def Lockfile.raw (lockfile : Lockfile Version) : RawLockfile where
  format := lockfile.format
  registrySnapshot := lockfile.registrySnapshots.map LockedRegistrySnapshot.raw
  registryPackage := lockfile.registryPackages.map LockedRegistryPackage.raw
  package := lockfile.packages.map LockedPackage.raw

omit [LockedVersions Version] in
theorem says_writeSnapshot (snap : LockedRegistrySnapshot) :
    Says snap.raw.lines (writeSnapshot snap) :=
  (says_header (by simp [tomlKeys]) (by simp)).join_cons <|
    says_fields [("registry", _), ("checksum", _)] (by simp [tomlKeys]) .join_nil

theorem says_writeRegistryDependency {start : String} (hheader : Says [.tables header] start)
    (dep : LockedRegistryDependency Version) :
    Says (dep.raw.lines header) (String.join [start, writeRegistryDependency dep]) :=
  hheader.join_cons <| Says.join_singleton <|
    says_fields [("alias", _), ("registry", _), ("name", _), ("version", _), ("snapshot", _),
      ("checksum", _)] (by simp [tomlKeys]) .join_nil

theorem says_writeRegistryPackage (pkg : LockedRegistryPackage Version) :
    Says pkg.raw.lines (writeRegistryPackage pkg) := by
  have hdeps : Says (pkg.dependencies.flatMap fun dep =>
      dep.raw.lines "registry-package.dependencies")
      (String.join (pkg.dependencies.map fun dep => String.join
        ["\n[[registry-package.dependencies]]\n", writeRegistryDependency dep])) :=
    Says.flatMap fun dep _ =>
      says_writeRegistryDependency (says_header (by simp [tomlKeys]) (by simp)) dep
  have hlines : pkg.raw.dependencies.flatMap
      (RawLockedRegistryDependency.lines "registry-package.dependencies") =
        pkg.dependencies.flatMap fun dep =>
          dep.raw.lines "registry-package.dependencies" :=
    flatMap_map _ _ _
  rw [RawLockedRegistryPackage.lines, hlines]
  exact (says_header (by simp [tomlKeys]) (by simp)).join_cons <|
    says_fields [("registry", _), ("name", _), ("version", _), ("snapshot", _), ("checksum", _)]
      (by simp [tomlKeys]) hdeps.join_singleton

theorem says_writeDependency (dep : LockedDependency Version) :
    Says dep.raw.lines
      (String.join ["\n[[package.dependencies]]\n", writeDependency dep]) :=
  (says_header (by simp [tomlKeys]) (by simp)).join_cons <| Says.join_singleton <|
    says_fields [("alias", _), ("name", _), ("version", _), ("source", _), ("path", _)]
      (by simp [tomlKeys]) .join_nil

theorem says_writePackage (pkg : LockedPackage Version) :
    Says pkg.raw.lines (writePackage pkg) := by
  have hdeps : Says (pkg.dependencies.flatMap fun dep => dep.raw.lines)
      (String.join (pkg.dependencies.map fun dep => String.join
        ["\n[[package.dependencies]]\n", writeDependency dep])) :=
    Says.flatMap fun dep _ => says_writeDependency dep
  have hreg : Says (pkg.registryDependencies.flatMap fun dep =>
      dep.raw.lines "package.registry-dependencies")
      (String.join (pkg.registryDependencies.map fun dep => String.join
        ["\n[[package.registry-dependencies]]\n", writeRegistryDependency dep])) :=
    Says.flatMap fun dep _ =>
      says_writeRegistryDependency (says_header (by simp [tomlKeys]) (by simp)) dep
  have hlines : pkg.raw.dependencies.flatMap RawLockedDependency.lines =
      pkg.dependencies.flatMap fun dep => dep.raw.lines :=
    flatMap_map _ _ _
  have hregistryLines : pkg.raw.registryDependencies.flatMap
      (RawLockedRegistryDependency.lines "package.registry-dependencies") =
        pkg.registryDependencies.flatMap fun dep =>
          dep.raw.lines "package.registry-dependencies" :=
    flatMap_map _ _ _
  rw [RawLockedPackage.lines, hlines, hregistryLines]
  exact (says_header (by simp [tomlKeys]) (by simp)).join_cons <|
    says_fields [("name", _), ("version", _), ("edition", _), ("source", _), ("path", _)]
      (by simp [tomlKeys]) (hdeps.join_cons hreg.join_singleton)

theorem says_toText (lockfile : Lockfile Version) : Says lockfile.raw.lines (toText lockfile) := by
  have hformat : Says [.integer "format" lockfile.format]
      (String.join ["format = ", toString lockfile.format, "\n"]) :=
    .line (.integer "format" (isBareKey_of_mem (by simp [tomlKeys])) lockfile.format) (by simp [String.join_cons])
  have htext : toText lockfile = String.join
      ["# This file is automatically generated by salic.\n", "# Do not edit it by hand.\n",
        String.join ["format = ", toString lockfile.format, "\n"],
        String.join (lockfile.registrySnapshots.map writeSnapshot),
        String.join (lockfile.registryPackages.map writeRegistryPackage),
        String.join (lockfile.packages.map writePackage)] := by
    simp only [toText, String.join_cons, String.append_assoc]
    rfl
  have hlines : lockfile.raw.lines = [] ++ ([] ++ ([.integer "format" lockfile.format] ++
      (lockfile.registrySnapshots.flatMap (fun snap => snap.raw.lines) ++
        (lockfile.registryPackages.flatMap (fun pkg => pkg.raw.lines) ++
          lockfile.packages.flatMap fun pkg => pkg.raw.lines)))) := by
    simp [RawLockfile.lines, Lockfile.raw, flatMap_map]
  rw [htext, hlines]
  exact (Says.comment " This file is automatically generated by salic." (by simp)
      (by simp)).join_cons <|
    (Says.comment " Do not edit it by hand." (by simp) (by simp)).join_cons <|
    hformat.join_cons <|
    (Says.flatMap fun snap _ => says_writeSnapshot snap).join_cons <|
    (Says.flatMap fun pkg _ => says_writeRegistryPackage pkg).join_cons <|
    (Says.flatMap fun pkg _ => says_writePackage pkg).join_singleton

end Salicin.Locking
