import Salicin.Foundation.TomlText

/-!
# The tables of a lockfile

A lockfile is a document of TOML with arrays of tables. What is used of a reader of TOML is that it
reads the tables of a document whose lines have the fields in their order.
-/

namespace Salicin.Locking

open List SelfDelimiting TomlText Delimited

structure RawLockedRegistrySnapshot where
  registry : String
  checksum : String

structure RawLockedRegistryDependency where
  aliasName : String
  registry : String
  name : String
  version : String
  snapshot : String
  checksum : String

structure RawLockedRegistryPackage where
  registry : String
  name : String
  version : String
  snapshot : String
  checksum : String
  dependencies : List RawLockedRegistryDependency

structure RawLockedDependency where
  aliasName : String
  name : String
  version : String
  source : String
  path : String

structure RawLockedPackage where
  name : String
  version : String
  edition : String
  source : String
  path : String
  dependencies : List RawLockedDependency
  registryDependencies : List RawLockedRegistryDependency

structure RawLockfile where
  format : Nat
  registrySnapshot : List RawLockedRegistrySnapshot
  registryPackage : List RawLockedRegistryPackage
  package : List RawLockedPackage

def RawLockedRegistrySnapshot.lines (snapshot : RawLockedRegistrySnapshot) : List Line :=
  [.tables "registry-snapshot", .string "registry" snapshot.registry,
    .string "checksum" snapshot.checksum]

def RawLockedRegistryDependency.lines (header : String)
    (dependency : RawLockedRegistryDependency) : List Line :=
  [.tables header, .string "alias" dependency.aliasName, .string "registry" dependency.registry,
    .string "name" dependency.name, .string "version" dependency.version,
    .string "snapshot" dependency.snapshot, .string "checksum" dependency.checksum]

def RawLockedRegistryPackage.lines (package : RawLockedRegistryPackage) : List Line :=
  [.tables "registry-package", .string "registry" package.registry, .string "name" package.name,
    .string "version" package.version, .string "snapshot" package.snapshot,
    .string "checksum" package.checksum] ++
  package.dependencies.flatMap (RawLockedRegistryDependency.lines "registry-package.dependencies")

def RawLockedDependency.lines (dependency : RawLockedDependency) : List Line :=
  [.tables "package.dependencies", .string "alias" dependency.aliasName,
    .string "name" dependency.name, .string "version" dependency.version,
    .string "source" dependency.source, .string "path" dependency.path]

def RawLockedPackage.lines (package : RawLockedPackage) : List Line :=
  [.tables "package", .string "name" package.name, .string "version" package.version,
    .string "edition" package.edition, .string "source" package.source,
    .string "path" package.path] ++
  (package.dependencies.flatMap RawLockedDependency.lines ++ package.registryDependencies.flatMap
      (RawLockedRegistryDependency.lines "package.registry-dependencies"))

/-- The lines of a document with these tables. -/
def RawLockfile.lines (raw : RawLockfile) : List Line :=
  .integer "format" raw.format :: (raw.registrySnapshot.flatMap RawLockedRegistrySnapshot.lines ++
    (raw.registryPackage.flatMap RawLockedRegistryPackage.lines ++
      raw.package.flatMap RawLockedPackage.lines))

/-- `toml::from_str` reads the tables that a document says. -/
def ReadsToml (fromStr : String → Except String RawLockfile) : Prop :=
  ∀ raw text, raw.format < 2 ^ 32 → Says raw.lines text → fromStr text = .ok raw

/-! ## Reading the tables -/

theorem RawLockedRegistrySnapshot.delimited (snapshot : RawLockedRegistrySnapshot) :
    Delimited RawLockedRegistrySnapshot.lines snapshot := by
  obtain ⟨registry, checksum⟩ := snapshot
  rintro ⟨registry', checksum'⟩ rest rest' h
  simpa [lines, and_assoc] using h

theorem RawLockedRegistryDependency.delimited (header : String)
    (dependency : RawLockedRegistryDependency) :
    Delimited (RawLockedRegistryDependency.lines header) dependency := by
  obtain ⟨aliasName, registry, name, version, snap, checksum⟩ := dependency
  rintro ⟨aliasName', registry', name', version', snap', checksum'⟩ rest rest' h
  simpa [lines, and_assoc] using h

theorem RawLockedDependency.delimited (dependency : RawLockedDependency) :
    Delimited RawLockedDependency.lines dependency := by
  obtain ⟨aliasName, name, version, src, path⟩ := dependency
  rintro ⟨aliasName', name', version', src', path'⟩ rest rest' h
  simpa [lines, and_assoc] using h

theorem RawLockedRegistryPackage.delimited (package : RawLockedRegistryPackage) :
    DelimitedBefore (· = .tables "registry-package.dependencies") RawLockedRegistryPackage.lines
      package := by
  obtain ⟨registry, name, version, snap, checksum, deps⟩ := package
  rintro ⟨registry', name', version', snap', checksum', deps'⟩ rest rest' hrest hrest' h
  simp only [lines, cons_append, nil_append, cons.injEq, Line.string.injEq, true_and] at h
  obtain ⟨rfl, rfl, rfl, rfl, rfl, h⟩ := h
  obtain ⟨rfl, hrest⟩ := marked (· = .tables "registry-package.dependencies")
    (fun dep _ => dep.delimited _) (fun dep => ⟨_, rfl, rfl⟩) hrest hrest' h
  exact ⟨rfl, hrest⟩

/-- A table that goes on with a package. -/
def GoesOn (line : Line) : Prop :=
  line = .tables "package.dependencies" ∨ line = .tables "package.registry-dependencies"

theorem RawLockedPackage.delimited (package : RawLockedPackage) :
    DelimitedBefore GoesOn RawLockedPackage.lines package := by
  obtain ⟨name, version, edition, source, path, dependencies, registryDependencies⟩ := package
  rintro ⟨name', version', edition', source', path', dependencies', registryDependencies'⟩
    rest rest' hrest hrest' h
  simp only [lines, cons_append, nil_append, append_assoc, cons.injEq,
    Line.string.injEq, true_and] at h
  obtain ⟨rfl, rfl, rfl, rfl, rfl, h⟩ := h
  -- The registry dependencies do not begin with a local one.
  have hbegins : ∀ (dependencies : List RawLockedRegistryDependency) {rest : List Line},
      (∀ line ∈ rest.head?, ¬ GoesOn line) → ∀ line ∈ (dependencies.flatMap
        (RawLockedRegistryDependency.lines "package.registry-dependencies") ++ rest).head?,
          line ≠ .tables "package.dependencies" := by
    intro dependencies rest hrest
    refine not_more_flatMap (· = .tables "package.registry-dependencies") ?_
      (fun dependency => ⟨_, rfl, rfl⟩) dependencies ?_
    · rintro _ rfl
      decide
    · exact fun line hline heq => hrest line hline (.inl heq)
  obtain ⟨rfl, htail⟩ := marked (· = .tables "package.dependencies")
    (fun (dependency : RawLockedDependency) _ => dependency.delimited)
    (fun dependency => ⟨_, rfl, rfl⟩) (hbegins _ hrest) (hbegins _ hrest') h
  obtain ⟨rfl, hrest⟩ := marked (· = .tables "package.registry-dependencies")
    (fun (dependency : RawLockedRegistryDependency) _ => dependency.delimited _) (fun dependency => ⟨_, rfl, rfl⟩)
    (fun line hline heq => hrest line hline (.inr heq))
    (fun line hline heq => hrest' line hline (.inr heq)) htail
  exact ⟨rfl, hrest⟩

theorem RawLockfile.lines_injective : Function.Injective RawLockfile.lines := by
  rintro ⟨format, snapshots, registryPackages, packages⟩
    ⟨format', snapshots', registryPackages', packages'⟩ h
  simp only [lines, cons.injEq, Line.integer.injEq, true_and] at h
  obtain ⟨rfl, h⟩ := h
  -- Each kind of table is followed by the next kinds only.
  have hpkgs : ∀ packages : List RawLockedPackage,
      ∀ line ∈ (packages.flatMap RawLockedPackage.lines).head?, line = .tables "package" := by
    intro packages line hline
    cases packages with
    | nil => simp at hline
    | cons package rest => exact (Option.mem_some_iff.mp hline).symm
  have hreg : ∀ (registryPackages : List RawLockedRegistryPackage)
      (packages : List RawLockedPackage),
      ∀ line ∈ (registryPackages.flatMap RawLockedRegistryPackage.lines ++
        packages.flatMap RawLockedPackage.lines).head?, line ≠ .tables "registry-snapshot" := by
    intro registryPackages packages line hline
    cases registryPackages with
    | nil =>
      rw [hpkgs packages line hline]
      decide
    | cons package rest =>
      obtain rfl := Option.mem_some_iff.mp hline
      decide
  have hlast : ∀ packages : List RawLockedPackage,
      ∀ line ∈ (packages.flatMap RawLockedPackage.lines).head?,
        line ≠ .tables "registry-package" ∧ line ≠ .tables "registry-package.dependencies" := by
    intro packages line hline
    rw [hpkgs packages line hline]
    decide
  obtain ⟨rfl, htail⟩ := marked (· = .tables "registry-snapshot")
    (fun (snapshot : RawLockedRegistrySnapshot) _ => snapshot.delimited)
    (fun snapshot => ⟨_, rfl, rfl⟩) (hreg _ _) (hreg _ _) h
  obtain ⟨rfl, hlines⟩ := DelimitedBefore.marked (· = .tables "registry-package")
    (by rintro _ rfl; decide) (fun (package : RawLockedRegistryPackage) _ => package.delimited)
    (fun package => ⟨_, rfl, rfl⟩) (hlast _) (hlast _) htail
  have hend : packages.flatMap RawLockedPackage.lines ++ [] =
      packages'.flatMap RawLockedPackage.lines ++ [] := by rw [hlines]
  obtain ⟨rfl, _⟩ := DelimitedBefore.marked (· = .tables "package")
    (by rintro _ rfl; unfold GoesOn; decide)
    (fun (package : RawLockedPackage) _ => package.delimited) (fun package => ⟨_, rfl, rfl⟩)
    (by simp) (by simp) hend
  rfl

open Classical in
/-- The reader that knows every document with the lines of a lockfile. -/
noncomputable def readTables (text : String) : Except String RawLockfile :=
  if h : ∃ raw : RawLockfile, Says raw.lines text then .ok h.choose
  else .error "expected the tables of a lockfile"

theorem readsToml_readTables : ReadsToml readTables := by
  intro raw text _ hsays
  have hsome : ∃ raw : RawLockfile, Says raw.lines text := ⟨raw, hsays⟩
  rw [readTables, dif_pos hsome, RawLockfile.lines_injective (hsome.choose_spec.unique hsays)]

end Salicin.Locking
