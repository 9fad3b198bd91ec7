import Salicin.Incremental.Framing

/-!
# Inputs that are the same

Two inputs are the same if the packages of one are those of the other under other numbers, however
they and their sources are listed. What the numbers stand for is in the bytes that are fed to the
hash; the numbers, the listings and the paths of the sources are not.
-/

namespace Salicin.Incremental

open List ComparisonSort SelfDelimiting SortedTable

structure IncrementalInput where
  packages : Vec SourcePackage
  target : IncrementalTarget
  environment : FingerprintEnvironment

/-- A package without the listing and the paths of its sources. -/
structure PackageContent where
  id : PackageId
  name : Str
  version : Str
  identity : Str
  isPrimary : Bool
  dependencies : Str → Option PackageId
  sources : Multiset SourceText

/-- The content of a package under other numbers. -/
def contentUnder (renumber : PackageId → PackageId) (pkg : SourcePackage) : PackageContent where
  id := renumber pkg.id
  name := pkg.name
  version := pkg.version
  identity := pkg.identity
  isPrimary := pkg.isPrimary
  dependencies := fun given => (pkg.dependencies.1.lookup given).map renumber
  sources := (pkg.sources.1.map sourceText : List SourceText)

/-- The same packages under other numbers, in any order. -/
def Renumbers (renumber : PackageId → PackageId) (first second : List SourcePackage) : Prop :=
  Set.InjOn renumber {id | id ∈ first.map (·.id)} ∧
    (first.map (contentUnder renumber)).Perm (second.map (contentUnder id))

structure SameInput (first second : IncrementalInput) : Prop where
  target : first.target = second.target
  environment : first.environment = second.environment
  packages : ∃ renumber, Renumbers renumber first.packages.1 second.packages.1

/-! ## Lists of packages -/

section
variable {pkgs : List SourcePackage} {first second : SourcePackage}

theorem ValidGraph.eq_of_id (hvalid : ValidGraph pkgs) (hfirst : first ∈ pkgs)
    (hsecond : second ∈ pkgs) (h : first.id = second.id) : first = second :=
  inj_on_of_nodup_map hvalid.ids hfirst hsecond h

theorem ValidGraph.eq_of_identity (hvalid : ValidGraph pkgs) (hfirst : first ∈ pkgs)
    (hsecond : second ∈ pkgs) (h : first.identity = second.identity) : first = second :=
  inj_on_of_nodup_map hvalid.identities hfirst hsecond h

end

/-- What two sources are compared by. -/
def sourceKey (source : SourceUnit) : List Str ×ₗ Bool ×ₗ Str :=
  toLex (source.modulePath.1, toLex (source.isRoot, source.source))

theorem compares_compareSources : Compares compareSources sourceKey :=
  (compares_byKey _).then ((compares_byKey _).then (compares_byKey _))

def textKey (text : SourceText) : List Str ×ₗ Bool ×ₗ Str :=
  toLex (text.2.1.1, toLex (text.1, text.2.2))

theorem sourceText_eq_of_key {left right : SourceUnit} (h : sourceKey left = sourceKey right) :
    sourceText left = sourceText right := by
  obtain ⟨hpath, hrest⟩ := Prod.mk.inj (toLex_inj.mp h)
  obtain ⟨hroot, hsrc⟩ := Prod.mk.inj (toLex_inj.mp hrest)
  rw [sourceText, sourceText, hroot, hsrc, Subtype.ext hpath]

/-- The sources of a package are written the same exactly when they are the same in some order. -/
theorem sourceTexts_eq_iff {first second : Vec SourceUnit} :
    sourceTexts first = sourceTexts second ↔
      (first.1.map sourceText).Perm (second.1.map sourceText) := by
  constructor
  · intro htexts
    have hlists := congrArg Subtype.val htexts
    rw [sourceTexts, sourceTexts] at hlists
    dsimp only at hlists
    have hfirst := (perm_sortBy compareSources first.1).map sourceText
    have hsecond := (perm_sortBy compareSources second.1).map sourceText
    rw [hlists] at hfirst
    exact hfirst.symm.trans hsecond
  · intro hperm
    apply Subtype.ext
    apply map_sortBy_eq_of_perm compares_compareSources textKey
    · exact fun _ _ => rfl
    · exact fun _ _ => rfl
    · exact fun _ _ _ _ hkey => sourceText_eq_of_key hkey
    · exact hperm

/-- The aliases of a package are written the same exactly when they name the same. -/
theorem dependencyTexts_eq_iff {read read' : PackageId → Str} {first second : Table PackageId} :
    dependencyTexts read first = dependencyTexts read' second ↔
      ∀ key, (first.1.lookup key).map read = (second.1.lookup key).map read' := by
  constructor
  · intro htexts key
    have hentries : (first.1.mapValues read).entries = (second.1.mapValues read').entries :=
      congrArg Subtype.val htexts
    rw [← SortedTable.lookup_mapValues, ← SortedTable.lookup_mapValues, SortedTable.lookup,
      hentries]
    rfl
  · intro hlookup
    have htables : first.1.mapValues read = second.1.mapValues read' := by
      ext key
      rw [SortedTable.lookup_mapValues, SortedTable.lookup_mapValues, hlookup]
    exact Subtype.ext (congrArg entries htables)

/-! ## Inputs that are the same are written the same -/

variable {other : SourcePackage} {pkg : SourcePackage}

section
variable {first second : List SourcePackage} {renumber : PackageId → PackageId}

theorem exists_content_of_perm {read read' : SourcePackage → PackageContent}
    (hperm : (first.map read).Perm (second.map read')) (hpkg : pkg ∈ first) :
    ∃ other ∈ second, read pkg = read' other := by
  have hmem := hperm.mem_iff.mp (mem_map.mpr ⟨pkg, hpkg, rfl⟩)
  obtain ⟨other, hother, hcontent⟩ := mem_map.mp hmem
  exact ⟨other, hother, hcontent.symm⟩

variable (hfirst : ValidGraph first) (hsecond : ValidGraph second)
include hfirst hsecond

section
variable (hrenumbers : Renumbers renumber first second)
include hrenumbers

theorem Renumbers.identityOf_eq {number : PackageId} (hnum : number ∈ first.map (·.id)) :
    identityOf second (renumber number) = identityOf first number := by
  obtain ⟨pkg, hpkg, rfl⟩ := mem_map.mp hnum
  obtain ⟨other, hother, hcontent⟩ := exists_content_of_perm hrenumbers.2 hpkg
  have hid : renumber pkg.id = other.id := congrArg PackageContent.id hcontent
  have hident : pkg.identity = other.identity := congrArg PackageContent.identity hcontent
  rw [hid, hsecond.identityOf_eq hother, hfirst.identityOf_eq hpkg, hident]

theorem Renumbers.packageText_eq (hpkg : pkg ∈ first)
    (hcontent : contentUnder renumber pkg = contentUnder id other) :
    packageText (identityOf first) pkg = packageText (identityOf second) other := by
  have hsrcs : sourceTexts pkg.sources = sourceTexts other.sources :=
    sourceTexts_eq_iff.mpr (Multiset.coe_eq_coe.mp (congrArg PackageContent.sources hcontent))
  have hdeps : dependencyTexts (identityOf first) pkg.dependencies =
      dependencyTexts (identityOf second) other.dependencies := by
    rw [dependencyTexts_eq_iff]
    intro key
    have hnamed : (pkg.dependencies.1.lookup key).map renumber =
        (other.dependencies.1.lookup key).map id :=
      congrFun (congrArg PackageContent.dependencies hcontent) key
    rw [Option.map_id, id] at hnamed
    rw [← hnamed, Option.map_map]
    apply Option.map_congr
    intro number hnum
    have hentry := (lookup_eq_some _).mp hnum
    exact (hrenumbers.identityOf_eq hfirst hsecond (hfirst.known pkg hpkg _ hentry)).symm
  have hname : pkg.name = other.name := congrArg PackageContent.name hcontent
  have hver : pkg.version = other.version := congrArg PackageContent.version hcontent
  have hident : pkg.identity = other.identity := congrArg PackageContent.identity hcontent
  have hprim : pkg.isPrimary = other.isPrimary := congrArg PackageContent.isPrimary hcontent
  rw [packageText, packageText, hname, hver, hident, hprim, hdeps, hsrcs]

theorem Renumbers.packageText_eq_of_identity (hpkg : pkg ∈ first) (hother : other ∈ second)
    (hident : pkg.identity = other.identity) :
    packageText (identityOf first) pkg = packageText (identityOf second) other := by
  obtain ⟨found, hfound, hcontent⟩ := exists_content_of_perm hrenumbers.2 hpkg
  have hsame : pkg.identity = found.identity := congrArg PackageContent.identity hcontent
  rw [← hsecond.eq_of_identity hfound hother (hsame.symm.trans hident)]
  exact hrenumbers.packageText_eq hfirst hsecond hpkg hcontent

theorem Renumbers.texts_perm : (first.map (packageText (identityOf first))).Perm
      (second.map (packageText (identityOf second))) := by
  have hnodup : ∀ {pkgs : List SourcePackage}, ValidGraph pkgs →
      (pkgs.map (packageText (identityOf pkgs))).Nodup := by
    intro pkgs hvalid
    apply List.Nodup.of_map Prod.fst
    rw [map_map]
    exact hvalid.identities
  rw [perm_ext_iff_of_nodup (hnodup hfirst) (hnodup hsecond)]
  intro text
  rw [mem_map, mem_map]
  constructor
  · rintro ⟨pkg, hpkg, rfl⟩
    obtain ⟨other, hother, hcontent⟩ := exists_content_of_perm hrenumbers.2 hpkg
    exact ⟨other, hother, (hrenumbers.packageText_eq hfirst hsecond hpkg hcontent).symm⟩
  · rintro ⟨other, hother, rfl⟩
    obtain ⟨pkg, hpkg, hcontent⟩ := exists_content_of_perm hrenumbers.2.symm hother
    exact ⟨pkg, hpkg, hrenumbers.packageText_eq hfirst hsecond hpkg hcontent.symm⟩

end

end

theorem packageTexts_eq_of_renumbers {first second : Vec SourcePackage}
    {renumber : PackageId → PackageId} (hfirst : ValidGraph first.1) (hsecond : ValidGraph second.1)
    (hrenumbers : Renumbers renumber first.1 second.1) :
    packageTexts (identityOf first.1) first = packageTexts (identityOf second.1) second := by
  apply Subtype.ext
  apply map_sortBy_eq_of_perm (compares_byKey _) Prod.fst
  · exact fun _ _ => rfl
  · exact fun _ _ => rfl
  · intro pkg hpkg other hother hident
    exact hrenumbers.packageText_eq_of_identity hfirst hsecond hpkg hother hident
  · exact hrenumbers.texts_perm hfirst hsecond

/-! ## Inputs that are written the same are the same -/

/-- The number of the package with an identity. -/
def numberOf (pkgs : List SourcePackage) (identity : Str) : PackageId :=
  ((pkgs.find? (·.identity = identity)).map (·.id)).getD ⟨0, by decide⟩

theorem ValidGraph.numberOf_eq {pkgs : List SourcePackage} (hvalid : ValidGraph pkgs)
    (hpkg : pkg ∈ pkgs) :
    numberOf pkgs pkg.identity = pkg.id := by
  cases hfind : pkgs.find? (·.identity = pkg.identity) with
  | none => exact absurd (List.find?_eq_none.mp hfind pkg hpkg) (by simp)
  | some found =>
    have hident : found.identity = pkg.identity := by simpa using List.find?_some hfind
    rw [numberOf, hfind, hvalid.eq_of_identity (mem_of_find?_eq_some hfind) hpkg hident]
    rfl

/-- The number of the second graph for one of the first: that of the package with the identity. -/
def renumbering (first second : List SourcePackage) (number : PackageId) : PackageId :=
  numberOf second (identityOf first number)

section
variable {first second : List SourcePackage} (hfirst : ValidGraph first)
  (hsecond : ValidGraph second)
include hfirst hsecond

theorem renumbering_eq (hpkg : pkg ∈ first) (hother : other ∈ second)
    (hident : pkg.identity = other.identity) :
    renumbering first second pkg.id = other.id := by
  rw [renumbering, hfirst.identityOf_eq hpkg, hident, hsecond.numberOf_eq hother]

theorem content_eq_of_packageText (hpkg : pkg ∈ first) (hother : other ∈ second)
    (htext : packageText (identityOf first) pkg = packageText (identityOf second) other) :
    contentUnder (renumbering first second) pkg = contentUnder id other := by
  simp only [packageText, Prod.mk.injEq] at htext
  obtain ⟨hident, hname, hver, hprim, hdeps, hsrcs⟩ := htext
  have hnamed : ∀ key, (pkg.dependencies.1.lookup key).map (renumbering first second) =
      (other.dependencies.1.lookup key).map id := by
    intro key
    have hidents := congrArg (Option.map (numberOf second))
      (dependencyTexts_eq_iff.mp hdeps key)
    rw [Option.map_map, Option.map_map] at hidents
    refine hidents.trans (Option.map_congr fun number hnum => ?_)
    have hentry := (lookup_eq_some _).mp hnum
    obtain ⟨target, htgt, hid⟩ := mem_map.mp (hsecond.known other hother _ hentry)
    have hnumberOf : numberOf second (identityOf second target.id) = target.id := by
      rw [hsecond.identityOf_eq htgt, hsecond.numberOf_eq htgt]
    rwa [hid] at hnumberOf
  have hlisted := Multiset.coe_eq_coe.mpr (sourceTexts_eq_iff.mp hsrcs)
  rw [contentUnder, contentUnder, renumbering_eq hfirst hsecond hpkg hother hident, hname,
    hver, hident, hprim, hlisted, funext hnamed]
  rfl

end

theorem renumbers_of_packageTexts {first second : Vec SourcePackage} (hfirst : ValidGraph first.1)
    (hsecond : ValidGraph second.1)
    (htexts : packageTexts (identityOf first.1) first = packageTexts (identityOf second.1) second) :
    Renumbers (renumbering first.1 second.1) first.1 second.1 := by
  have hlists := congrArg Subtype.val htexts
  rw [packageTexts, packageTexts] at hlists
  dsimp only at hlists
  have hcontents : (sortBy (byKey (·.identity)) first.1).map
        (contentUnder (renumbering first.1 second.1)) =
      (sortBy (byKey (·.identity)) second.1).map (contentUnder id) := by
    rw [← forall₂_eq_eq_eq, forall₂_map_left_iff, forall₂_map_right_iff,
      forall₂_iff_zip] at hlists ⊢
    refine ⟨hlists.1, fun {pkg other} hmem => ?_⟩
    obtain ⟨hpkg, hother⟩ := of_mem_zip hmem
    exact content_eq_of_packageText hfirst hsecond (mem_sortBy.mp hpkg) (mem_sortBy.mp hother)
      (hlists.2 hmem)
  have hperm : (first.1.map (contentUnder (renumbering first.1 second.1))).Perm
      (second.1.map (contentUnder id)) := by
    have hleft := (perm_sortBy (byKey (·.identity)) first.1).map
      (contentUnder (renumbering first.1 second.1))
    rw [hcontents] at hleft
    exact hleft.symm.trans ((perm_sortBy (byKey (·.identity)) second.1).map (contentUnder id))
  refine ⟨?_, hperm⟩
  intro number hnum other hother hsame
  obtain ⟨pkg, hpkg, rfl⟩ := mem_map.mp hnum
  obtain ⟨pkg', hpkg', rfl⟩ := mem_map.mp hother
  -- Both packages are written as one package of the second graph, the one with their new number.
  obtain ⟨image, himage, hcontent⟩ := exists_content_of_perm hperm hpkg
  obtain ⟨image', himage', hcontent'⟩ := exists_content_of_perm hperm hpkg'
  have hid : renumbering first.1 second.1 pkg.id = image.id := congrArg PackageContent.id hcontent
  have hid' : renumbering first.1 second.1 pkg'.id = image'.id :=
    congrArg PackageContent.id hcontent'
  have himages := hsecond.eq_of_id himage himage' (hid.symm.trans (hsame.trans hid'))
  have hident : pkg.identity = image.identity := congrArg PackageContent.identity hcontent
  have hident' : pkg'.identity = image'.identity := congrArg PackageContent.identity hcontent'
  rw [← himages] at hident'
  rw [hfirst.eq_of_identity hpkg hpkg' (hident.trans hident'.symm)]

/-! ## The fingerprint is canonical -/

def IncrementalInput.bytes (input : IncrementalInput) : Except FingerprintError (List UInt8) :=
  fingerprintInput input.packages input.target input.environment

def IncrementalInput.fingerprint (sha256 : List UInt8 → IncrementalFingerprint)
    (input : IncrementalInput) : Except FingerprintError IncrementalFingerprint :=
  fingerprintPackageGraphWithEnvironment sha256 input.packages input.target input.environment

def IncrementalInput.text (input : IncrementalInput) : EnvironmentText × Vec PackageText :=
  (environmentText input.target input.environment,
    packageTexts (identityOf input.packages.1) input.packages)

theorem text_eq_iff {first second : IncrementalInput} (hfirst : ValidGraph first.packages.1)
    (hsecond : ValidGraph second.packages.1) :
    first.text = second.text ↔ SameInput first second := by
  constructor
  · intro htext
    obtain ⟨henvironment, hpkgs⟩ := Prod.mk.inj htext
    simp only [environmentText, Prod.mk.injEq] at henvironment
    obtain ⟨hschema, hcompiler, hos, harch, htgt, hedition, hcore, halloc, hstandard⟩ :=
      henvironment
    refine ⟨htgt, ?_, _, renumbers_of_packageTexts hfirst hsecond hpkgs⟩
    cases hshape : first.environment
    cases hshape' : second.environment
    rw [hshape, hshape'] at hschema hcompiler hos harch hedition hcore halloc hstandard
    congr
  · intro hsame
    obtain ⟨renumber, hrenumbers⟩ := hsame.packages
    rw [IncrementalInput.text, IncrementalInput.text, hsame.target, hsame.environment,
      packageTexts_eq_of_renumbers hfirst hsecond hrenumbers]

/-- Valid inputs are fed to the hash as the same bytes exactly when they are the same, and, if the
hash keeps their bytes apart, they have one entry in the cache exactly when they are the same. -/
theorem fingerprint_canonical (sha256 : List UInt8 → IncrementalFingerprint)
    (first second : IncrementalInput) (hfirst : validateGraph first.packages.1 = .ok ())
    (hsecond : validateGraph second.packages.1 = .ok ()) :
    ∃ bytes bytes', first.bytes = .ok bytes ∧ second.bytes = .ok bytes' ∧
      (bytes = bytes' ↔ SameInput first second) ∧
      ((sha256 bytes = sha256 bytes' → bytes = bytes') →
        ∃ fingerprint fingerprint', first.fingerprint sha256 = .ok fingerprint ∧
          second.fingerprint sha256 = .ok fingerprint' ∧
          (cacheEntryRelativePath fingerprint = cacheEntryRelativePath fingerprint' ↔
            SameInput first second)) := by
  rw [validateGraph_eq_ok] at hfirst hsecond
  have hbytes : first.bytes = .ok (writeInput first.text) :=
    fingerprintInput_eq hfirst first.target first.environment
  have hbytes' : second.bytes = .ok (writeInput second.text) :=
    fingerprintInput_eq hsecond second.target second.environment
  have hsame : writeInput first.text = writeInput second.text ↔ SameInput first second := by
    rw [← text_eq_iff hfirst hsecond]
    exact ⟨fun h => (delimited_input first.text).eq_of second.text h, fun h => by rw [h]⟩
  refine ⟨_, _, hbytes, hbytes', hsame, fun hcollision => ?_⟩
  refine ⟨sha256 (writeInput first.text), sha256 (writeInput second.text), ?_, ?_, ?_⟩
  · exact congrArg (Except.map sha256) hbytes
  · exact congrArg (Except.map sha256) hbytes'
  · rw [← hsame]
    constructor
    · intro hpath
      exact hcollision (cacheEntryRelativePath_injective hpath)
    · intro h
      rw [h]

/-! ## A graph that is listed in two ways -/

def mathSource (path : Str) : SourceUnit where
  path := path
  modulePath := ⟨[], by decide⟩
  source := ⟨"pub let answer(): i32 = \x7b 42 \x7d\n", by decide⟩
  isRoot := true

def mathPackage (id : PackageId) (path : Str) : SourcePackage where
  id := id
  name := ⟨"math", by decide⟩
  version := ⟨"1.0.0", by decide⟩
  identity := ⟨"workspace:math|math@1.0.0", by decide⟩
  isPrimary := false
  dependencies := ⟨empty, by decide⟩
  sources := ⟨[mathSource path], (by decide : 1 < usizeLimit)⟩

def appSource (path : Str) : SourceUnit where
  path := path
  modulePath := ⟨[], by decide⟩
  source := ⟨"let main(): i32 = \x7b math.answer() \x7d\n", by decide⟩
  isRoot := true

def appPackage (id math : PackageId) (path : Str) : SourcePackage where
  id := id
  name := ⟨"app", by decide⟩
  version := ⟨"1.0.0", by decide⟩
  identity := ⟨"workspace:app|app@1.0.0", by decide⟩
  isPrimary := true
  dependencies := ⟨ofEntries [(⟨"math", by decide⟩, math)], (by decide : 1 < usizeLimit)⟩
  sources := ⟨[appSource path], (by decide : 1 < usizeLimit)⟩

def linuxEnvironment : FingerprintEnvironment where
  inputSchema := 2
  compiler := ⟨"0.258.0", by decide⟩
  hostOs := ⟨"linux", by decide⟩
  hostArch := ⟨"x86_64", by decide⟩
  edition := ⟨"2026", by decide⟩
  core := ⟨[], by decide⟩
  alloc := ⟨[], by decide⟩
  standard := ⟨[], by decide⟩

def checkedOut : IncrementalInput where
  packages := ⟨[appPackage ⟨4, by decide⟩ ⟨9, by decide⟩ ⟨"/checkout/app/src/main.sc", by decide⟩,
    mathPackage ⟨9, by decide⟩ ⟨"/checkout/math/src/lib.sc", by decide⟩],
    (by decide : 2 < usizeLimit)⟩
  target := .binary
  environment := linuxEnvironment

def moved : IncrementalInput where
  packages := ⟨[mathPackage ⟨2, by decide⟩ ⟨"/different/root/math/src/lib.sc", by decide⟩,
    appPackage ⟨7, by decide⟩ ⟨2, by decide⟩ ⟨"/different/root/app/src/main.sc", by decide⟩],
    (by decide : 2 < usizeLimit)⟩
  target := .binary
  environment := linuxEnvironment

/-- The hash of the bytes of the graph. -/
def graphDigest (_ : List UInt8) : IncrementalFingerprint :=
  ⟨[128, 79, 144, 119, 34, 54, 187, 132, 244, 241, 181, 246, 87, 6, 87, 246, 10, 241, 157, 95, 123,
    88, 32, 164, 132, 54, 234, 158, 136, 93, 80, 52], rfl⟩

theorem fingerprint_canonical_moved :
    ∃ bytes bytes', checkedOut.bytes = .ok bytes ∧ moved.bytes = .ok bytes' ∧
      (bytes = bytes' ↔ SameInput checkedOut moved) ∧
      ((graphDigest bytes = graphDigest bytes' → bytes = bytes') →
        ∃ fingerprint fingerprint', checkedOut.fingerprint graphDigest = .ok fingerprint ∧
          moved.fingerprint graphDigest = .ok fingerprint' ∧
          (cacheEntryRelativePath fingerprint = cacheEntryRelativePath fingerprint' ↔
            SameInput checkedOut moved)) :=
  fingerprint_canonical graphDigest checkedOut moved (by decide) (by decide +kernel)

end Salicin.Incremental
