import Mathlib.Data.List.Basic
import Mathlib.Tactic.NormNum

/-!
# Paths of packages

A lockfile names each package by its path from the root of the project. The name of a file is a
string of bytes; it is kept as the list of its characters, with the bytes between them that are
not UTF-8. A path is printed with a replacement character for such bytes. Only the paths of Unix
are modelled.
-/

namespace Salicin.Locking

open List

/-- A character of a file name, or a piece of it that is not UTF-8. -/
inductive NamePart
  | char (character : Char)
  | invalid (bytes : List UInt8)
  deriving DecidableEq

abbrev OsName := List NamePart

/-- The name of a file, other than the two that stand for directories. -/
structure OsName.Valid (name : OsName) : Prop where
  nonempty : name ≠ []
  no_separator : .char '/' ∉ name
  ne_current : name ≠ [.char '.']
  ne_parent : name ≠ [.char '.', .char '.']

inductive Component
  | rootDir
  | curDir
  | parentDir
  | normal (name : OsName)
  deriving DecidableEq

/-- A path as `fs::canonicalize` returns it: absolute, and without `.`, `..` or symbolic links. -/
structure CanonicalPath where
  names : List OsName
  valid : ∀ name ∈ names, name.Valid
  deriving DecidableEq

def CanonicalPath.components (path : CanonicalPath) : List Component :=
  .rootDir :: path.names.map .normal

/-! ## Relative paths -/

/-- The length of the longest common prefix. -/
def commonLength {α : Type} [DecidableEq α] : List α → List α → Nat
  | first :: left, second :: right => if first = second then commonLength left right + 1 else 0
  | _, _ => 0

def isAbsolute (path : List Component) : Bool := path.head? = some .rootDir

def relativePath (source target : List Component) : Option (List Component) :=
  let common := commonLength source target
  if common = 0 ∧ (isAbsolute source ∨ isAbsolute target ∨ source.head? ≠ target.head?) then none
  else if (source.drop common).any (· = .rootDir) then none
  else some (((source.drop common).filter (· ≠ .curDir)).map (fun _ => .parentDir) ++
    target.drop common)

/-! ## The text of a path -/

/-- What `to_string_lossy` makes of a part of a name. -/
def NamePart.lossy : NamePart → Char
  | .char character => character
  | .invalid _ => '\uFFFD'

def OsName.lossy (name : OsName) : List Char := name.map NamePart.lossy

def Component.text : Component → List Char
  | .rootDir => ['/']
  | .curDir => ['.']
  | .parentDir => ['.', '.']
  | .normal name => name.lossy

def pathText : List Component → List Char
  | .rootDir :: rest => '/' :: List.intercalate ['/'] (rest.map Component.text)
  | components => List.intercalate ['/'] (components.map Component.text)

def portableRelativePath (root target : List Component) : String :=
  let path := (relativePath root target).getD target
  if path = [] then "." else String.ofList (pathText path)

def packageSource (root target : CanonicalPath) (workspaceMembers : List CanonicalPath) : String :=
  (if target ∈ workspaceMembers then "workspace" else "path") ++ ":" ++
    portableRelativePath root.components target.components

/-! ## Reading a path -/

def segmentComponent : List Char → Option Component
  | [] => none
  | ['.'] => none
  | ['.', '.'] => some .parentDir
  | segment => some (.normal (segment.map .char))

/-- What `Path::components` makes of a text. A `.` counts only where the text begins. -/
def pathComponents (text : String) : List Component :=
  let segments := text.toList.splitOn '/'
  let first := if text.toList.head? = some '/' then [.rootDir]
    else if segments.head? = some ['.'] then [.curDir] else []
  first ++ segments.filterMap segmentComponent

/-- Where a path leads from a directory. -/
def follow (names : List OsName) : Component → List OsName
  | .rootDir => []
  | .curDir => names
  | .parentDir => names.dropLast
  | .normal name => names ++ [name]

/-- The text of the path leads from the first directory to the second. -/
def LeadsTo (root target : CanonicalPath) (text : String) : Prop :=
  (pathComponents text).foldl follow root.names = target.names

/-! ## The path between two directories -/

section

variable {α : Type} [DecidableEq α]

theorem take_commonLength (left right : List α) :
    left.take (commonLength left right) = right.take (commonLength left right) := by
  induction left generalizing right with
  | nil => simp [commonLength]
  | cons first left ih =>
    cases right with
    | nil => simp [commonLength]
    | cons second right =>
      unfold commonLength
      split_ifs with heq
      · rw [take_succ_cons, take_succ_cons, heq, ih]
      · rfl

theorem commonLength_le (left right : List α) : commonLength left right ≤ left.length := by
  induction left generalizing right with
  | nil => simp [commonLength]
  | cons first left ih =>
    cases right with
    | nil => simp [commonLength]
    | cons second right =>
      unfold commonLength
      split_ifs
      · exact Nat.succ_le_succ (ih right)
      · exact Nat.zero_le _

theorem commonLength_map {β : Type} [DecidableEq β] {f : α → β} (hf : Function.Injective f)
    (left right : List α) : commonLength (left.map f) (right.map f) = commonLength left right := by
  induction left generalizing right with
  | nil => rfl
  | cons first left ih =>
    cases right with
    | nil => rfl
    | cons second right => simp [commonLength, hf.eq_iff, ih]

end

/-- The number of directories to leave on the way. -/
def ascent (root target : CanonicalPath) : Nat :=
  root.names.length - commonLength root.names target.names

/-- The names of the directories to enter on the way. -/
def descent (root target : CanonicalPath) : List OsName :=
  target.names.drop (commonLength root.names target.names)

variable (root target : CanonicalPath)

theorem relativePath_components :
    relativePath root.components target.components =
      some (List.replicate (ascent root target) .parentDir ++
        (descent root target).map .normal) := by
  have hinj : Function.Injective Component.normal := fun _ _ heq => Component.normal.inj heq
  have hcommon : commonLength root.components target.components =
      commonLength root.names target.names + 1 := by
    simp [CanonicalPath.components, commonLength, commonLength_map hinj]
  have hrest : ∀ path : CanonicalPath, path.components.drop
      (commonLength root.names target.names + 1) =
        (path.names.drop (commonLength root.names target.names)).map .normal := by
    intro path
    rw [CanonicalPath.components, drop_succ_cons, map_drop]
  have hkept : ∀ names : List OsName, ((names.map Component.normal).filter (· ≠ .curDir)) =
      names.map .normal := by
    intro names
    apply filter_eq_self.mpr
    simp
  have hroot : ∀ names : List OsName, (names.map Component.normal).any (· = .rootDir) = false := by
    intro names
    simp
  unfold relativePath
  simp only [hcommon, hrest, hkept, hroot, Nat.add_eq_zero_iff, Nat.one_ne_zero, and_false,
    false_and, if_false, Bool.false_eq_true, map_map, descent, ascent]
  congr 2
  simp [Function.comp_def, map_const']

theorem portableRelativePath_components :
    portableRelativePath root.components target.components =
      if ascent root target = 0 ∧ descent root target = [] then "." else
        String.ofList (intercalate ['/'] (List.replicate (ascent root target) ['.', '.'] ++
          (descent root target).map OsName.lossy)) := by
  unfold portableRelativePath
  rw [relativePath_components, Option.getD_some]
  have hempty : (List.replicate (ascent root target) Component.parentDir ++
      (descent root target).map .normal = []) ↔
        (ascent root target = 0 ∧ descent root target = []) := by
    simp
  simp only [hempty]
  split_ifs with hnone
  · rfl
  · have htext : pathText (List.replicate (ascent root target) Component.parentDir ++
        (descent root target).map .normal) = intercalate ['/']
          ((List.replicate (ascent root target) Component.parentDir ++
            (descent root target).map Component.normal).map Component.text) := by
      cases ascent root target with
      | zero => cases descent root target <;> rfl
      | succ count => rfl
    rw [htext, map_append, map_replicate, map_map]
    rfl

/-! ## Reading the path back -/

theorem OsName.Valid.lossy_ne_nil {name : OsName} (hvalid : name.Valid) : name.lossy ≠ [] := by
  simpa [OsName.lossy] using hvalid.nonempty

theorem OsName.mem_lossy {name : OsName} {character : Char} (hreplaced : character ≠ '\uFFFD') :
    character ∈ name.lossy ↔ .char character ∈ name := by
  simp only [OsName.lossy, mem_map]
  constructor
  · rintro ⟨part, hpart, hlossy⟩
    cases part with
    | char other =>
      obtain rfl : other = character := hlossy
      exact hpart
    | invalid bytes => exact absurd hlossy.symm hreplaced
  · intro hmem
    exact ⟨.char character, hmem, rfl⟩

/-- A list of characters without the replacement character is printed by one name only. -/
theorem OsName.lossy_eq {name : OsName} {chars : List Char} (hreplaced : '\uFFFD' ∉ chars)
    (hlossy : name.lossy = chars) : name = chars.map .char := by
  subst hlossy
  have hsame : ∀ part ∈ name, (NamePart.char ∘ NamePart.lossy) part = part := by
    intro part hpart
    cases part with
    | char character => rfl
    | invalid bytes => exact absurd (mem_map.mpr ⟨NamePart.invalid bytes, hpart, rfl⟩) hreplaced
  rw [OsName.lossy, map_map, map_congr_left hsame, map_id'']
  exact fun _ => rfl

theorem segmentComponent_lossy {name : OsName} (hvalid : name.Valid) :
    segmentComponent name.lossy = some (.normal (name.lossy.map .char)) := by
  have hcur : name.lossy ≠ ['.'] := fun hlossy =>
    hvalid.ne_current (OsName.lossy_eq (by decide) hlossy)
  have hparent : name.lossy ≠ ['.', '.'] := fun hlossy =>
    hvalid.ne_parent (OsName.lossy_eq (by decide) hlossy)
  have hempty := hvalid.lossy_ne_nil
  unfold segmentComponent
  split <;> simp_all

theorem head?_intercalate {sep : List Char} {segs : List (List Char)}
    (hsome : segs ≠ []) (hsegs : ∀ seg ∈ segs, seg ≠ []) :
    (intercalate sep segs).head? = segs.head?.bind List.head? := by
  cases segs with
  | nil => exact absurd rfl hsome
  | cons first rest =>
    obtain ⟨char, chars, rfl⟩ := exists_cons_of_ne_nil (hsegs first mem_cons_self)
    cases rest with
    | nil => simp [intercalate]
    | cons second rest => simp [intercalate]

theorem CanonicalPath.descent_valid :
    ∀ name ∈ descent root target, name.Valid :=
  fun name hname => target.valid name (mem_of_mem_drop hname)

theorem pathComponents_portableRelativePath :
    pathComponents (portableRelativePath root.components target.components) =
      if ascent root target = 0 ∧ descent root target = [] then [.curDir] else
        List.replicate (ascent root target) .parentDir ++
          (descent root target).map fun name => .normal (name.lossy.map .char) := by
  rw [portableRelativePath_components]
  split_ifs with hnone
  · decide
  have hvalid := CanonicalPath.descent_valid root target
  generalize ascent root target = count, descent root target = names at hnone hvalid ⊢
  have hsegs : ∀ seg ∈ List.replicate count ['.', '.'] ++ names.map OsName.lossy,
      seg ≠ [] ∧ '/' ∉ seg ∧ seg ≠ ['.'] := by
    intro seg hseg
    rcases mem_append.mp hseg with hparent | hname
    · rw [eq_of_mem_replicate hparent]
      decide
    · obtain ⟨name, hmem, rfl⟩ := mem_map.mp hname
      refine ⟨(hvalid name hmem).lossy_ne_nil, ?_, ?_⟩
      · rw [OsName.mem_lossy (by decide)]
        exact (hvalid name hmem).no_separator
      · exact fun hlossy => (hvalid name hmem).ne_current (OsName.lossy_eq (by decide) hlossy)
  have hsome : List.replicate count ['.', '.'] ++ names.map OsName.lossy ≠ [] := by
    simpa using hnone
  have hsplit : (intercalate ['/'] (List.replicate count ['.', '.'] ++
      names.map OsName.lossy)).splitOn '/' =
        List.replicate count ['.', '.'] ++ names.map OsName.lossy :=
    splitOn_intercalate '/' (fun seg hseg => (hsegs seg hseg).2.1) hsome
  have hread : (List.replicate count ['.', '.'] ++ names.map OsName.lossy).filterMap
      segmentComponent = List.replicate count .parentDir ++
        names.map fun name => .normal (name.lossy.map .char) := by
    have hnames : ∀ name ∈ names, (segmentComponent ∘ OsName.lossy) name =
        some (.normal (name.lossy.map .char)) :=
      fun name hname => segmentComponent_lossy (hvalid name hname)
    have hparent : segmentComponent ['.', '.'] = some .parentDir := rfl
    rw [filterMap_append, filterMap_map, filterMap_congr hnames,
      filterMap_eq_map', filterMap_replicate_of_some hparent]
  have hhead : (intercalate ['/'] (List.replicate count ['.', '.'] ++
      names.map OsName.lossy)).head? ≠ some '/' := by
    intro hhead
    rw [head?_intercalate hsome fun seg hseg => (hsegs seg hseg).1] at hhead
    obtain ⟨seg, hseg, hslash⟩ := Option.bind_eq_some_iff.mp hhead
    exact (hsegs seg (mem_of_mem_head? hseg)).2.1 (mem_of_mem_head? hslash)
  have hfst : (List.replicate count ['.', '.'] ++ names.map OsName.lossy).head? ≠ some ['.'] := by
    intro hdot
    exact (hsegs _ (mem_of_mem_head? hdot)).2.2 rfl
  simp only [pathComponents, String.toList_ofList, hsplit, hread, hhead, hfst, if_false, nil_append]

theorem foldl_follow_parentDir (names : List OsName) (count : Nat) :
    (List.replicate count Component.parentDir).foldl follow names =
      names.take (names.length - count) := by
  induction count generalizing names with
  | zero => simp
  | succ count ih =>
    rw [replicate_succ, foldl_cons, ih]
    simp only [follow, dropLast_eq_take, take_take, length_take]
    congr 1
    omega

theorem foldl_follow_normal (names entered : List OsName) :
    (entered.map Component.normal).foldl follow names = names ++ entered := by
  induction entered generalizing names with
  | nil => simp
  | cons name rest ih => simp [follow, ih]

/-- The name is UTF-8. -/
def OsName.IsText (name : OsName) : Prop := ∀ part ∈ name, ∃ character, part = .char character

theorem OsName.isText_iff {name : OsName} : name.lossy.map NamePart.char = name ↔ name.IsText := by
  constructor
  · intro hsame part hpart
    rw [← hsame] at hpart
    obtain ⟨char, _, rfl⟩ := mem_map.mp hpart
    exact ⟨char, rfl⟩
  · intro htext
    have hsame : ∀ part ∈ name, (NamePart.char ∘ NamePart.lossy) part = part := by
      intro part hpart
      obtain ⟨char, rfl⟩ := htext part hpart
      rfl
    rw [OsName.lossy, map_map, map_congr_left hsame, map_id'']
    exact fun _ => rfl

/-- The printed path leads back to its directory exactly when the names on the way are UTF-8. -/
theorem leadsTo_portableRelativePath_iff :
    LeadsTo root target (portableRelativePath root.components target.components) ↔
      ∀ name ∈ descent root target, name.IsText := by
  have hcommon := take_commonLength root.names target.names
  have hlen := commonLength_le root.names target.names
  -- What is left of the first path after the ascent is the common part.
  have hascent : root.names.take (root.names.length - ascent root target) =
      target.names.take (commonLength root.names target.names) := by
    rw [← hcommon, ascent]
    congr 1
    omega
  have hfold : (pathComponents (portableRelativePath root.components target.components)).foldl
      follow root.names = target.names.take (commonLength root.names target.names) ++
        (descent root target).map fun name => name.lossy.map NamePart.char := by
    rw [pathComponents_portableRelativePath]
    split_ifs with hnone
    · rw [hnone.1, Nat.sub_zero, take_length] at hascent
      rw [hnone.2, ← hascent]
      simp [follow]
    · rw [foldl_append, foldl_follow_parentDir, hascent]
      exact (congrArg (List.foldl follow _) (map_map (g := Component.normal)).symm).trans
        (foldl_follow_normal _ _)
  have htgt : target.names = target.names.take (commonLength root.names target.names) ++
      descent root target := (take_append_drop _ _).symm
  rw [LeadsTo, hfold]
  conv_lhs => rhs; rw [htgt]
  rw [append_cancel_left_eq]
  calc (descent root target).map (fun name => name.lossy.map NamePart.char) = descent root target
      ↔ (descent root target).map (fun name => name.lossy.map NamePart.char) =
          (descent root target).map id := by rw [map_id]
    _ ↔ ∀ name ∈ descent root target, name.lossy.map NamePart.char = name := map_inj_left
    _ ↔ ∀ name ∈ descent root target, name.IsText := forall₂_congr fun _ _ => OsName.isText_iff

/-! ## The characters of the path -/

theorem mem_intercalate {sep : List Char} {segs : List (List Char)} {char : Char}
    (hseparator : char ∉ sep) :
    char ∈ intercalate sep segs ↔
      ∃ segment ∈ segs, char ∈ segment := by
  induction segs with
  | nil => simp [intercalate]
  | cons first rest ih =>
    cases rest with
    | nil => simp [intercalate]
    | cons second rest =>
      have hstep : intercalate sep (first :: second :: rest) =
          first ++ sep ++ intercalate sep (second :: rest) := by
        simp [intercalate]
      rw [hstep, mem_append, mem_append, ih]
      simp [hseparator]

/-- A character that the path itself does not use comes from the name of a directory. -/
theorem mem_portableRelativePath {char : Char}
    (hown : char ∉ ['/', '.', '\uFFFD']) :
    char ∈ (portableRelativePath root.components target.components).toList ↔
      ∃ name ∈ descent root target, .char char ∈ name := by
  simp only [mem_cons, not_mem_nil, or_false, not_or] at hown
  obtain ⟨hslash, hdot, hreplaced⟩ := hown
  rw [portableRelativePath_components]
  split_ifs with hnone
  · simp [hnone.2, hdot]
  · rw [String.toList_ofList, mem_intercalate (by simpa using hslash)]
    simp only [mem_append, mem_replicate, mem_map]
    constructor
    · rintro ⟨seg, ⟨_, rfl⟩ | ⟨name, hname, rfl⟩, hmem⟩
      · simp [hdot] at hmem
      · exact ⟨name, hname, (OsName.mem_lossy hreplaced).mp hmem⟩
    · rintro ⟨name, hname, hmem⟩
      exact ⟨name.lossy, .inr ⟨name, hname, rfl⟩, (OsName.mem_lossy hreplaced).mpr hmem⟩

/-- The directories on the way have UTF-8 names without the separators of other platforms. -/
def PortablePath (root target : CanonicalPath) : Prop :=
  ∀ name ∈ descent root target,
    ∀ part ∈ name, ∃ character, part = .char character ∧ character ≠ '\\' ∧ character ≠ ':'

theorem portablePath_iff : PortablePath root target ↔
    (∀ name ∈ descent root target, name.IsText) ∧
      ∀ char ∈ (portableRelativePath root.components target.components).toList,
        char ≠ '\\' ∧ char ≠ ':' := by
  have hbackslash : '\\' ∈ (portableRelativePath root.components target.components).toList ↔
      ∃ name ∈ descent root target, .char '\\' ∈ name := mem_portableRelativePath root target (by decide)
  have hcolon : ':' ∈ (portableRelativePath root.components target.components).toList ↔
      ∃ name ∈ descent root target, .char ':' ∈ name := mem_portableRelativePath root target (by decide)
  constructor
  · intro hportable
    refine ⟨?_, ?_⟩
    · intro name hname part hpart
      obtain ⟨char, rfl, _⟩ := hportable name hname part hpart
      exact ⟨char, rfl⟩
    · intro char hchar
      constructor
      · rintro rfl
        obtain ⟨name, hname, hpart⟩ := hbackslash.mp hchar
        obtain ⟨other, hother, hne, _⟩ := hportable name hname _ hpart
        exact hne (NamePart.char.inj hother).symm
      · rintro rfl
        obtain ⟨name, hname, hpart⟩ := hcolon.mp hchar
        obtain ⟨other, hother, _, hne⟩ := hportable name hname _ hpart
        exact hne (NamePart.char.inj hother).symm
  · rintro ⟨htext, hplain⟩ name hname part hpart
    obtain ⟨char, rfl⟩ := htext name hname part hpart
    refine ⟨char, rfl, ?_, ?_⟩
    · rintro rfl
      exact (hplain _ (hbackslash.mpr ⟨name, hname, hpart⟩)).1 rfl
    · rintro rfl
      exact (hplain _ (hcolon.mpr ⟨name, hname, hpart⟩)).2 rfl

end Salicin.Locking
