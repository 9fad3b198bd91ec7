import Mathlib.Data.List.Sort

/-!
# Tables sorted by their keys

A table is the list of its entries in ascending order of the keys, with no key twice. It is
read through `lookup`: two tables with one lookup have the same entries in the same order.
-/

/-- The entries of a table, with their keys in strictly ascending order. -/
structure SortedTable (Key Value : Type*) [LinearOrder Key] where
  entries : List (Key × Value)
  sorted : entries.Pairwise fun first second => first.1 < second.1

namespace SortedTable

open List

variable {Key Value : Type*} [LinearOrder Key]

def empty : SortedTable Key Value := ⟨[], List.Pairwise.nil⟩

def keys (table : SortedTable Key Value) : List Key := table.entries.map Prod.fst

def lookup (table : SortedTable Key Value) (key : Key) : Option Value :=
  (table.entries.find? (·.1 = key)).map Prod.snd

/-- The table with a value at a key, in place of the one that was there. -/
def insert (table : SortedTable Key Value) (key : Key) (val : Value) :
    SortedTable Key Value where
  entries := table.entries.filter (·.1 < key) ++ (key, val) :: table.entries.filter (key < ·.1)
  sorted := by
    refine pairwise_append.mpr ⟨table.sorted.filter _, ?_, ?_⟩
    · refine pairwise_cons.mpr ⟨fun entry hentry => ?_, table.sorted.filter _⟩
      simpa using (mem_filter.mp hentry).2
    · intro first hfst second hsnd
      have hlow : first.1 < key := by simpa using (mem_filter.mp hfst).2
      rcases mem_cons.mp hsnd with rfl | hsnd
      · exact hlow
      · exact hlow.trans (by simpa using (mem_filter.mp hsnd).2)

/-- The entries are put into a table one after the other. -/
def ofEntries (entries : List (Key × Value)) : SortedTable Key Value :=
  entries.foldl (fun table entry => table.insert entry.1 entry.2) empty

variable (table : SortedTable Key Value)

theorem keys_sorted : table.keys.Pairwise (· < ·) :=
  pairwise_map.mpr table.sorted

theorem keys_nodup : table.keys.Nodup :=
  table.keys_sorted.imp ne_of_lt

variable {key : Key} {val : Value}

theorem entry_unique {other : Value}
    (hval : (key, val) ∈ table.entries) (hother : (key, other) ∈ table.entries) :
    val = other :=
  congrArg Prod.snd (inj_on_of_nodup_map table.keys_nodup hval hother rfl)

theorem lookup_eq_some :
    table.lookup key = some val ↔ (key, val) ∈ table.entries := by
  constructor
  · intro hlookup
    obtain ⟨⟨found, _⟩, hfind, rfl⟩ := Option.map_eq_some_iff.mp hlookup
    obtain rfl : found = key := by simpa using List.find?_some hfind
    exact mem_of_find?_eq_some hfind
  · intro hmem
    cases hfind : table.entries.find? (·.1 = key) with
    | none => exact absurd (List.find?_eq_none.mp hfind _ hmem) (by simp)
    | some entry =>
      obtain ⟨found, other⟩ := entry
      obtain rfl : found = key := by simpa using List.find?_some hfind
      have hother := mem_of_find?_eq_some hfind
      simp [lookup, hfind, table.entry_unique hother hmem]

theorem mem_keys :
    key ∈ table.keys ↔ ∃ val, table.lookup key = some val := by
  simp [keys, lookup_eq_some]

theorem lookup_eq_none :
    table.lookup key = none ↔ key ∉ table.keys := by
  rw [mem_keys, Option.eq_none_iff_forall_ne_some]
  simp

theorem mem_insert (key : Key) (val : Value)
    {entry : Key × Value} : entry ∈ (table.insert key val).entries ↔
      entry = (key, val) ∨ (entry.1 ≠ key ∧ entry ∈ table.entries) := by
  simp only [insert, mem_append, mem_filter, mem_cons, decide_eq_true_eq]
  constructor
  · rintro (⟨hmem, hlow⟩ | hhere | ⟨hmem, hhigh⟩)
    · exact .inr ⟨hlow.ne, hmem⟩
    · exact .inl hhere
    · exact .inr ⟨hhigh.ne', hmem⟩
  · rintro (hhere | ⟨hne, hmem⟩)
    · exact .inr (.inl hhere)
    · rcases lt_or_gt_of_ne hne with hlow | hhigh
      · exact .inl ⟨hmem, hlow⟩
      · exact .inr (.inr ⟨hmem, hhigh⟩)

@[simp] theorem lookup_empty (key : Key) :
    (empty : SortedTable Key Value).lookup key = none := rfl

@[simp] theorem keys_empty : (empty : SortedTable Key Value).keys = [] := rfl

theorem lookup_insert (key other : Key) (val : Value) :
    (table.insert key val).lookup other =
      if other = key then some val else table.lookup other := by
  ext found
  rw [lookup_eq_some, mem_insert]
  split_ifs with heq
  · simp [heq, eq_comm]
  · simp [heq, lookup_eq_some]

/-- The table is the function `lookup`, with the new value at the key. -/
theorem lookup_insert_eq_update (key : Key) (val : Value) :
    (table.insert key val).lookup = Function.update table.lookup key (some val) := by
  funext other
  rw [lookup_insert, Function.update_apply]

theorem mem_keys_insert {other : Key} :
    other ∈ (table.insert key val).keys ↔ other = key ∨ other ∈ table.keys := by
  simp only [mem_keys, lookup_insert]
  split_ifs with heq <;> simp [heq]

theorem lookup_foldl_insert {entries : List (Key × Value)} (hnodup : (entries.map Prod.fst).Nodup)
    (table : SortedTable Key Value) :
    (entries.foldl (fun table entry => table.insert entry.1 entry.2) table).lookup key = some val ↔
      (key, val) ∈ entries ∨ (key ∉ entries.map Prod.fst ∧ table.lookup key = some val) := by
  induction entries generalizing table with
  | nil => simp
  | cons head rest ih =>
    obtain ⟨hhead, hrest⟩ := nodup_cons.mp hnodup
    rw [foldl_cons, ih hrest, lookup_insert]
    by_cases hkey : key = head.1
    · subst hkey
      have hnot : (head.1, val) ∉ rest := fun hmem => hhead (mem_map.mpr ⟨_, hmem, rfl⟩)
      simp only [hnot, hhead, ite_true, map_cons, mem_cons, true_or, not_true]
      constructor
      · rintro (hfalse | ⟨_, hval⟩)
        · exact hfalse.elim
        · exact .inl (.inl (Prod.ext rfl (Option.some.inj hval).symm))
      · rintro ((hval | hfalse) | ⟨hfalse, _⟩)
        · exact .inr ⟨not_false, congrArg some (congrArg Prod.snd hval).symm⟩
        · exact hfalse.elim
        · exact hfalse.elim
    · have hne : (key, val) ≠ head := fun heq => hkey (congrArg Prod.fst heq)
      simp [hkey, hne]

theorem lookup_ofEntries {entries : List (Key × Value)} (hnodup : (entries.map Prod.fst).Nodup) :
    (ofEntries entries).lookup key = some val ↔ (key, val) ∈ entries := by
  rw [ofEntries, lookup_foldl_insert hnodup]
  simp

@[ext] theorem ext_lookup {table other : SortedTable Key Value}
    (hlookup : ∀ key, table.lookup key = other.lookup key) : table = other := by
  have hirrefl : Std.Irrefl fun first second : Key × Value => first.1 < second.1 :=
    ⟨fun entry => lt_irrefl entry.1⟩
  have hentries : table.entries = other.entries := by
    apply table.sorted.eq_of_mem_iff other.sorted
    rintro ⟨key, val⟩
    rw [← lookup_eq_some, ← lookup_eq_some, hlookup]
  cases table
  cases other
  congr

theorem ofEntries_entries : ofEntries table.entries = table := by
  ext key val
  rw [lookup_ofEntries table.keys_nodup, lookup_eq_some]

/-! ## Images -/

section
variable {Image : Type*} (read : Value → Image)

/-- The table with what is read of its values. -/
def mapValues (table : SortedTable Key Value) : SortedTable Key Image where
  entries := table.entries.map fun entry => (entry.1, read entry.2)
  sorted := pairwise_map.mpr table.sorted

theorem lookup_mapValues (table : SortedTable Key Value) (key : Key) :
    (table.mapValues read).lookup key = (table.lookup key).map read := by
  rw [lookup, mapValues, List.find?_map, lookup, Option.map_map, Option.map_map]
  rfl

end

/-! ## Tables with related values -/

variable {Other : Type*}

/-- The tables have the same keys, with related values. -/
def Alike (relation : Value → Other → Prop) (first : SortedTable Key Value)
    (second : SortedTable Key Other) : Prop :=
  List.Forall₂ (fun left right => left.1 = right.1 ∧ relation left.2 right.2)
    first.entries second.entries

variable {relation : Value → Other → Prop} {first : SortedTable Key Value}
  {second : SortedTable Key Other}

theorem Alike.insert (halike : Alike relation first second) {other : Other}
    (hval : relation val other) :
    Alike relation (first.insert key val) (second.insert key other) := by
  apply rel_append
  · apply rel_filter _ halike
    rintro ⟨left, _⟩ ⟨right, _⟩ ⟨rfl, _⟩
    rfl
  · refine .cons ⟨rfl, hval⟩ ?_
    apply rel_filter _ halike
    rintro ⟨left, _⟩ ⟨right, _⟩ ⟨rfl, _⟩
    rfl

theorem Alike.find? (halike : Alike relation first second) (test : Key → Bool) :
    Option.Rel (fun left right => left.1 = right.1 ∧ relation left.2 right.2)
      (first.entries.find? fun entry => test entry.1)
      (second.entries.find? fun entry => test entry.1) := by
  unfold Alike at halike
  generalize first.entries = left, second.entries = right at halike ⊢
  induction halike with
  | nil => exact .none
  | cons hhead hrest ih =>
    rw [List.find?_cons, List.find?_cons, ← hhead.1]
    split
    · exact .some hhead
    · exact ih

theorem Alike.lookup (halike : Alike relation first second) (key : Key) :
    Option.Rel relation (first.lookup key) (second.lookup key) := by
  have hfind := halike.find? fun found => decide (found = key)
  unfold SortedTable.lookup
  generalize first.entries.find? _ = left, second.entries.find? _ = right at hfind ⊢
  cases hfind with
  | none => exact .none
  | some hboth => exact .some hboth.2

theorem alike_of_lookup (hlookup : ∀ key, Option.Rel relation (first.lookup key)
    (second.lookup key)) : Alike relation first second := by
  have hkeys : first.keys = second.keys := by
    apply first.keys_sorted.eq_of_mem_iff second.keys_sorted
    intro key
    have hrel := hlookup key
    rw [mem_keys, mem_keys]
    generalize first.lookup key = left, second.lookup key = right at hrel ⊢
    cases hrel <;> simp
  have hsame : List.Forall₂ (fun (left : Key × Value) (right : Key × Other) => left.1 = right.1)
      first.entries second.entries :=
    forall₂_map_right_iff.mp (forall₂_map_left_iff.mp (forall₂_eq_eq_eq ▸ hkeys))
  obtain ⟨hlen, hzip⟩ := forall₂_iff_zip.mp hsame
  refine forall₂_iff_zip.mpr ⟨hlen, ?_⟩
  rintro ⟨key, val⟩ ⟨otherKey, other⟩ hmem
  obtain rfl : key = otherKey := hzip hmem
  have hval := (lookup_eq_some first).mpr (of_mem_zip hmem).1
  have hother := (lookup_eq_some second).mpr (of_mem_zip hmem).2
  have hrel := hlookup key
  rw [hval, hother] at hrel
  cases hrel with
  | some hrel => exact ⟨rfl, hrel⟩

end SortedTable
