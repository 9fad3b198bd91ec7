import Mathlib.Data.List.Forall2

/-!
# Lists of values that may be missing

Reading a list entry by entry, with errors and without.
-/

/-!
## Lists of fallible values

A list is read, or checked, entry by entry. It passes when every entry does, and the first entry
that fails gives the error.
-/

namespace ExceptLists

variable {ε α β γ : Type}

theorem bind_eq_ok {first : Except ε α} {next : α → Except ε β} {res : β} :
    (first >>= next) = .ok res ↔ ∃ val, first = .ok val ∧ next val = .ok res := by
  cases first with
  | error error => simp [bind, Except.bind]
  | ok val => simp [bind, Except.bind]

variable {read : α → Except ε β}

theorem mapM_eq_ok {list : List α} {images : List β} :
    list.mapM read = .ok images ↔
      List.Forall₂ (fun entry image => read entry = .ok image) list images := by
  induction list generalizing images with
  | nil => cases images <;> simp [pure, Except.pure]
  | cons entry rest ih =>
    rw [List.mapM_cons]
    simp only [bind_eq_ok, ih]
    constructor
    · rintro ⟨image, himage, others, hothers, heq⟩
      cases heq
      exact .cons himage hothers
    · intro hall
      cases hall with
      | cons himage hothers => exact ⟨_, himage, _, hothers, rfl⟩

theorem mapM_map_eq_ok {write : β → α} {values : List β}
    (hvals : ∀ val ∈ values, read (write val) = .ok val) :
    (values.map write).mapM read = .ok values := by
  rw [mapM_eq_ok, List.forall₂_map_left_iff, List.forall₂_same]
  exact hvals

theorem exists_of_mapM_eq_ok {list : List α} {images : List β} (hread : list.mapM read = .ok images)
    {entry : α} (hentry : entry ∈ list) :
    ∃ image, read entry = .ok image := by
  have hall := mapM_eq_ok.mp hread
  induction hall with
  | nil => simp at hentry
  | @cons first image rest images himage hrest ih =>
    rcases List.mem_cons.mp hentry with rfl | hmem
    · exact ⟨image, himage⟩
    · exact ih (mapM_eq_ok.mpr hrest) hmem

theorem forM_eq_ok {check : α → Except ε Unit} {list : List α} :
    list.forM check = .ok () ↔ ∀ entry ∈ list, check entry = .ok () := by
  induction list with
  | nil => simp [pure, Except.pure]
  | cons entry rest ih =>
    have hstep : (entry :: rest).forM check = (check entry >>= fun _ => rest.forM check) := rfl
    rw [hstep, bind_eq_ok, List.forall_mem_cons, ← ih]
    constructor
    · rintro ⟨⟨⟩, hentry, hrest⟩
      exact ⟨hentry, hrest⟩
    · rintro ⟨hentry, hrest⟩
      exact ⟨(), hentry, hrest⟩

end ExceptLists

/-!
## Lists of optional values

Mapping a partial function over a list: it has a value when the function has one at every
entry, and the values stand in the order of the entries.
-/

namespace OptionLists

variable {α β γ : Type*} {f : α → Option β}

theorem mapM_eq_some {list : List α} {images : List β} :
    list.mapM f = some images ↔ List.Forall₂ (fun entry image => f entry = some image) list images := by
  induction list generalizing images with
  | nil => cases images <;> simp
  | cons entry rest ih =>
    rw [List.mapM_cons]
    cases hentry : f entry with
    | none => cases images <;> simp [hentry]
    | some image =>
      cases hrest : rest.mapM f with
      | none =>
        cases images with
        | nil => simp
        | cons other others => simp [hentry, ← ih, hrest]
      | some found =>
        cases images with
        | nil => simp
        | cons other others => simp [hentry, ← ih, hrest]

variable {relation : α → β → Prop}

theorem mem_of_forall₂ {list : List α} {images : List β} (hall : List.Forall₂ relation list images)
    {image : β} (himage : image ∈ images) :
    ∃ entry ∈ list, relation entry image := by
  induction hall with
  | nil => simp at himage
  | @cons entry head rest images hhead _ ih =>
    rcases List.mem_cons.mp himage with rfl | himage
    · exact ⟨entry, List.mem_cons_self, hhead⟩
    · obtain ⟨other, hother, hrelation⟩ := ih himage
      exact ⟨other, List.mem_cons_of_mem _ hother, hrelation⟩

theorem exists_image_of_forall₂ {list : List α} {images : List β}
    (hall : List.Forall₂ relation list images) {entry : α} (hentry : entry ∈ list) :
    ∃ image ∈ images, relation entry image :=
  mem_of_forall₂ hall.flip hentry

theorem forall₂_trans {first : α → β → Prop} {second : β → γ → Prop} {both : α → γ → Prop}
    (hboth : ∀ entry middle image, first entry middle → second middle image → both entry image)
    {list : List α} {middles : List β} {images : List γ} (hfst : List.Forall₂ first list middles)
    (hsnd : List.Forall₂ second middles images) : List.Forall₂ both list images := by
  induction hfst generalizing images with
  | nil =>
    cases hsnd
    exact .nil
  | cons hhead _ ih =>
    cases hsnd with
    | cons hnext hrest => exact .cons (hboth _ _ _ hhead hnext) (ih hrest)

theorem exists_mapM {list : List α} (hsome : ∀ entry ∈ list, ∃ image, f entry = some image) :
    ∃ images, list.mapM f = some images ∧
      List.Forall₂ (fun entry image => f entry = some image) list images ∧
      ∀ image, image ∈ images ↔ ∃ entry ∈ list, f entry = some image := by
  induction list with
  | nil => exact ⟨[], rfl, .nil, by simp⟩
  | cons entry rest ih =>
    obtain ⟨image, himage⟩ := hsome entry List.mem_cons_self
    obtain ⟨images, himages, hall, hmem⟩ := ih fun other hother =>
      hsome other (List.mem_cons_of_mem _ hother)
    refine ⟨image :: images, by simp [List.mapM_cons, himage, himages], .cons himage hall, ?_⟩
    intro other
    simp [hmem, himage, eq_comm]

theorem mapM_congr {g : α → Option β} {list : List α} (hsame : ∀ entry ∈ list, f entry = g entry) :
    list.mapM f = list.mapM g := by
  induction list with
  | nil => rfl
  | cons entry rest ih =>
    obtain ⟨hentry, hrest⟩ := List.forall_mem_cons.mp hsame
    rw [List.mapM_cons, List.mapM_cons, hentry, ih hrest]

theorem mapM_map_eq_some {write : α → β} {read : β → Option γ} {image : α → γ} {list : List α}
    (hread : ∀ entry ∈ list, read (write entry) = some (image entry)) :
    (list.map write).mapM read = some (list.map image) := by
  rw [mapM_eq_some, List.forall₂_map_left_iff, List.forall₂_map_right_iff, List.forall₂_same]
  exact hread

/-- Related entries that agree on a key have the same list of keys. -/
theorem map_eq_of_forall₂ {first : α → γ} {second : β → γ} {list : List α} {images : List β}
    (hall : List.Forall₂ relation list images)
    (hsame : ∀ entry image, relation entry image → second image = first entry) :
    images.map second = list.map first := by
  induction hall with
  | nil => rfl
  | cons hhead _ ih => rw [List.map_cons, List.map_cons, ih, hsame _ _ hhead]

end OptionLists
