import Salicin.Codegen.DropGlue

/-!
# The slot tree of a local

What the tree built for a type contains, what the flag updates of a move or an assignment
store in it, and what the conditional drop of one of its slots drops.
-/

namespace Salicin.Codegen

open Function List PrefixPath LocalAction

variable {layouts : Layouts}

theorem buildDropSlot_eq (ty : Ty) (path : List Nat) :
    buildDropSlot layouts ty path = .node ty path
      (if layouts.hasDropMethod ty then []
        else (layouts.dropChildren ty).map fun child =>
          buildDropSlot layouts child.2 (path ++ [child.1])) := by
  rw [buildDropSlot]
  simp only [map_subtype, unattach_attach]

/-- The slot tree of `ty` has a slot at the relative path, for a part of type `part`. -/
inductive SlotPart (layouts : Layouts) : Ty → List Nat → Ty → Prop
  | self (ty : Ty) : SlotPart layouts ty [] ty
  | child {ty : Ty} {child : Nat × Ty} {rest : List Nat} {part : Ty}
      (hmethod : layouts.hasDropMethod ty = false) (hchild : child ∈ layouts.dropChildren ty)
      (hrest : SlotPart layouts child.2 rest part) :
      SlotPart layouts ty (child.1 :: rest) part

variable {ty : Ty}

theorem SlotPart.trans {middle part : Ty} {first second : List Nat}
    (hfst : SlotPart layouts ty first middle) (hsnd : SlotPart layouts middle second part) :
    SlotPart layouts ty (first ++ second) part := by
  induction hfst with
  | self ty => exact hsnd
  | child hmethod hchild hrest ih => exact .child hmethod hchild (ih hsnd)

variable {child : Nat × Ty}

theorem needsDrop_of_mem_dropChildren (hchild : child ∈ layouts.dropChildren ty)
    (hneeds : layouts.needsDrop child.2) :
    layouts.needsDrop ty := by
  unfold Layouts.dropChildren at hchild
  unfold Layouts.needsDrop
  split at hchild
  · obtain ⟨⟨field, index⟩, hfield, rfl⟩ := mem_map.mp hchild
    have hmem := mem_of_getElem?
      (mem_zipIdx_iff_getElem?.mp (mem_of_mem_filter hfield))
    exact any_eq_true.mpr ⟨⟨field, hmem⟩, mem_attach _ _, hneeds⟩
  · obtain ⟨index, _, rfl⟩ := mem_map.mp hchild
    exact hneeds
  · split at hchild
    next layout hlayout =>
      obtain ⟨⟨field, index⟩, hfield, rfl⟩ := mem_map.mp hchild
      have hmem := mem_of_getElem?
        (mem_zipIdx_iff_getElem?.mp (mem_of_mem_filter hfield))
      rw [Bool.or_eq_true]
      right
      split
      next found hfound =>
        cases hlayout.symm.trans hfound
        exact any_eq_true.mpr ⟨⟨field, hmem⟩, mem_attach _ _, hneeds⟩
      next hnone =>
        rw [hlayout] at hnone
        contradiction
    · contradiction
  · obtain ⟨⟨capture, index⟩, hcapture, rfl⟩ := mem_map.mp hchild
    obtain ⟨hmem, howned⟩ := mem_filter.mp hcapture
    simp only [decide_eq_true_eq] at howned
    have hcaptures : capture.2 ∈ ownedCaptures _ := mem_map_of_mem (mem_filter.mpr
      ⟨mem_of_getElem? (mem_zipIdx_iff_getElem?.mp hmem),
        by simpa using ⟨howned.1, howned.2.1⟩⟩)
    exact any_eq_true.mpr ⟨⟨capture.2, hcaptures⟩, mem_attach _ _, hneeds⟩
  · contradiction

variable {path : List Nat}

theorem needsDrop_of_mem_dropGlue {leaf : List Nat} (hleaf : leaf ∈ dropGlue layouts ty path) :
    layouts.needsDrop ty :=
  (mem_dropGlue.mp hleaf).1

theorem dropsAsUnit_eq_false (hmethod : layouts.hasDropMethod ty = false)
    (hchild : child ∈ layouts.dropChildren ty) :
    dropsAsUnit layouts ty = false := by
  cases ty <;> simp_all [dropsAsUnit, Layouts.dropChildren]

theorem mem_dropGlue_child {leaf : List Nat} (hmethod : layouts.hasDropMethod ty = false)
    (hchild : child ∈ layouts.dropChildren ty)
    (hleaf : leaf ∈ dropGlue layouts child.2 (path ++ [child.1])) :
    leaf ∈ dropGlue layouts ty path :=
  mem_dropGlue.mpr ⟨needsDrop_of_mem_dropChildren hchild (needsDrop_of_mem_dropGlue hleaf),
    .inr ⟨by simp [dropsAsUnit_eq_false hmethod hchild], child, hchild, hleaf⟩⟩

/-- The drop leaves below a slot are the drop leaves of the whole that extend its path. -/
theorem SlotPart.mem_dropGlue_iff {part : Ty} {rest leaf : List Nat}
    (hslot : SlotPart layouts ty rest part) (path : List Nat) :
    leaf ∈ dropGlue layouts ty path ∧ path ++ rest <+: leaf ↔
      leaf ∈ dropGlue layouts part (path ++ rest) := by
  induction hslot generalizing path with
  | self ty =>
    rw [append_nil]
    exact and_iff_left_of_imp isPrefix_of_mem_dropGlue
  | @child ty child rest part hmethod hchild hrest ih =>
    rw [append_cons, ← ih]
    refine and_congr_left fun hbelow => ?_
    constructor
    · intro hleaf
      obtain ⟨_, ⟨hunit, _⟩ | ⟨_, found, hfound, hleaf⟩⟩ := mem_dropGlue.mp hleaf
      · exact absurd hunit (by simp [dropsAsUnit_eq_false hmethod hchild])
      · have hidx : found.1 = child.1 := child_eq_of_isPrefix (isPrefix_of_mem_dropGlue hleaf)
          ((prefix_append _ _).trans hbelow)
        obtain rfl := dropChildren_unique ty hfound hchild hidx
        exact hleaf
    · exact mem_dropGlue_child hmethod hchild

namespace DropSlot

variable {projs : List Nat}

theorem mem_collectPlaceFlagUpdates {slot : List Nat} {initialized rootInitialized val : Bool} :
    (slot, val) ∈ collectPlaceFlagUpdates projs initialized rootInitialized
        (buildDropSlot layouts ty path) ↔
      (∃ rest part, SlotPart layouts ty rest part ∧ slot = path ++ rest) ∧
        flagUpdate slot projs initialized rootInitialized = some val := by
  induction ty using layouts.finite.induction generalizing path with
  | _ ty ih =>
  rw [buildDropSlot_eq, collectPlaceFlagUpdates]
  simp only [flatMap_subtype, unattach_attach, mem_append, mem_map,
    Option.mem_toList, Prod.mk.injEq, mem_flatMap]
  constructor
  · rintro (⟨found, hfound, rfl, rfl⟩ | ⟨child, hchild, hmem⟩)
    · exact ⟨⟨[], ty, .self ty, by simp⟩, hfound⟩
    · by_cases hmethod : layouts.hasDropMethod ty
      · simp [hmethod] at hchild
      · rw [if_neg hmethod] at hchild
        obtain ⟨part, hpart, rfl⟩ := mem_map.mp hchild
        obtain ⟨⟨rest, found, hslot, rfl⟩, hupdate⟩ :=
          (ih part.2 (layouts.contains_of_mem_dropChildren hpart)).mp hmem
        exact ⟨⟨part.1 :: rest, found, .child (by simpa using hmethod) hpart hslot, by simp⟩,
          hupdate⟩
  · rintro ⟨⟨rest, part, hslot, rfl⟩, hupdate⟩
    cases hslot with
    | self =>
      rw [append_nil] at hupdate ⊢
      exact .inl ⟨val, hupdate, rfl, rfl⟩
    | @child _ child rest _ hmethod hchild hrest =>
      refine .inr ⟨buildDropSlot layouts child.2 (path ++ [child.1]), ?_,
        (ih child.2 (layouts.contains_of_mem_dropChildren hchild)).mpr
          ⟨⟨rest, part, hrest, by simp⟩, hupdate⟩⟩
      simp only [hmethod, Bool.false_eq_true, if_false]
      exact mem_map_of_mem hchild

/-- Stores that agree on what each cell gets can be read off in any order. -/
theorem storeFlags_eq_of_mem {updates : List (List Nat × Bool)} {slot : List Nat} {val : Bool}
    (hfunctional : ∀ other, (slot, other) ∈ updates → other = val)
    (hmem : (slot, val) ∈ updates) (flags : DropFlags) :
    storeFlags flags updates slot = val := by
  induction updates using reverseRecOn with
  | nil => exact absurd hmem not_mem_nil
  | append_singleton updates update ih =>
    rw [storeFlags, foldl_concat]
    by_cases hslot : slot = update.1
    · subst hslot
      rw [update_self]
      exact hfunctional _ (mem_append_right _ mem_cons_self)
    · rw [update_of_ne hslot]
      refine ih (fun other hother => hfunctional other (mem_append_left _ hother)) ?_
      rcases mem_append.mp hmem with hmem | hmem
      · exact hmem
      · exact absurd (congrArg Prod.fst (mem_singleton.mp hmem)) hslot

theorem storeFlags_eq_of_forall_ne {updates : List (List Nat × Bool)} {slot : List Nat}
    (hne : ∀ val, (slot, val) ∉ updates) (flags : DropFlags) :
    storeFlags flags updates slot = flags slot := by
  induction updates using reverseRecOn with
  | nil => rfl
  | append_singleton updates update ih =>
    have hslot : slot ≠ update.1 := by
      rintro rfl
      exact hne update.2 (mem_append_right _ mem_cons_self)
    rw [storeFlags, foldl_concat, update_of_ne hslot]
    exact ih fun val hmem => hne val (mem_append_left _ hmem)

theorem storeFlags_collect {part : Ty} {rest : List Nat} (hslot : SlotPart layouts ty rest part)
    (path : List Nat) (initialized rootInitialized : Bool) (flags : DropFlags) :
    storeFlags flags (collectPlaceFlagUpdates projs initialized rootInitialized
        (buildDropSlot layouts ty path)) (path ++ rest) =
      (flagUpdate (path ++ rest) projs initialized rootInitialized).getD
        (flags (path ++ rest)) := by
  have hmem (val : Bool) : (path ++ rest, val) ∈ collectPlaceFlagUpdates projs
        initialized rootInitialized (buildDropSlot layouts ty path) ↔ _ :=
    mem_collectPlaceFlagUpdates
  cases hupdate : flagUpdate (path ++ rest) projs initialized rootInitialized with
  | none =>
    refine storeFlags_eq_of_forall_ne (fun val hval => ?_) flags
    exact nomatch hupdate.symm.trans ((hmem val).mp hval).2
  | some val =>
    refine storeFlags_eq_of_mem (fun other hother => ?_)
      ((hmem val).mpr ⟨⟨rest, part, hslot, rfl⟩, hupdate⟩) flags
    exact Option.some.inj (((hmem other).mp hother).2.symm.trans hupdate)

/-- A slot that is found is the slot of a part at the place that was looked for. -/
theorem findDropSlot_buildDropSlot {slot : DropSlot}
    (hfound : findDropSlot projs (buildDropSlot layouts ty path) = some slot) :
    ∃ rest part, SlotPart layouts ty rest part ∧ projs = path ++ rest ∧
      slot = buildDropSlot layouts part (path ++ rest) := by
  induction ty using layouts.finite.induction generalizing path with
  | _ ty ih =>
  rw [buildDropSlot_eq, findDropSlot] at hfound
  split at hfound
  next hpath =>
    refine ⟨[], ty, .self ty, by simp [hpath], ?_⟩
    rw [append_nil, buildDropSlot_eq]
    exact (Option.some.inj hfound).symm
  next hpath =>
    obtain ⟨⟨node, hnode⟩, _, hfound⟩ := exists_of_findSome?_eq_some hfound
    by_cases hmethod : layouts.hasDropMethod ty
    · simp [hmethod] at hnode
    · rw [if_neg hmethod] at hnode
      obtain ⟨child, hchild, rfl⟩ := mem_map.mp hnode
      obtain ⟨rest, part, hslot, hprojs, hslot'⟩ :=
        ih child.2 (layouts.contains_of_mem_dropChildren hchild) hfound
      exact ⟨child.1 :: rest, part, .child (by simpa using hmethod) hchild hslot,
        by simp [hprojs], by simp [hslot']⟩

theorem conditionalDrop_eq (ty : Ty) (path : List Nat) (flags : DropFlags) :
    conditionalDrop layouts (buildDropSlot layouts ty path) flags =
      if flags path then (dropGlue layouts ty path, Function.update flags path false)
      else sequence (fun child : Nat × Ty =>
          conditionalDrop layouts (buildDropSlot layouts child.2 (path ++ [child.1])))
        (if layouts.hasDropMethod ty then [] else layouts.dropChildren ty) ([], flags) := by
  rw [buildDropSlot_eq, conditionalDrop]
  split
  · rfl
  · have hchildren := @foldl_attach _ _
      (if layouts.hasDropMethod ty then [] else (layouts.dropChildren ty).map fun child =>
        buildDropSlot layouts child.2 (path ++ [child.1]))
      (fun (state : List (List Nat) × DropFlags) child =>
        (state.1 ++ (conditionalDrop layouts child state.2).1,
          (conditionalDrop layouts child state.2).2)) ([], flags)
    refine hchildren.trans ?_
    split
    · rfl
    · rw [foldl_map]
      rfl

theorem mem_slotChildren
    (hchild : child ∈ if layouts.hasDropMethod ty then [] else layouts.dropChildren ty) :
    layouts.hasDropMethod ty = false ∧ child ∈ layouts.dropChildren ty := by
  by_cases hmethod : layouts.hasDropMethod ty
  · simp [hmethod] at hchild
  · simpa [hmethod] using hchild

theorem slotChildren_disjoint (ty : Ty) (path : List Nat) :
    (if layouts.hasDropMethod ty then [] else layouts.dropChildren ty).Pairwise
      fun first second => ∀ slot ∈ {slot | path ++ [first.1] <+: slot},
        slot ∉ {slot | path ++ [second.1] <+: slot} := by
  split
  · exact List.Pairwise.nil
  · refine (dropChildren_pairwise ty).imp fun hne => ?_
    exact fun slot hfst hsnd => hne (child_eq_of_isPrefix hfst hsnd)

/-- A conditional drop reads and clears flags of its own part only. -/
theorem conditionalDrop_local (ty : Ty) (path : List Nat) :
    Local {slot | path <+: slot} (conditionalDrop layouts (buildDropSlot layouts ty path)) := by
  induction ty using layouts.finite.induction generalizing path with
  | _ ty ih =>
  have hlocal : ∀ child ∈ if layouts.hasDropMethod ty then [] else layouts.dropChildren ty,
      Local {slot | path ++ [child.1] <+: slot}
        (conditionalDrop layouts (buildDropSlot layouts child.2 (path ++ [child.1]))) :=
    fun child hchild =>
      ih child.2 (layouts.contains_of_mem_dropChildren (mem_slotChildren hchild).2) _
  constructor
  · intro flags slot hslot
    rw [conditionalDrop_eq]
    split
    · refine update_of_ne ?_ _ _
      rintro rfl
      exact hslot (prefix_refl _)
    · exact sequence_outside hlocal
        (fun child _ hmem => hslot ((prefix_append _ _).trans hmem)) _
  · intro first second hagree
    rw [conditionalDrop_eq, conditionalDrop_eq, hagree path (prefix_refl _)]
    split
    · rfl
    · rw [sequence_output hlocal (slotChildren_disjoint ty path) first _ fun _ _ _ _ => rfl,
        sequence_output hlocal (slotChildren_disjoint ty path) second _ fun _ _ _ _ => rfl]
      refine congrArg _ (flatMap_congr fun child hchild => ?_)
      exact (hlocal child hchild).output_congr _ _
        fun slot hslot => hagree slot ((prefix_append _ _).trans hslot)

/-- When the flag is clear the slot's children decide, each on the flags as they are. -/
theorem conditionalDrop_of_clear {flags : DropFlags} (hflag : flags path = false) :
    (conditionalDrop layouts (buildDropSlot layouts ty path) flags).1 =
      (if layouts.hasDropMethod ty then [] else layouts.dropChildren ty).flatMap fun child =>
        (conditionalDrop layouts (buildDropSlot layouts child.2 (path ++ [child.1])) flags).1 := by
  rw [conditionalDrop_eq, if_neg (by simp [hflag]), sequence_output
    (fun child _ => conditionalDrop_local child.2 _) (slotChildren_disjoint ty path) flags _
    fun _ _ _ _ => rfl, nil_append]

end DropSlot

/-- The flags of a slot tree tell which leaves hold a value: a set flag vouches for its
whole part, and a slot that is itself a drop leaf has its flag set while the leaf is live. -/
structure FlagsExact (layouts : Layouts) (live : Finset (List Nat)) (flags : DropFlags)
    (ty : Ty) (path : List Nat) : Prop where
  complete : ∀ rest part, SlotPart layouts ty rest part → flags (path ++ rest) = true →
    ∀ leaf ∈ dropGlue layouts part (path ++ rest), leaf ∈ live
  leaf : ∀ rest part, SlotPart layouts ty rest part →
    path ++ rest ∈ dropGlue layouts part (path ++ rest) → path ++ rest ∈ live →
    flags (path ++ rest) = true

theorem FlagsExact.slot {live : Finset (List Nat)} {flags : DropFlags} {part : Ty} {rest : List Nat}
    (hexact : FlagsExact layouts live flags ty path) (hslot : SlotPart layouts ty rest part) :
    FlagsExact layouts live flags part (path ++ rest) where
  complete tail found hfound := by
    rw [append_assoc]
    exact hexact.complete _ _ (hslot.trans hfound)
  leaf tail found hfound := by
    rw [append_assoc]
    exact hexact.leaf _ _ (hslot.trans hfound)

/-- What a list of drops should be: each expected leaf once and nothing else. -/
def DropsExactly (dropped : List (List Nat)) (expected : List Nat → Prop) : Prop :=
  dropped.Nodup ∧ ∀ leaf, leaf ∈ dropped ↔ expected leaf

theorem DropsExactly.congr {dropped : List (List Nat)} {expected other : List Nat → Prop}
    (hdrops : DropsExactly dropped expected) (hsame : ∀ leaf, expected leaf ↔ other leaf) :
    DropsExactly dropped other :=
  ⟨hdrops.1, fun leaf => (hdrops.2 leaf).trans (hsame leaf)⟩

theorem DropsExactly.flatMap {Item : Type} {items : List Item} {drops : Item → List (List Nat)}
    {expected : Item → List Nat → Prop}
    (hitems : ∀ item ∈ items, DropsExactly (drops item) (expected item))
    (hapart : items.Pairwise fun first second =>
      ∀ leaf, expected first leaf → ¬ expected second leaf) :
    DropsExactly (items.flatMap drops) fun leaf => ∃ item ∈ items, expected item leaf := by
  constructor
  · rw [nodup_flatMap]
    refine ⟨fun item hitem => (hitems item hitem).1, ?_⟩
    refine hapart.imp_of_mem fun hfst hsnd hdisj leaf hleft hright => ?_
    exact hdisj leaf (((hitems _ hfst).2 leaf).mp hleft)
      (((hitems _ hsnd).2 leaf).mp hright)
  · intro leaf
    rw [mem_flatMap]
    exact exists_congr fun item => and_congr_right fun hitem => (hitems item hitem).2 leaf

/-- With exact flags the conditional drop of a slot drops the live leaves of its part. -/
theorem conditionalDrop_exact {live : Finset (List Nat)} {flags : DropFlags}
    (hexact : FlagsExact layouts live flags ty path) :
    DropsExactly (DropSlot.conditionalDrop layouts (buildDropSlot layouts ty path) flags).1
      fun leaf => leaf ∈ dropGlue layouts ty path ∧ leaf ∈ live := by
  induction ty using layouts.finite.induction generalizing path with
  | _ ty ih =>
  cases hflag : flags path with
  | true =>
    have hlive := hexact.complete [] ty (.self ty)
    rw [append_nil] at hlive
    rw [DropSlot.conditionalDrop_eq, if_pos hflag]
    exact ⟨dropGlue_nodup ty path, fun leaf => (and_iff_left_of_imp (hlive hflag leaf)).symm⟩
  | false =>
    rw [DropSlot.conditionalDrop_of_clear hflag]
    have hchildren : ∀ child ∈ if layouts.hasDropMethod ty then [] else layouts.dropChildren ty,
        DropsExactly (DropSlot.conditionalDrop layouts
          (buildDropSlot layouts child.2 (path ++ [child.1])) flags).1
          fun leaf => leaf ∈ dropGlue layouts child.2 (path ++ [child.1]) ∧ leaf ∈ live := by
      intro child hchild
      obtain ⟨hmethod, hmem⟩ := DropSlot.mem_slotChildren hchild
      exact ih child.2 (layouts.contains_of_mem_dropChildren hmem)
        (hexact.slot (.child hmethod hmem (.self child.2)))
    refine (DropsExactly.flatMap hchildren ?_).congr ?_
    · refine (DropSlot.slotChildren_disjoint ty path).imp fun hdisj leaf hleft hright => ?_
      exact hdisj leaf (isPrefix_of_mem_dropGlue hleft.1) (isPrefix_of_mem_dropGlue hright.1)
    · intro leaf
      constructor
      · rintro ⟨child, hchild, hglue, hlive⟩
        obtain ⟨hmethod, hmem⟩ := DropSlot.mem_slotChildren hchild
        exact ⟨mem_dropGlue_child hmethod hmem hglue, hlive⟩
      · rintro ⟨hglue, hlive⟩
        obtain ⟨hneeds, ⟨hunit, rfl⟩ | ⟨hunit, child, hchild, hleaf⟩⟩ := mem_dropGlue.mp hglue
        · have hset := hexact.leaf [] ty (.self ty)
          rw [append_nil] at hset
          exact nomatch hflag.symm.trans (hset hglue hlive)
        · have hmem : child ∈ if layouts.hasDropMethod ty then [] else
              layouts.dropChildren ty := by
            rw [if_neg fun hmethod => hunit (by simp [dropsAsUnit, hmethod])]
            exact hchild
          exact ⟨child, hmem, hleaf, hlive⟩

end Salicin.Codegen
