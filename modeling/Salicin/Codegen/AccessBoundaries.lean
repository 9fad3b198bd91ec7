import Salicin.Modules.ApiExposure

/-!
# Access boundaries

Code generation decides with these boundaries where a member or an implementation may be used. A
boundary stands for the origins that it allows. The containment test compares what two boundaries
allow, and the boundary of a member allows what its owner and its own visibility both allow.
-/

namespace Salicin.Codegen.Access

open Salicin.Source
open Salicin.Modules (ApiBoundary visibilityRank)

structure AccessBoundary where
  visibility : Visibility
  origin : ItemOrigin

def accessBoundaryAllows (origin : ItemOrigin) (access : AccessBoundary) : Bool :=
  match access.visibility with
  | .pub => true
  | .package => origin.package = access.origin.package
  | .priv =>
    origin.package = access.origin.package ∧ access.origin.modulePath.isPrefixOf origin.modulePath

def effectiveMemberAccess (owner : AccessBoundary) (memberVisibility : Visibility) :
    AccessBoundary where
  visibility :=
    if visibilityRank owner.visibility ≤ visibilityRank memberVisibility then owner.visibility
    else memberVisibility
  origin := owner.origin

def apiAudienceIsContained (exposed referenced : AccessBoundary) : Bool :=
  match referenced.visibility with
  | .pub => true
  | .package =>
    exposed.visibility ≠ .pub ∧ exposed.origin.package = referenced.origin.package
  | .priv =>
    (exposed.visibility = .priv ∧ exposed.origin.package = referenced.origin.package ∧
      referenced.origin.modulePath.isPrefixOf exposed.origin.modulePath) ∨
    (exposed.visibility = .package ∧ exposed.origin.package = referenced.origin.package ∧
      referenced.origin.modulePath.isEmpty)

def intersectAccessBoundaries (left right : AccessBoundary) (fallbackOrigin : ItemOrigin) :
    AccessBoundary :=
  if apiAudienceIsContained left right then left
  else if apiAudienceIsContained right left then right
  else ⟨.priv, fallbackOrigin⟩

/-! ## What a boundary allows -/

/-- The boundary as the checks on a resolved program have it. -/
def AccessBoundary.toApi (access : AccessBoundary) : ApiBoundary :=
  ⟨access.visibility, access.origin⟩

/-- The origin as a user of a declaration. -/
def user (origin : ItemOrigin) : Nat × List String := (origin.package, origin.modulePath)

variable {left right access : AccessBoundary} {origin : ItemOrigin}

theorem accessBoundaryAllows_iff :
    accessBoundaryAllows origin access ↔ user origin ∈ access.toApi.audience := by
  obtain ⟨visibility, boundary⟩ := access
  cases visibility with
  | pub => exact iff_of_true rfl (ApiBoundary.mem_audience_pub rfl)
  | package =>
    rw [ApiBoundary.mem_audience_package rfl]
    simp [accessBoundaryAllows, user, AccessBoundary.toApi]
  | priv =>
    rw [ApiBoundary.mem_audience_priv rfl]
    simp [accessBoundaryAllows, user, AccessBoundary.toApi]

theorem accessBoundaryAllows_self (access : AccessBoundary) :
    accessBoundaryAllows access.origin access := by
  obtain ⟨visibility, boundary⟩ := access
  cases visibility <;> simp [accessBoundaryAllows]

theorem apiAudienceIsContained_iff :
    apiAudienceIsContained left right ↔
      ∀ origin, accessBoundaryAllows origin left → accessBoundaryAllows origin right := by
  have hsame : apiAudienceIsContained left right =
      Modules.apiAudienceIsContained left.toApi right.toApi := rfl
  rw [hsame, Modules.apiAudienceIsContained_iff]
  constructor
  · intro hsub origin hallows
    exact accessBoundaryAllows_iff.mpr (hsub (accessBoundaryAllows_iff.mp hallows))
  · rintro hallows ⟨package, path⟩ huser
    have hleft : accessBoundaryAllows ⟨package, path, none⟩ left :=
      accessBoundaryAllows_iff.mpr huser
    exact accessBoundaryAllows_iff.mp (hallows _ hleft)

/-- The smaller of two visibilities at one origin allows what both allow there. -/
theorem effectiveMemberAccess_allows {memberVisibility : Visibility} :
    accessBoundaryAllows origin (effectiveMemberAccess access memberVisibility) ↔
      accessBoundaryAllows origin access ∧
        accessBoundaryAllows origin ⟨memberVisibility, access.origin⟩ := by
  obtain ⟨visibility, boundary⟩ := access
  cases visibility <;> cases memberVisibility <;>
    simp +contextual [accessBoundaryAllows, effectiveMemberAccess, visibilityRank]

/-! ## Intersections -/

/-- Two boundaries that allow a common origin are nested: the modules that they are private to lie
on the path of that origin. -/
theorem contained_of_allows (hleft : accessBoundaryAllows origin left)
    (hright : accessBoundaryAllows origin right) :
    apiAudienceIsContained left right ∨ apiAudienceIsContained right left := by
  obtain ⟨visibility, boundary⟩ := left
  obtain ⟨visibility', boundary'⟩ := right
  cases visibility' with
  | pub => exact .inl rfl
  | package =>
    cases visibility <;> simp_all [accessBoundaryAllows, apiAudienceIsContained]
  | priv =>
    cases visibility with
    | pub => exact .inr rfl
    | package => simp_all [accessBoundaryAllows, apiAudienceIsContained]
    | priv =>
      simp only [accessBoundaryAllows, decide_eq_true_eq, List.isPrefixOf_iff_prefix]
        at hleft hright
      have hpkg : boundary.package = boundary'.package := hleft.1.symm.trans hright.1
      rcases List.prefix_or_prefix_of_prefix hleft.2 hright.2 with hprefix | hprefix
      · right
        simp [apiAudienceIsContained, hpkg, hprefix]
      · left
        simp [apiAudienceIsContained, hpkg, hprefix]

/-- Where an origin is allowed by both boundaries, the intersection is exact. -/
theorem intersectAccessBoundaries_allows {fallback : ItemOrigin}
    (hmeet : ∃ common, accessBoundaryAllows common left ∧ accessBoundaryAllows common right) :
    accessBoundaryAllows origin (intersectAccessBoundaries left right fallback) ↔
      accessBoundaryAllows origin left ∧ accessBoundaryAllows origin right := by
  unfold intersectAccessBoundaries
  split
  next hcontained =>
    have hright := apiAudienceIsContained_iff.mp hcontained origin
    exact ⟨fun hleft => ⟨hleft, hright hleft⟩, And.left⟩
  next hnot =>
    obtain ⟨common, hleft, hright⟩ := hmeet
    have hcontained := (contained_of_allows hleft hright).resolve_left hnot
    rw [if_pos hcontained]
    have hleft := apiAudienceIsContained_iff.mp hcontained origin
    exact ⟨fun hright => ⟨hleft hright, hright⟩, And.right⟩

theorem intersectAccessBoundaries_fallback {fallback : ItemOrigin}
    (hapart : ∀ origin, ¬ (accessBoundaryAllows origin left ∧ accessBoundaryAllows origin right)) :
    intersectAccessBoundaries left right fallback = ⟨.priv, fallback⟩ := by
  unfold intersectAccessBoundaries
  split
  next hcontained =>
    have hself := accessBoundaryAllows_self left
    exact absurd ⟨hself, apiAudienceIsContained_iff.mp hcontained _ hself⟩ (hapart _)
  next =>
    split
    next hcontained =>
      have hself := accessBoundaryAllows_self right
      exact absurd ⟨apiAudienceIsContained_iff.mp hcontained _ hself, hself⟩ (hapart _)
    next => rfl

/-- The test decides containment, the access of a member is exact, and so is the intersection of
two boundaries unless no origin is allowed by both: no boundary allows nothing, and the fallback
stands for it. -/
theorem accessBoundaries_exact :
    (∀ left right, apiAudienceIsContained left right ↔
      ∀ origin, accessBoundaryAllows origin left → accessBoundaryAllows origin right) ∧
    (∀ owner memberVisibility origin,
      accessBoundaryAllows origin (effectiveMemberAccess owner memberVisibility) ↔
        accessBoundaryAllows origin owner ∧
          accessBoundaryAllows origin ⟨memberVisibility, owner.origin⟩) ∧
    ∀ left right fallback,
      (∀ origin, accessBoundaryAllows origin left → accessBoundaryAllows origin right →
        accessBoundaryAllows origin (intersectAccessBoundaries left right fallback)) ∧
      ((∃ common, accessBoundaryAllows common left ∧ accessBoundaryAllows common right) →
        ∀ origin, accessBoundaryAllows origin (intersectAccessBoundaries left right fallback) →
          accessBoundaryAllows origin left ∧ accessBoundaryAllows origin right) ∧
      ((¬ ∃ common, accessBoundaryAllows common left ∧ accessBoundaryAllows common right) →
        intersectAccessBoundaries left right fallback = ⟨.priv, fallback⟩) := by
  refine ⟨fun _ _ => apiAudienceIsContained_iff, fun _ _ _ => effectiveMemberAccess_allows, ?_⟩
  intro left right fallback
  refine ⟨?_, ?_, ?_⟩
  · intro origin hleft hright
    exact (intersectAccessBoundaries_allows ⟨origin, hleft, hright⟩).mpr ⟨hleft, hright⟩
  · intro hmeet origin
    exact (intersectAccessBoundaries_allows hmeet).mp
  · intro hapart
    exact intersectAccessBoundaries_fallback fun origin hboth => hapart ⟨origin, hboth⟩

/-- A boundary that is private to a module at the root of a package. -/
def privateTo (name : String) : AccessBoundary := ⟨.priv, ⟨0, [name], none⟩⟩

/-- What two sibling modules keep to themselves is left to the fallback, which neither allows. -/
theorem siblings_fallback :
    accessBoundaryAllows ⟨0, ["c"], none⟩
        (intersectAccessBoundaries (privateTo "a") (privateTo "b") ⟨0, ["c"], none⟩) ∧
      accessBoundaryAllows ⟨0, ["c"], none⟩ (privateTo "a") = false ∧
      accessBoundaryAllows ⟨0, ["c"], none⟩ (privateTo "b") = false := by
  decide

end Salicin.Codegen.Access
