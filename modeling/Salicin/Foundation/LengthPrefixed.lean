import Salicin.Foundation.Bytes
import Salicin.Foundation.SelfDelimiting

/-!
# Bytes behind their length

Lengths are written in a fixed number of bytes, so they are found again only below a bound. The
values that are written are those of types that keep to it.
-/

namespace SelfDelimiting

open List LittleEndian

universe u v w

variable {α : Type u} {β : Type v} {σ : Type w}

theorem delimited_of_length {write : α → List σ} {value : α}
    (hlen : ∀ other, (write other).length = (write value).length)
    (hval : Determined write value) : Delimited write value := by
  intro other rest rest' htext
  obtain ⟨htexts, hrest⟩ := append_inj htext (hlen other).symm
  exact ⟨hval htexts, hrest⟩

theorem Delimited.behind (mark : List σ) {write : α → List σ} {value : α}
    (hval : Delimited write value) : Delimited (fun value => mark ++ write value) value := by
  intro other rest rest' htext
  rw [append_assoc, append_assoc] at htext
  exact hval (append_cancel_left htext)

theorem eq_of_store {width value other : Nat} (hval : value < 256 ^ width)
    (hother : other < 256 ^ width)
    (h : store width value = store width other) : value = other := by
  have hload := congrArg load h
  rw [load_store, load_store] at hload
  rwa [Nat.mod_eq_of_lt hval, Nat.mod_eq_of_lt hother] at hload

theorem delimited_store (width : Nat) {num : α → Nat} {value : α}
    (hbound : ∀ other, num other < 256 ^ width)
    (hval : ∀ ⦃other⦄, num value = num other → value = other) :
    Delimited (fun value => store width (num value)) value := by
  apply delimited_of_length
  · intro other
    rw [length_store, length_store]
  · intro other htext
    exact hval (eq_of_store (hbound value) (hbound other) htext)

theorem delimited_sized (width : Nat) {write : α → List UInt8} {value : α}
    (hbound : ∀ other, (write other).length < 256 ^ width) (hval : Determined write value) :
    Delimited (fun value => store width (write value).length ++ write value)
      value := by
  intro other rest rest' htext
  rw [append_assoc, append_assoc] at htext
  obtain ⟨hstored, htext⟩ := append_inj htext
    (by rw [length_store, length_store])
  have hlen := eq_of_store (hbound value) (hbound other) hstored
  obtain ⟨htexts, hrest⟩ := append_inj htext hlen
  exact ⟨hval htexts, hrest⟩

theorem Delimited.listed (width : Nat) {write : β → List UInt8} {items : α → List β} {value : α}
    (hbound : ∀ other, (items other).length < 256 ^ width)
    (hval : ∀ ⦃other⦄, items value = items other → value = other)
    (hitems : ∀ item ∈ items value, Delimited write item) :
    Delimited (fun value => store width (items value).length ++
      (items value).flatMap write) value := by
  intro other rest rest' htext
  rw [append_assoc, append_assoc] at htext
  obtain ⟨hstored, htext⟩ := append_inj htext
    (by rw [length_store, length_store])
  have hlen := eq_of_store (hbound value) (hbound other) hstored
  obtain ⟨hsame, hrest⟩ := Delimited.flatMap hitems hlen htext
  exact ⟨hval hsame, hrest⟩

end SelfDelimiting
