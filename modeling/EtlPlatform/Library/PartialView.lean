import Mathlib.Data.List.Basic
import Mathlib.Tactic.Common

/-!
# A list seen through a partial map

`List.filterMap view` shows some of the elements of a list, each in another form.
A table that is only appended to and updated in place keeps, seen this way, the
same shape: a new element is shown last or not at all, and an update of element
`r` is an update of the shown element at the place `viewIndex view l r`, or is
not seen.
-/

namespace EtlPlatform
namespace Library

universe u v

section PartialView

variable {α : Type u}
variable {β : Type v}
variable (view : α → Option β)

/-- How many elements before position `r` are shown. -/
def viewIndex (l : List α) (r : ℕ) : ℕ :=
  (l.take r).countP (fun x => (view x).isSome)

theorem viewIndex_length
    (l : List α) :
    viewIndex view l l.length = (l.filterMap view).length := by
  induction l with
  | nil =>
      rfl
  | cons x l ih =>
      simp only [viewIndex, List.take_length] at ih
      cases hx : view x <;> simp [viewIndex, hx, ih]

variable {view}

/-- An update of an element that is shown. -/
theorem filterMap_modify_of_shown
    {l : List α} {r : ℕ} {f : α → α} {g : β → β}
    (h : ∀ x, l[r]? = some x → ∃ y, view x = some y ∧ view (f x) = some (g y)) :
    (l.modify r f).filterMap view = (l.filterMap view).modify (viewIndex view l r) g := by
  induction l generalizing r with
  | nil =>
      simp
  | cons x l ih =>
      cases r with
      | zero =>
          obtain ⟨y, hy, hfy⟩ := h x rfl
          simp [viewIndex, hy, hfy]
      | succ r =>
          have htail := ih (r := r) (fun z hz => h z hz)
          cases hx : view x <;> simpa [viewIndex, hx] using htail

/-- An update of an element that is not shown. -/
theorem filterMap_modify_of_hidden
    {l : List α} {r : ℕ} {f : α → α}
    (h : ∀ x, l[r]? = some x → view x = none ∧ view (f x) = none) :
    (l.modify r f).filterMap view = l.filterMap view := by
  induction l generalizing r with
  | nil =>
      simp
  | cons x l ih =>
      cases r with
      | zero =>
          obtain ⟨hx, hfx⟩ := h x rfl
          simp [hx, hfx]
      | succ r =>
          have htail := ih (r := r) (fun z hz => h z hz)
          simp only [List.modify_succ_cons, List.filterMap_cons, htail]

end PartialView

end Library
end EtlPlatform
