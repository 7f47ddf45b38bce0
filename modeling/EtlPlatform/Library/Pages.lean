import EtlPlatform.Library.Failing
import Mathlib.Data.List.Basic

/-!
# A list cut into pages

`pages n l` cuts a list into pages of `n` elements, the last of which may be
shorter.  A fallible function that treats the elements of a list one after the
other does not notice: run page by page it yields what it yields on the list.
-/

namespace EtlPlatform
namespace Library

universe u

section Pages

variable {α : Type u}

/-- The list in pages of `n`. -/
def pages (n : ℕ) (l : List α) : List (List α) :=
  if _h : l ≠ [] ∧ 0 < n then l.take n :: pages n (l.drop n) else []
termination_by l.length
decreasing_by
  have hpos : 0 < l.length := List.length_pos_iff.mpr _h.1
  rw [List.length_drop]
  omega

@[simp] theorem pages_nil
    (n : ℕ) :
    pages n ([] : List α) = [] := by
  rw [pages, dif_neg (by simp)]

theorem pages_of_ne_nil
    {n : ℕ} {l : List α} (hn : 0 < n) (hne : l ≠ []) :
    pages n l = l.take n :: pages n (l.drop n) := by
  rw [pages, dif_pos ⟨hne, hn⟩]

/-- The pages are the list. -/
@[simp] theorem flatten_pages
    {n : ℕ} (hn : 0 < n) (l : List α) :
    (pages n l).flatten = l := by
  induction l using pages.induct (n := n) with
  | case1 l h ih =>
      rw [pages_of_ne_nil hn h.1, List.flatten_cons, ih, List.take_append_drop]
  | case2 l h =>
      have hnil : l = [] := by
        by_contra hne
        exact h ⟨hne, hn⟩
      rw [hnil, pages_nil, List.flatten_nil]

/-! ## Functions that treat the elements one by one -/

variable {β ε : Type u}

/-- What `f` makes of a list, it makes of its parts one after the other. -/
structure Elementwise (f : List α → Except ε (List β)) : Prop where
  nil : f [] = .ok []
  append : ∀ {l l' : List α} {bs bs' : List β}, f l = .ok bs → f l' = .ok bs' →
    f (l ++ l') = .ok (bs ++ bs')

theorem elementwise_mapM
    (f : α → Except ε β) :
    Elementwise (fun l => l.mapM f) where
  nil := rfl
  append := by
    intro l l' bs bs' h h'
    rw [mapM_eq_ok_iff] at h h' ⊢
    exact List.rel_append h h'

/-- **Pages do not matter** to a function that treats the elements one by one. -/
theorem Elementwise.of_pages
    {f : List α → Except ε (List β)} (hf : Elementwise f) {n : ℕ} (hn : 0 < n) {l : List α}
    {bss : List (List β)} (h : (pages n l).mapM f = .ok bss) :
    f l = .ok bss.flatten := by
  induction l using pages.induct (n := n) generalizing bss with
  | case1 l hl ih =>
      rw [pages_of_ne_nil hn hl.1] at h
      obtain ⟨bs, hbs, rest, hrest, rfl⟩ := mapM_cons_eq_ok_iff.mp h
      have hwhole := hf.append hbs (ih hrest)
      rwa [List.take_append_drop] at hwhole
  | case2 l hl =>
      have hnil : l = [] := by
        by_contra hne
        exact hl ⟨hne, hn⟩
      rw [hnil, pages_nil] at h
      obtain rfl := Except.ok.inj h
      rw [hnil]
      exact hf.nil

end Pages

end Library
end EtlPlatform
