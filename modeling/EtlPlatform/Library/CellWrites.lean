import Mathlib.Data.List.Basic
import Mathlib.Logic.Function.Basic
import Mathlib.Tactic.Common

/-!
# Last-writer-wins cells

A store is a partial function from cells to values, and a write assigns a list
of cells, later assignments overriding earlier ones.  Whole-row replacement
(one cell a row) and field-wise merging (one cell a field) are both of this
form, so they share the laws below.

* `assignAll_eq_of_mem`: a cell some assignment of the list touches ends with a
  value that does not depend on the store the list started from.
* `assignAll_absorb`: a pass over a list of assignments absorbs everything done
  before it, as long as that touched no other cell.
* `assignAll_lookup`: a list that assigns a cell consistently leaves that value.
-/

namespace EtlPlatform
namespace Library

universe u v

section CellWrites

variable {C : Type u} {V : Type v} [DecidableEq C]

/-- Assign one cell. -/
def assign (s : C → Option V) (w : C × V) : C → Option V :=
  Function.update s w.1 (some w.2)

/-- Assign a list of cells in order. -/
def assignAll (s : C → Option V) (ws : List (C × V)) : C → Option V :=
  ws.foldl assign s

@[simp] theorem assignAll_nil
    (s : C → Option V) :
    assignAll s [] = s := by
  rfl

@[simp] theorem assignAll_cons
    (s : C → Option V) (w : C × V) (ws : List (C × V)) :
    assignAll s (w :: ws) = assignAll (assign s w) ws := by
  rfl

theorem assignAll_append
    (s : C → Option V) (ws ws' : List (C × V)) :
    assignAll s (ws ++ ws') = assignAll (assignAll s ws) ws' := by
  simp [assignAll]

theorem assign_self
    (s : C → Option V) (w : C × V) :
    assign s w w.1 = some w.2 := by
  simp [assign]

theorem assign_of_ne
    (s : C → Option V) (w : C × V) {c : C}
    (h : c ≠ w.1) :
    assign s w c = s c := by
  simp [assign, h]

/-- A cell no assignment touches keeps its value. -/
theorem assignAll_of_not_mem
    (s : C → Option V) (ws : List (C × V)) {c : C}
    (h : c ∉ ws.map Prod.fst) :
    assignAll s ws c = s c := by
  induction ws generalizing s with
  | nil =>
      rfl
  | cons w ws ih =>
      simp only [List.map_cons, List.mem_cons, not_or] at h
      rw [assignAll_cons, ih _ h.2, assign_of_ne s w h.1]

/-- Two stores that agree on a cell still agree on it after the same assignments. -/
theorem assignAll_congr
    {s s' : C → Option V} (ws : List (C × V)) {c : C}
    (h : s c = s' c) :
    assignAll s ws c = assignAll s' ws c := by
  induction ws generalizing s s' with
  | nil =>
      exact h
  | cons w ws ih =>
      apply ih
      by_cases hc : c = w.1
      · subst hc
        rw [assign_self, assign_self]
      · rw [assign_of_ne s w hc, assign_of_ne s' w hc, h]

/-- A touched cell forgets the store the assignments started from. -/
theorem assignAll_eq_of_mem
    (s s' : C → Option V) (ws : List (C × V)) {c : C}
    (h : c ∈ ws.map Prod.fst) :
    assignAll s ws c = assignAll s' ws c := by
  induction ws generalizing s s' with
  | nil =>
      simp at h
  | cons w ws ih =>
      by_cases hc : c = w.1
      · rw [assignAll_cons, assignAll_cons]
        apply assignAll_congr
        rw [hc, assign_self, assign_self]
      · have htail : c ∈ ws.map Prod.fst := by
          simpa [hc] using h
        exact ih _ _ htail

/--
**Absorption.**  Whatever assignments `done` came before a full pass over `ws`,
the pass ends as if they had not happened, provided they touched only cells of
the pass.
-/
theorem assignAll_absorb
    (s : C → Option V) (done ws : List (C × V))
    (h : ∀ w ∈ done, w.1 ∈ ws.map Prod.fst) :
    assignAll (assignAll s done) ws = assignAll s ws := by
  funext c
  by_cases hc : c ∈ ws.map Prod.fst
  · exact assignAll_eq_of_mem _ _ ws hc
  · have hdone : c ∉ done.map Prod.fst := by
      intro hmem
      obtain ⟨w, hw, rfl⟩ := List.mem_map.mp hmem
      exact hc (h w hw)
    rw [assignAll_of_not_mem _ ws hc, assignAll_of_not_mem _ ws hc,
      assignAll_of_not_mem _ done hdone]

/-- A cell that every assignment gives the same value ends with that value. -/
theorem assignAll_lookup
    (s : C → Option V) (ws : List (C × V)) {c : C} {v : V}
    (hmem : (c, v) ∈ ws)
    (huniq : ∀ w ∈ ws, w.1 = c → w.2 = v) :
    assignAll s ws c = some v := by
  induction ws generalizing s with
  | nil =>
      simp at hmem
  | cons w ws ih =>
      by_cases htail : c ∈ ws.map Prod.fst
      · obtain ⟨w', hw', rfl⟩ := List.mem_map.mp htail
        have hv : w'.2 = v := huniq w' (by simp [hw']) rfl
        subst hv
        exact ih _ hw' (fun x hx => huniq x (by simp [hx]))
      · have hw : w = (c, v) := by
          rcases List.mem_cons.mp hmem with rfl | h
          · rfl
          · exact absurd (List.mem_map_of_mem h) htail
        rw [assignAll_cons, assignAll_of_not_mem _ ws htail, hw]
        exact assign_self s (c, v)

end CellWrites

end Library
end EtlPlatform
