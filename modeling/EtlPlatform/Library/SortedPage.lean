import Mathlib.Data.List.Sort
import Mathlib.Data.List.Pairwise
import Mathlib.Tactic.Common

/-!
# Pages of a sorted relation

A page is what `WHERE p ORDER BY le LIMIT n` returns from a list of rows: the
rows satisfying `p`, sorted by a total preorder `le`, cut after `n`.

The facts a keyset cursor rests on are that a page only holds rows that satisfy
`p`, that its last row dominates it, that everything strictly below the last
row was not cut off, and that a page is empty only when nothing satisfies `p`.
Where the order has no ties, the rows after the last row of a page are what the
page has cut off.
-/

namespace EtlPlatform
namespace Library

universe u

section SortedPage

variable {ρ : Type u}
variable (le : ρ → ρ → Prop) [DecidableRel le]

/-- `WHERE p ORDER BY le LIMIT n`. -/
def page (p : ρ → Bool) (n : ℕ) (rows : List ρ) : List ρ :=
  ((rows.filter p).insertionSort le).take n

theorem mem_page
    {p : ρ → Bool} {n : ℕ} {rows : List ρ} {r : ρ}
    (h : r ∈ page le p n rows) :
    r ∈ rows ∧ p r = true := by
  have hsorted : r ∈ (rows.filter p).insertionSort le :=
    List.mem_of_mem_take h
  rw [List.mem_insertionSort] at hsorted
  exact List.mem_filter.mp hsorted

/-- A page of a positive size is empty only when no row satisfies the condition. -/
theorem page_eq_nil_iff
    {p : ρ → Bool} {n : ℕ} {rows : List ρ}
    (hn : 0 < n) :
    page le p n rows = [] ↔ ∀ r ∈ rows, p r = false := by
  have hsort : (rows.filter p).insertionSort le = [] ↔ rows.filter p = [] := by
    rw [← List.length_eq_zero_iff, (List.perm_insertionSort le _).length_eq,
      List.length_eq_zero_iff]
  rw [page, List.take_eq_nil_iff, hsort, List.filter_eq_nil_iff]
  constructor
  · rintro (h0 | h) r hr
    · omega
    · simpa using h r hr
  · intro h
    right
    intro r hr
    simp [h r hr]

/-- A page repeats no value of `f` that the rows do not repeat. -/
theorem page_nodup_map
    {ν : Type*} {f : ρ → ν} {p : ρ → Bool} {n : ℕ} {rows : List ρ}
    (h : (rows.map f).Nodup) :
    ((page le p n rows).map f).Nodup := by
  have hfilter : ((rows.filter p).map f).Nodup := h.sublist (List.filter_sublist.map f)
  have hsorted : (((rows.filter p).insertionSort le).map f).Nodup :=
    ((List.perm_insertionSort le _).map f).nodup_iff.mpr hfilter
  exact hsorted.sublist ((List.take_sublist _ _).map f)

variable [Std.Total le] [IsTrans ρ le]

/-- A row satisfying the condition is on the page as soon as it is strictly below
the page's last row. -/
theorem mem_page_of_lt_getLast
    {p : ρ → Bool} {n : ℕ} {rows : List ρ}
    (hne : page le p n rows ≠ []) {r : ρ}
    (hr : r ∈ rows) (hp : p r = true)
    (hlt : ¬ le ((page le p n rows).getLast hne) r) :
    r ∈ page le p n rows := by
  set sorted := (rows.filter p).insertionSort le with hsorted
  have hmem : r ∈ sorted := by
    rw [hsorted, List.mem_insertionSort]
    exact List.mem_filter.mpr ⟨hr, hp⟩
  rw [← List.take_append_drop n sorted] at hmem
  rcases List.mem_append.mp hmem with htake | hdrop
  · exact htake
  · -- a row cut off by the limit is above every row of the page
    have hpair : (sorted.take n ++ sorted.drop n).Pairwise le := by
      rw [List.take_append_drop]
      exact List.pairwise_insertionSort le _
    have habove := (List.pairwise_append.mp hpair).2.2
    exact absurd (habove _ (List.getLast_mem hne) _ hdrop) hlt

/-- Without ties, a page holds every row up to its last one. -/
theorem mem_page_of_le_getLast
    {p : ρ → Bool} {n : ℕ} {rows : List ρ}
    (hanti : ∀ a ∈ rows, ∀ b ∈ rows, le a b → le b a → a = b)
    (hne : page le p n rows ≠ []) {r : ρ}
    (hr : r ∈ rows) (hp : p r = true)
    (hle : le r ((page le p n rows).getLast hne)) :
    r ∈ page le p n rows := by
  by_cases hge : le ((page le p n rows).getLast hne) r
  · have hlast := List.getLast_mem hne
    have heq := hanti r hr _ (mem_page le hlast).1 hle hge
    rw [heq]
    exact hlast
  · exact mem_page_of_lt_getLast le hne hr hp hge

end SortedPage

/-! ## What a page leaves -/

section Remainder

variable {ρ π : Type*} [LinearOrder π]
variable {le : ρ → ρ → Prop} [DecidableRel le] {f : ρ → π} {p p' : ρ → Bool} {rows : List ρ}

/-- `WHERE p ORDER BY le`. -/
def ordered (le : ρ → ρ → Prop) [DecidableRel le] (p : ρ → Bool) (rows : List ρ) : List ρ :=
  (rows.filter p).insertionSort le

omit [LinearOrder π] in
theorem mem_ordered
    {r : ρ} :
    r ∈ ordered le p rows ↔ r ∈ rows ∧ p r = true := by
  rw [ordered, List.mem_insertionSort, List.mem_filter]

omit [LinearOrder π] in
theorem ordered_perm :
    (ordered le p rows).Perm (rows.filter p) :=
  List.perm_insertionSort le _

/-- Without ties the order is strict. -/
theorem ordered_pairwise_lt
    (hle : ∀ a b, le a b ↔ f a ≤ f b) (hrows : (rows.map f).Nodup) :
    (ordered le p rows).Pairwise (fun a b => f a < f b) := by
  have : Std.Total le := ⟨fun a b => by rw [hle, hle]; exact le_total _ _⟩
  have : IsTrans ρ le := ⟨fun a b c hab hbc => (hle a c).mpr (((hle a b).mp hab).trans
    ((hle b c).mp hbc))⟩
  have hsorted : (ordered le p rows).Pairwise le := List.pairwise_insertionSort le _
  have hfilter : ((rows.filter p).map f).Nodup := hrows.sublist (List.filter_sublist.map f)
  have hdistinct : ((ordered le p rows).map f).Nodup :=
    (ordered_perm.map f).nodup_iff.mpr hfilter
  refine (hsorted.and (List.pairwise_map.mp hdistinct)).imp ?_
  rintro a b ⟨hab, hne⟩
  exact lt_of_le_of_ne ((hle a b).mp hab) hne

omit [DecidableRel le] in
theorem nodup_of_pairwise_lt
    (h : rows.Pairwise (fun a b => f a < f b)) :
    rows.Nodup := by
  refine h.imp ?_
  rintro a b hlt rfl
  exact lt_irrefl _ hlt

/-- **The rows after a page are the rest of the order.** -/
theorem ordered_after_page
    (hle : ∀ a b, le a b ↔ f a ≤ f b) (hrows : (rows.map f).Nodup) {n : ℕ}
    (hne : page le p n rows ≠ [])
    (hp' : ∀ r ∈ rows, p' r = true ↔ p r = true ∧ f ((page le p n rows).getLast hne) < f r) :
    ordered le p' rows = (ordered le p rows).drop n := by
  have hsorted : (ordered le p rows).Pairwise (fun a b => f a < f b) :=
    ordered_pairwise_lt hle hrows
  have hsorted' : (ordered le p' rows).Pairwise (fun a b => f a < f b) :=
    ordered_pairwise_lt hle hrows
  set last := (page le p n rows).getLast hne with hlast
  have hsplit : page le p n rows ++ (ordered le p rows).drop n = ordered le p rows :=
    List.take_append_drop n _
  have hpair : (page le p n rows ++ (ordered le p rows).drop n).Pairwise
      (fun a b => f a < f b) := by
    rw [hsplit]
    exact hsorted
  obtain ⟨hpage, -, habove⟩ := List.pairwise_append.mp hpair
  -- both sides are strictly sorted, so it is enough that they have the same rows
  have hmem : ∀ r, r ∈ ordered le p' rows ↔ r ∈ (ordered le p rows).drop n := by
    intro r
    constructor
    · intro hr
      obtain ⟨hrow, hcond⟩ := mem_ordered.mp hr
      obtain ⟨hp, hlt⟩ := (hp' r hrow).mp hcond
      have hr' : r ∈ page le p n rows ++ (ordered le p rows).drop n := by
        rw [hsplit]
        exact mem_ordered.mpr ⟨hrow, hp⟩
      rcases List.mem_append.mp hr' with hfront | hrest
      · have hle_last : f r ≤ f last :=
          (hpage.imp le_of_lt).rel_getLast (R := fun a b => f a ≤ f b) hfront
        exact absurd hlt (not_lt.mpr hle_last)
      · exact hrest
    · intro hr
      obtain ⟨hrow, hp⟩ := mem_ordered.mp (List.mem_of_mem_drop hr)
      exact mem_ordered.mpr ⟨hrow, (hp' r hrow).mpr ⟨hp, habove _ (List.getLast_mem hne) _ hr⟩⟩
  have hrest : ((ordered le p rows).drop n).Pairwise (fun a b => f a < f b) :=
    hsorted.sublist (List.drop_sublist n _)
  have hperm := (List.perm_ext_iff_of_nodup (nodup_of_pairwise_lt hsorted')
    (nodup_of_pairwise_lt hrest)).mpr hmem
  refine hperm.eq_of_pairwise ?_ hsorted' hrest
  intro a b _ _ hab hba
  exact absurd hab hba.asymm

end Remainder

end Library
end EtlPlatform
