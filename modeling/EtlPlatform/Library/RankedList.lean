import Mathlib.Data.List.Sort
import Mathlib.Data.List.Nodup
import Mathlib.Order.Basic
import Mathlib.Tactic.Common

/-!
# Lists sorted by a rank

`sorted(l, key=rank)` for ranks in a linear order.  When no two elements share
a rank the sorted list is the only permutation of the list that increases
strictly, its first element is the one of least rank and its last the one of
greatest rank; what stands in between is then said without the sorted list.
-/

namespace EtlPlatform
namespace Library

universe u v

section RankedList

variable {α : Type u}
variable {β : Type v} [LinearOrder β]
variable {rank : α → β}

/-- The ranks increase strictly along the list. -/
def Increasing (rank : α → β) (l : List α) : Prop :=
  l.Pairwise (fun a b => rank a < rank b)

theorem Increasing.nodup
    {l : List α} (h : Increasing rank l) :
    (l.map rank).Nodup := by
  rw [List.Nodup, List.pairwise_map]
  exact h.imp (fun hlt => hlt.ne)

/-- **Sorting a list without ties makes it increase strictly.** -/
theorem increasing_insertionSort
    {l : List α} (h : (l.map rank).Nodup) :
    Increasing rank (l.insertionSort (fun a b => rank a ≤ rank b)) := by
  have : Std.Total (fun a b => rank a ≤ rank b) := ⟨fun a b => le_total (rank a) (rank b)⟩
  have : IsTrans α (fun a b => rank a ≤ rank b) := ⟨fun _ _ _ => le_trans⟩
  have hperm := List.perm_insertionSort (fun a b => rank a ≤ rank b) l
  have hne : (l.insertionSort (fun a b => rank a ≤ rank b)).Pairwise
      (fun a b => rank a ≠ rank b) := by
    rw [← List.pairwise_map]
    exact (hperm.map rank).nodup_iff.mpr h
  have hle := List.pairwise_insertionSort (fun a b => rank a ≤ rank b) l
  exact (hle.and hne).imp (fun h => lt_of_le_of_ne h.1 h.2)

/-- Only one order of a list increases strictly. -/
theorem Increasing.eq_of_perm
    {l l' : List α} (h : Increasing rank l) (h' : Increasing rank l') (hperm : l.Perm l') :
    l = l' :=
  hperm.eq_of_pairwise (fun _ _ _ _ hab hba => absurd hba hab.asymm) h h'

/-- Sorting does not look at the order the list comes in. -/
theorem insertionSort_congr
    {l l' : List α} (hperm : l.Perm l') (h : (l.map rank).Nodup) :
    l.insertionSort (fun a b => rank a ≤ rank b) =
      l'.insertionSort (fun a b => rank a ≤ rank b) := by
  have h' : (l'.map rank).Nodup := (hperm.map rank).nodup_iff.mp h
  refine (increasing_insertionSort h).eq_of_perm (increasing_insertionSort h') ?_
  exact ((List.perm_insertionSort _ l).trans hperm).trans (List.perm_insertionSort _ l').symm

/-- A list that increases is sorted already. -/
theorem Increasing.insertionSort_eq
    {l : List α} (h : Increasing rank l) :
    l.insertionSort (fun a b => rank a ≤ rank b) = l :=
  (increasing_insertionSort h.nodup).eq_of_perm h (List.perm_insertionSort _ l)

/-- The first element is the only one of least rank. -/
theorem Increasing.least_iff
    {a : α} {l : List α} (h : Increasing rank (a :: l)) {b : α} (hb : b ∈ a :: l) :
    (∀ c ∈ a :: l, rank b ≤ rank c) ↔ b = a := by
  obtain ⟨hhead, -⟩ := List.pairwise_cons.mp h
  constructor
  · intro hleast
    rcases List.mem_cons.mp hb with rfl | hb
    · rfl
    · exact absurd (hhead b hb) (hleast a List.mem_cons_self).not_gt
  · rintro rfl c hc
    rcases List.mem_cons.mp hc with rfl | hc
    · exact le_rfl
    · exact (hhead c hc).le

/-- The last element is the only one of greatest rank. -/
theorem Increasing.greatest_iff
    {a : α} {l : List α} (h : Increasing rank (l ++ [a])) {b : α} (hb : b ∈ l ++ [a]) :
    (∀ c ∈ l ++ [a], rank c ≤ rank b) ↔ b = a := by
  have hlast : ∀ c ∈ l, rank c < rank a :=
    fun c hc => (List.pairwise_append.mp h).2.2 c hc a List.mem_cons_self
  constructor
  · intro hgreatest
    rcases List.mem_append.mp hb with hb | hb
    · exact absurd (hlast b hb) (hgreatest a (by simp)).not_gt
    · exact List.mem_singleton.mp hb
  · rintro rfl c hc
    rcases List.mem_append.mp hc with hc | hc
    · exact (hlast c hc).le
    · rw [List.mem_singleton.mp hc]

/-- The elements behind the first are those that are not of least rank. -/
theorem Increasing.mem_tail_iff
    {a : α} {l : List α} (h : Increasing rank (a :: l)) {b : α} :
    b ∈ l ↔ b ∈ a :: l ∧ ¬ ∀ c ∈ a :: l, rank b ≤ rank c := by
  constructor
  · intro hb
    refine ⟨List.mem_cons_of_mem a hb, ?_⟩
    intro hleast
    obtain rfl := (h.least_iff (List.mem_cons_of_mem a hb)).mp hleast
    exact lt_irrefl _ ((List.pairwise_cons.mp h).1 b hb)
  · rintro ⟨hb, hnot⟩
    rcases List.mem_cons.mp hb with rfl | hb'
    · exact absurd ((h.least_iff hb).mpr rfl) hnot
    · exact hb'

/-- The elements before the last are those that are not of greatest rank. -/
theorem Increasing.mem_init_iff
    {a : α} {l : List α} (h : Increasing rank (l ++ [a])) {b : α} :
    b ∈ l ↔ b ∈ l ++ [a] ∧ ¬ ∀ c ∈ l ++ [a], rank c ≤ rank b := by
  constructor
  · intro hb
    refine ⟨List.mem_append_left [a] hb, ?_⟩
    intro hgreatest
    obtain rfl := (h.greatest_iff (List.mem_append_left [a] hb)).mp hgreatest
    exact lt_irrefl _ ((List.pairwise_append.mp h).2.2 b hb b List.mem_cons_self)
  · rintro ⟨hb, hnot⟩
    rcases List.mem_append.mp hb with hb' | hb'
    · exact hb'
    · obtain rfl := List.mem_singleton.mp hb'
      exact absurd ((h.greatest_iff hb).mpr rfl) hnot

end RankedList

end Library
end EtlPlatform
