import Mathlib.Data.List.Basic
import Mathlib.Tactic.Linarith

/-!
# Paging by offset through a growing list

A list that is only appended to is read in windows of a fixed size.  One reader
continues behind the rows it has got, the other takes every window one size
further on.

The windows of the first reader, one after the other, are always a prefix of the
list as it is, and all of it once a window comes back empty.  The second reader
gets the same windows as long as no window is short; once one is, and the list
has grown, its windows lie a fixed number of rows behind those of the first.
-/

namespace EtlPlatform
namespace Library

universe u

section OffsetPaging

variable {ρ : Type u}

/-- `LIMIT size OFFSET offset`. -/
def window (size offset : ℕ) (rows : List ρ) : List ρ :=
  (rows.drop offset).take size

/-- Nothing is ever removed or inserted. -/
def Appended (table : ℕ → List ρ) : Prop :=
  ∀ i, table i <+: table (i + 1)

/-- The offset before each round of a reader that continues behind the rows it has got. -/
def followed (size : ℕ) (table : ℕ → List ρ) : ℕ → ℕ
  | 0 => 0
  | i + 1 => followed size table i + (window size (followed size table i) (table i)).length

variable {size offset : ℕ} {rows : List ρ} {table : ℕ → List ρ} {i n m : ℕ}

theorem length_window :
    (window size offset rows).length = min size (rows.length - offset) := by
  rw [window, List.length_take, List.length_drop]

theorem window_eq_nil_iff
    (hsize : 0 < size) :
    window size offset rows = [] ↔ rows.length ≤ offset := by
  rw [← List.length_eq_zero_iff, length_window]
  omega

theorem Appended.length_le
    (h : Appended table) (hle : i ≤ n) :
    (table i).length ≤ (table n).length := by
  induction hle with
  | refl =>
      exact le_rfl
  | step _ ih =>
      exact ih.trans (h _).length_le

theorem followed_succ :
    followed size table (i + 1) =
      followed size table i + min size ((table i).length - followed size table i) := by
  rw [followed, length_window]

theorem Appended.followed_le
    (h : Appended table) :
    followed size table i ≤ (table i).length := by
  induction i with
  | zero =>
      exact Nat.zero_le _
  | succ i ih =>
      have hgrow := (h i).length_le
      rw [followed_succ]
      omega

/-! ## Continuing behind the rows -/

/-- **The windows so far are a prefix of the list.** -/
theorem Appended.flatten_windows
    (h : Appended table) :
    ((List.range n).map fun i => window size (followed size table i) (table i)).flatten =
      (table n).take (followed size table n) := by
  induction n with
  | zero =>
      rfl
  | succ n ih =>
      have hpage : (table n).take (followed size table n) ++
          window size (followed size table n) (table n) =
            (table n).take (followed size table (n + 1)) := by
        rw [window, ← List.take_add, followed_succ]
        rcases le_total size ((table n).length - followed size table n) with hfull | hshort
        · rw [min_eq_left hfull]
        · rw [min_eq_right hshort, Nat.add_sub_cancel' h.followed_le, List.take_length]
          exact List.take_of_length_le (by omega)
      have hlater : (table n).take (followed size table (n + 1)) =
          (table (n + 1)).take (followed size table (n + 1)) := by
        have hle : followed size table (n + 1) ≤ (table n).length := by
          have hbefore : followed size table n ≤ (table n).length := h.followed_le
          rw [followed_succ]
          omega
        obtain ⟨added, hadded⟩ := h n
        rw [← hadded, List.take_append_of_le_length hle]
      rw [List.range_succ, List.map_append, List.flatten_append, ih]
      simp only [List.map_cons, List.map_nil, List.flatten_cons, List.flatten_nil, List.append_nil]
      rw [hpage, hlater]

/-- **An empty window means that everything has been read.** -/
theorem Appended.flatten_windows_of_nil
    (h : Appended table) (hsize : 0 < size)
    (hnil : window size (followed size table n) (table n) = []) :
    ((List.range n).map fun i => window size (followed size table i) (table i)).flatten =
      table n := by
  rw [h.flatten_windows]
  exact List.take_of_length_le ((window_eq_nil_iff hsize).mp hnil)

/-- Every window that is not empty moves the reader on. -/
theorem le_followed
    (hne : ∀ j < n, window size (followed size table j) (table j) ≠ []) :
    n ≤ followed size table n := by
  induction n with
  | zero =>
      exact Nat.zero_le _
  | succ n ih =>
      have hbefore := ih fun j hj => hne j (Nat.lt_succ_of_lt hj)
      have hpos := List.length_pos_iff.mpr (hne n (Nat.lt_succ_self n))
      rw [followed]
      omega

/-! ## One size further on -/

/-- Both readers have got the same rows, and rows every time, before the round. -/
def AlikeBefore (size : ℕ) (table : ℕ → List ρ) (i : ℕ) : Prop :=
  ∀ j < i, window size (j * size) (table j) ≠ [] ∧
    window size (followed size table j) (table j) = window size (j * size) (table j)

theorem AlikeBefore.of_le
    (h : AlikeBefore size table n) (hle : i ≤ n) :
    AlikeBefore size table i :=
  fun j hj => h j (hj.trans_le hle)

/-- Behind the other reader, equal windows are full ones. -/
theorem length_eq_size_of_lt
    (hlt : followed size table i < i * size)
    (hne : window size (i * size) (table i) ≠ [])
    (heq : window size (followed size table i) (table i) = window size (i * size) (table i)) :
    (window size (followed size table i) (table i)).length = size ∧
      (i + 1) * size ≤ (table i).length := by
  have hlen := congrArg List.length heq
  have hpos := List.length_pos_iff.mpr hne
  simp only [length_window] at hlen hpos ⊢
  rw [Nat.add_mul, one_mul]
  omega

/-- A first short window is the last time the offsets are equal. -/
theorem AlikeBefore.followed_eq
    (h : AlikeBefore size table i) :
    followed size table i = i * size ∨
      ∃ n < i, (table n).length < (n + 1) * size ∧
        followed size table i = (table n).length + (i - (n + 1)) * size := by
  induction i with
  | zero =>
      exact .inl (by rw [Nat.zero_mul]; rfl)
  | succ i ih =>
      obtain ⟨hne, heq⟩ := h i (Nat.lt_succ_self i)
      have hpos := List.length_pos_iff.mpr hne
      rw [length_window] at hpos
      rcases ih (h.of_le (Nat.le_succ i)) with hsame | ⟨n, hn, hshort, hbehind⟩
      · rw [followed_succ, hsame, Nat.add_mul, one_mul]
        rcases le_or_gt (i * size + size) (table i).length with hfull | hless
        · left
          omega
        · refine .inr ⟨i, Nat.lt_succ_self i, ?_, ?_⟩
          · rw [Nat.add_mul, one_mul]
            exact hless
          · rw [Nat.sub_self, Nat.zero_mul]
            omega
      · right
        obtain ⟨k, rfl⟩ := Nat.exists_eq_add_of_lt hn
        have hlt : followed size table (n + k + 1) < (n + k + 1) * size := by
          have hk : n + k + 1 - (n + 1) = k := by omega
          rw [hbehind, hk]
          nlinarith
        obtain ⟨hfull, -⟩ := length_eq_size_of_lt hlt hne heq
        refine ⟨n, hn.trans (Nat.lt_succ_self _), hshort, ?_⟩
        have hk : n + k + 1 - (n + 1) = k := by omega
        have hk' : n + k + 1 + 1 - (n + 1) = k + 1 := by omega
        rw [followed, hfull, hbehind, hk, hk', Nat.add_mul, one_mul, Nat.add_assoc]

/-- **Where the reader is after a short window** at which the offsets were equal. -/
theorem AlikeBefore.followed_after_short
    (h : AlikeBefore size table m) (hnm : n < m)
    (hshort : (table n).length < (n + 1) * size) :
    followed size table m = (table n).length + (m - (n + 1)) * size := by
  obtain ⟨hne, heq⟩ := h n hnm
  have hpos := List.length_pos_iff.mpr hne
  rw [length_window] at hpos
  have hstart : followed size table n = n * size := by
    rcases (h.of_le hnm.le).followed_eq with hsame | ⟨n', hn', hshort', hbehind⟩
    · exact hsame
    · have hlt : followed size table n < n * size := by
        obtain ⟨k, rfl⟩ := Nat.exists_eq_add_of_lt hn'
        have hk : n' + k + 1 - (n' + 1) = k := by omega
        rw [hbehind, hk]
        nlinarith
      exact absurd (length_eq_size_of_lt hlt hne heq).2 (not_le.mpr hshort)
  induction m with
  | zero =>
      exact absurd hnm (Nat.not_lt_zero n)
  | succ m ih =>
      rcases Nat.lt_succ_iff_lt_or_eq.mp hnm with hlt | rfl
      · have hm := ih (h.of_le (Nat.le_succ m)) hlt
        obtain ⟨k, rfl⟩ := Nat.exists_eq_add_of_lt hlt
        have hk : n + k + 1 - (n + 1) = k := by omega
        have hk' : n + k + 1 + 1 - (n + 1) = k + 1 := by omega
        have hbehind : followed size table (n + k + 1) < (n + k + 1) * size := by
          rw [hm, hk]
          nlinarith
        obtain ⟨hne', heq'⟩ := h (n + k + 1) (Nat.lt_succ_self _)
        obtain ⟨hfull, -⟩ := length_eq_size_of_lt hbehind hne' heq'
        rw [followed, hfull, hm, hk, hk', Nat.add_mul, one_mul, Nat.add_assoc]
      · rw [followed_succ, hstart, Nat.sub_self, Nat.zero_mul]
        rw [Nat.add_mul, one_mul] at hshort
        omega

/--
**When the readers get the same rows.**  In every round that is reached they do,
unless a window has come up short, the list has grown before the next round, and
in some later round that is reached the rows behind those already read are not
the rows one size further on.  Without repeated rows that is the next round.
-/
theorem alike_iff
    (table : ℕ → List ρ) (hsize : 0 < size) {Goes : ℕ → Prop}
    (hgoes : ∀ j, Goes j → window size (j * size) (table j) ≠ []) :
    (∀ i, (∀ j < i, Goes j) →
      window size (followed size table i) (table i) = window size (i * size) (table i)) ↔
    ¬ ∃ n m, n < m ∧ (∀ j < m, Goes j) ∧ (table n).length < (n + 1) * size ∧
      (table n).length < (table (n + 1)).length ∧
      window size ((table n).length + (m - (n + 1)) * size) (table m) ≠
        window size (m * size) (table m) := by
  constructor
  · rintro hall ⟨n, m, hnm, hreached, hshort, -, hdiffer⟩
    have halike : AlikeBefore size table m := fun j hj =>
      ⟨hgoes j (hreached j hj), hall j fun k hk => hreached k (hk.trans hj)⟩
    have hsame := hall m hreached
    rw [halike.followed_after_short hnm hshort] at hsame
    exact hdiffer hsame
  · intro hnot i
    induction i using Nat.strong_induction_on with
    | _ i ih =>
        intro hreached
        have halike : AlikeBefore size table i := fun j hj =>
          ⟨hgoes j (hreached j hj), ih j hj fun k hk => hreached k (hk.trans hj)⟩
        rcases halike.followed_eq with hsame | ⟨n, hn, hshort, hbehind⟩
        · rw [hsame]
        · rw [hbehind]
          by_contra hdiffer
          have hstill : (table (n + 1)).length ≤ (table n).length :=
            not_lt.mp fun hgrown => hnot ⟨n, i, hn, hreached, hshort, hgrown, hdiffer⟩
          rcases (Nat.succ_le_of_lt hn).eq_or_lt with heq | hlt
          · -- nothing was appended: both find nothing
            have hi : i = n + 1 := heq.symm
            subst hi
            refine hdiffer ?_
            rw [Nat.sub_self, Nat.zero_mul, Nat.add_zero, (window_eq_nil_iff hsize).mpr hstill,
              (window_eq_nil_iff hsize).mpr (hstill.trans hshort.le)]
          · exact hgoes (n + 1) (hreached (n + 1) hlt)
              ((window_eq_nil_iff hsize).mpr (hstill.trans hshort.le))

end OffsetPaging

end Library
end EtlPlatform
