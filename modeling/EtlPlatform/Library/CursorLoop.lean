import Mathlib.Data.List.Basic
import Mathlib.Tactic.Common

/-!
# Loops that read at a cursor

In each round such a loop reads a batch at its cursor and computes from the
batch the cursor it goes on with, or fails.  The batches read, each with the
cursor that followed it, make the trace of the loop.

Two loops with one reader have the same trace, and the trace a third loop
prescribes for each batch, exactly when their computations agree with it on the
batches of that third loop (`Kept`), up to a batch on which both fail.
-/

namespace EtlPlatform
namespace Library

universe u v

section CursorLoop

variable {β : Type u} {γ : Type v}

/-- The first `n` rounds from round `i` at the cursor `c`. -/
def follow (read : ℕ → Option γ → Option β) (commit : β → Option γ) :
    (n i : ℕ) → Option γ → List (β × Option γ)
  | 0, _, _ => []
  | n + 1, i, c =>
      match read i c with
      | none => []
      | some b =>
          match commit b with
          | none => [(b, none)]
          | some c' => (b, some c') :: follow read commit n (i + 1) (some c')

/-- On every batch of a trace both computations give the cursor of the trace, up to a batch
on which both fail. -/
def Kept (commit₁ commit₂ : β → Option γ) : List (β × Option γ) → Prop
  | [] => True
  | (b, c) :: rest =>
      (commit₁ b = c ∧ commit₂ b = c ∧ Kept commit₁ commit₂ rest) ∨
        (commit₁ b = none ∧ commit₂ b = none)

/-- Computations that agree with the prescribed one are kept. -/
theorem kept_of_eq
    {commit₁ commit₂ : β → Option γ} {read : ℕ → Option γ → Option β}
    {commit : β → Option γ}
    (h₁ : ∀ b, commit₁ b = commit b) (h₂ : ∀ b, commit₂ b = commit b)
    (n i : ℕ) (c : Option γ) :
    Kept commit₁ commit₂ (follow read commit n i c) := by
  induction n generalizing i c with
  | zero =>
      trivial
  | succ n ih =>
      rw [follow]
      cases read i c with
      | none =>
          trivial
      | some b =>
          simp only
          cases hb : commit b with
          | none =>
              exact Or.inl ⟨(h₁ b).trans hb, (h₂ b).trans hb, trivial⟩
          | some c' =>
              exact Or.inl ⟨(h₁ b).trans hb, (h₂ b).trans hb, ih _ _⟩

theorem follow_succ
    {read : ℕ → Option γ → Option β} {commit : β → Option γ} {n i : ℕ} {c : Option γ} {b : β}
    (h : read i c = some b) :
    follow read commit (n + 1) i c =
      (b, commit b) :: (commit b).elim [] (fun c' => follow read commit n (i + 1) (some c')) := by
  rw [follow, h]
  cases hb : commit b <;> simp [hb]

/-- A loop only computes on the batches of its own trace. -/
theorem follow_congr
    {read : ℕ → Option γ → Option β} {commit commit' : β → Option γ} {n i : ℕ} {c : Option γ}
    (h : ∀ b c', (b, c') ∈ follow read commit n i c → commit b = commit' b) :
    follow read commit n i c = follow read commit' n i c := by
  induction n generalizing i c with
  | zero =>
      rfl
  | succ n ih =>
      cases hread : read i c with
      | none =>
          simp only [follow, hread]
      | some b =>
          rw [follow_succ hread] at h ⊢
          have hb : commit b = commit' b := h b _ List.mem_cons_self
          rw [follow_succ hread, ← hb]
          cases hc : commit b with
          | none =>
              rfl
          | some c' =>
              rw [hc] at h
              exact congrArg _ (ih (fun b' c'' hmem => h b' c'' (List.mem_cons_of_mem _ hmem)))

/--
**Two loops and a prescription.**  Two loops that share a reader have one trace,
in which every cursor is the prescribed one, if and only if their computations
are kept along the prescribed trace.
-/
theorem follow_eq_and_prescribed_iff
    (read : ℕ → Option γ → Option β) (commit₁ commit₂ commit : β → Option γ)
    (n i : ℕ) (c : Option γ) :
    (follow read commit₁ n i c = follow read commit₂ n i c ∧
        ∀ b c', (b, some c') ∈ follow read commit₁ n i c → commit b = some c') ↔
      Kept commit₁ commit₂ (follow read commit n i c) := by
  induction n generalizing i c with
  | zero =>
      simp [follow, Kept]
  | succ n ih =>
      cases hread : read i c with
      | none =>
          simp [follow, hread, Kept]
      | some b =>
          rw [follow_succ hread, follow_succ hread, follow_succ hread, Kept]
          constructor
          · rintro ⟨heq, hprescribed⟩
            obtain ⟨hhead, htail⟩ := List.cons.inj heq
            have hsame : commit₁ b = commit₂ b := (Prod.mk.inj hhead).2
            cases h₁ : commit₁ b with
            | none =>
                exact Or.inr ⟨rfl, hsame.symm.trans h₁⟩
            | some c₁ =>
                have h₂ : commit₂ b = some c₁ := hsame.symm.trans h₁
                have h : commit b = some c₁ := hprescribed b c₁ (h₁ ▸ List.mem_cons_self)
                rw [h₁, h₂] at htail
                rw [h]
                refine Or.inl ⟨rfl, h₂, (ih (i + 1) (some c₁)).mp ⟨htail, ?_⟩⟩
                intro b' c' hmem
                refine hprescribed b' c' (List.mem_cons_of_mem _ ?_)
                rw [h₁]
                exact hmem
          · rintro (⟨h₁, h₂, hrest⟩ | ⟨h₁, h₂⟩)
            · cases h : commit b with
              | none =>
                  rw [h₁, h₂, h]
                  simp
              | some c' =>
                  rw [h] at hrest
                  obtain ⟨htail, hprescribed⟩ := (ih (i + 1) (some c')).mpr hrest
                  rw [h₁, h₂, h]
                  refine ⟨congrArg _ htail, ?_⟩
                  intro b' c'' hmem
                  rcases List.mem_cons.mp hmem with heq | hmem
                  · obtain ⟨rfl, hc⟩ := Prod.mk.inj heq
                    exact h.trans hc.symm
                  · exact hprescribed b' c'' hmem
            · rw [h₁, h₂]
              simp

end CursorLoop

end Library
end EtlPlatform
