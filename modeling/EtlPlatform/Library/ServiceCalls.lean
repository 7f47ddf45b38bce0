import Mathlib.Logic.Relation
import Mathlib.Tactic.Common

/-!
# Programs that call a service

A program either is done or calls a service and goes on with the answer.  The
service is a relation: in a state it may answer a request in several ways, and
each answer comes with the state after it.  `Runs` collects what a program may
end with, and `Always` is the weakest precondition: whatever the service
answers, the program ends with a result and in a state that satisfy the
postcondition.

* `runs_bind_iff`: a run of a sequence is a run of its first part and a run of
  the rest.
* `Always.bind`, `Always.mono`: sequence and consequence.
* `always_iff`: the weakest precondition speaks about all runs.
* `runs_against`: a service that is a function, and the run against it.
-/

namespace EtlPlatform
namespace Library

universe u v w

/-- A program that ends with an `α`. -/
inductive Calls (Req : Type u) (Ans : Req → Type u) (α : Type v) where
  | done (a : α)
  /-- call the service, and go on with its answer -/
  | call (req : Req) (next : Ans req → Calls Req Ans α)

namespace Calls

variable {Req : Type u} {Ans : Req → Type u} {α β : Type v} {σ : Type w}

/-- One program after the other. -/
def bind : Calls Req Ans α → (α → Calls Req Ans β) → Calls Req Ans β
  | .done a, f => f a
  | .call req next, f => .call req (fun ans => (next ans).bind f)

/-- A single call. -/
def perform (req : Req) : Calls Req Ans (Ans req) :=
  .call req .done

instance : Monad (Calls Req Ans) where
  pure := .done
  bind := Calls.bind

@[simp] theorem pure_eq
    (a : α) :
    (pure a : Calls Req Ans α) = .done a :=
  rfl

@[simp] theorem done_bind
    (a : α) (f : α → Calls Req Ans β) :
    (Calls.done a >>= f) = f a :=
  rfl

@[simp] theorem call_bind
    (req : Req) (next : Ans req → Calls Req Ans α) (f : α → Calls Req Ans β) :
    (Calls.call req next >>= f) = .call req (fun ans => next ans >>= f) :=
  rfl

end Calls

/-! ## What a program may end with -/

section Runs

variable {Req : Type u} {Ans : Req → Type u} {α β : Type v} {σ : Type w}
variable {serves : σ → (req : Req) → Ans req → σ → Prop}

/-- Run against the service from `s`, the program may end with `a` in `s'`. -/
inductive Runs (serves : σ → (req : Req) → Ans req → σ → Prop) :
    Calls Req Ans α → σ → α → σ → Prop
  | done (a : α) (s : σ) :
      Runs serves (.done a) s a s
  | call {req : Req} {next : Ans req → Calls Req Ans α} {s s' s'' : σ} {ans : Ans req} {a : α} :
      serves s req ans s' →
      Runs serves (next ans) s' a s'' →
      Runs serves (.call req next) s a s''

variable {m : Calls Req Ans α} {f : α → Calls Req Ans β} {s s' : σ} {a : α} {b : β}

@[simp] theorem runs_done_iff
    {a' : α} :
    Runs serves (.done a) s a' s' ↔ a' = a ∧ s' = s := by
  constructor
  · intro h
    cases h
    exact ⟨rfl, rfl⟩
  · rintro ⟨rfl, rfl⟩
    exact .done _ _

theorem runs_call_iff
    {req : Req} {next : Ans req → Calls Req Ans α} :
    Runs serves (.call req next) s a s' ↔
      ∃ ans s₁, serves s req ans s₁ ∧ Runs serves (next ans) s₁ a s' := by
  constructor
  · intro h
    cases h with
    | call hserves hnext =>
        exact ⟨_, _, hserves, hnext⟩
  · rintro ⟨ans, s₁, hserves, hnext⟩
    exact .call hserves hnext

/-- **A run of a sequence**, by induction on its first part. -/
theorem runs_bind_iff :
    Runs serves (m >>= f) s b s' ↔ ∃ a s₁, Runs serves m s a s₁ ∧ Runs serves (f a) s₁ b s' := by
  induction m generalizing s with
  | done a =>
      simp
  | call req next ih =>
      simp only [Calls.call_bind, runs_call_iff, ih]
      constructor
      · rintro ⟨ans, s₁, hserves, a, s₂, hnext, hrest⟩
        exact ⟨a, s₂, ⟨ans, s₁, hserves, hnext⟩, hrest⟩
      · rintro ⟨a, s₂, ⟨ans, s₁, hserves, hnext⟩, hrest⟩
        exact ⟨ans, s₁, hserves, a, s₂, hnext, hrest⟩

/-- A run against a service that answers by a function. -/
def Calls.against (respond : σ → (req : Req) → Ans req × σ) : Calls Req Ans α → σ → α × σ
  | .done a, s => (a, s)
  | .call req next, s => (next (respond s req).1).against respond (respond s req).2

theorem runs_against
    {respond : σ → (req : Req) → Ans req × σ}
    (h : ∀ s req, serves s req (respond s req).1 (respond s req).2) (m : Calls Req Ans α) (s : σ) :
    Runs serves m s (m.against respond s).1 (m.against respond s).2 := by
  induction m generalizing s with
  | done a =>
      exact .done a s
  | call req next ih =>
      exact .call (h s req) (ih _ _)

end Runs

/-! ## What a program always ends with -/

section Always

variable {Req : Type u} {Ans : Req → Type u} {α β : Type v} {σ : Type w}
variable (serves : σ → (req : Req) → Ans req → σ → Prop)

/-- Whatever the service answers, the program ends as `post` says. -/
def Always : Calls Req Ans α → (α → σ → Prop) → σ → Prop
  | .done a, post, s => post a s
  | .call req next, post, s => ∀ ans s', serves s req ans s' → Always (next ans) post s'

variable {serves} {m : Calls Req Ans α} {f : α → Calls Req Ans β} {s : σ}
variable {post post' : α → σ → Prop}

/-- Consequence. -/
theorem Always.mono
    (h : Always serves m post s) (himp : ∀ a s', post a s' → post' a s') :
    Always serves m post' s := by
  induction m generalizing s with
  | done a =>
      exact himp a s h
  | call req next ih =>
      exact fun ans s' hserves => ih ans (h ans s' hserves)

/-- Sequence. -/
theorem Always.bind
    {post : β → σ → Prop} (h : Always serves m (fun a s' => Always serves (f a) post s') s) :
    Always serves (m >>= f) post s := by
  induction m generalizing s with
  | done a =>
      exact h
  | call req next ih =>
      exact fun ans s' hserves => ih ans (h ans s' hserves)

/-- **The weakest precondition speaks about all runs.** -/
theorem always_iff :
    Always serves m post s ↔ ∀ a s', Runs serves m s a s' → post a s' := by
  induction m generalizing s with
  | done a =>
      constructor
      · rintro h b s' hruns
        obtain ⟨rfl, rfl⟩ := runs_done_iff.mp hruns
        exact h
      · exact fun h => h a s (.done a s)
  | call req next ih =>
      constructor
      · intro h a s' hruns
        obtain ⟨ans, s₁, hserves, hnext⟩ := runs_call_iff.mp hruns
        exact (ih ans).mp (h ans s₁ hserves) a s' hnext
      · intro h ans s₁ hserves
        exact (ih ans).mpr fun a s' hnext => h a s' (.call hserves hnext)

end Always

end Library
end EtlPlatform
