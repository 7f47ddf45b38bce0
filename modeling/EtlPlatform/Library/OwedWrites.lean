import EtlPlatform.Library.CellWrites

/-!
# Writes that are still owed

A job is a list of assignments, of which some are done and the rest is still to
come.  The cells of the rest may meanwhile hold anything: a part of the rest may
have been assigned, completely or not, once or several times.  `Owes` says that
the other cells hold what the finished part of the job left in them, as far as
they belong to the job.

* `Owes.partly`: some of the rest may be assigned at any time.
* `Owes.elsewhere`: so may cells that do not belong to the job.
* `Owes.forward`: assigning the next part moves it to what is done.
* `Owes.restart`: the job may be taken up again from its beginning.
* `Owes.settle`: once the rest is assigned, the cells of the job hold what the
  whole job leaves in them.
-/

namespace EtlPlatform
namespace Library

universe u v

section OwedWrites

variable {C : Type u} {V : Type v} [DecidableEq C]

/-- The cells a list assigns. -/
def touched (ws : List (C × V)) : List C :=
  ws.map Prod.fst

omit [DecidableEq C] in
@[simp] theorem mem_touched_append
    {ws ws' : List (C × V)} {c : C} :
    c ∈ touched (ws ++ ws') ↔ c ∈ touched ws ∨ c ∈ touched ws' := by
  simp [touched]

/-- Of a job begun at `s₀`, with the cells that satisfy `own`, `done` is done and `rest` is
owed in `s`. -/
def Owes (s₀ : C → Option V) (own : C → Prop) (done rest : List (C × V)) (s : C → Option V) :
    Prop :=
  ∀ c, own c → c ∉ touched rest → s c = assignAll s₀ done c

variable {s₀ s s' : C → Option V} {own : C → Prop} {done rest ws : List (C × V)}

/-- At its beginning a job owes everything. -/
theorem owes_start
    (s₀ : C → Option V) (own : C → Prop) (rest : List (C × V)) :
    Owes s₀ own [] rest s₀ :=
  fun _ _ _ => rfl

/-- Only the cells of the rest may change. -/
theorem Owes.congr
    (h : Owes s₀ own done rest s) (hs : ∀ c, own c → c ∉ touched rest → s' c = s c) :
    Owes s₀ own done rest s' := by
  intro c hown hc
  rw [hs c hown hc]
  exact h c hown hc

/-- A part of the rest may be assigned at any time. -/
theorem Owes.partly
    (h : Owes s₀ own done rest s) (hws : ∀ c ∈ touched ws, c ∈ touched rest) :
    Owes s₀ own done rest (assignAll s ws) :=
  h.congr fun c _ hc => assignAll_of_not_mem s ws fun hmem => hc (hws c hmem)

/-- So may cells that do not belong to the job. -/
theorem Owes.elsewhere
    (h : Owes s₀ own done rest s) (hws : ∀ c ∈ touched ws, ¬ own c) :
    Owes s₀ own done rest (assignAll s ws) :=
  h.congr fun c hown _ => assignAll_of_not_mem s ws fun hmem => hws c hmem hown

/-- **The next part is done**, whatever of it had been assigned before. -/
theorem Owes.forward
    (h : Owes s₀ own done (ws ++ rest) s) :
    Owes s₀ own (done ++ ws) rest (assignAll s ws) := by
  intro c hown hrest
  rw [assignAll_append]
  by_cases hc : c ∈ touched ws
  · exact assignAll_eq_of_mem _ _ ws hc
  · refine assignAll_congr ws (h c hown ?_)
    rw [mem_touched_append]
    exact not_or_intro hc hrest

/-- **The job may start again.** -/
theorem Owes.restart
    (h : Owes s₀ own done rest s) :
    Owes s₀ own [] (done ++ rest) s := by
  intro c hown hc
  rw [mem_touched_append, not_or] at hc
  rw [h c hown hc.2, assignAll_nil]
  exact assignAll_of_not_mem s₀ done hc.1

/-- **The job is done** when the rest is assigned. -/
theorem Owes.settle
    (h : Owes s₀ own done rest s) {c : C} (hown : own c) :
    assignAll s rest c = assignAll s₀ (done ++ rest) c := by
  have hend : Owes s₀ own done (rest ++ []) s := by
    rw [List.append_nil]
    exact h
  exact hend.forward c hown List.not_mem_nil

end OwedWrites

end Library
end EtlPlatform
