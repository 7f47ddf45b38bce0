import EtlPlatform.Library.LabelledRun
import Mathlib.Tactic.Linarith

/-!
# Accounts and simulations along a run

Rules about whole runs of a labelled step function, each reduced to one
of its steps.

* `exec_trace`: if every step of a system is matched by a run of the events an
  observer reports for it, then every run is matched by its trace; `Path.simulates`
  is the same for a relation between the two systems.
* `Path.balance`: if every step keeps its balance, so does a run: what came in
  and what was there at the start is what went out and what is there at the end.
* `Path.income`: if no step raises a level by more than its income, no run
  raises it by more than its income.
* `Path.tallies`: an invariant that speaks of what has been counted so far.
* `Path.trace_append`: if every step takes what it shows off the front of a
  list, a run has shown what is gone from the list.
* `Path.cost_le_of_within`: the potential rule for a potential that a state does
  not determine, given as a bound that may be true of a state.
-/

namespace EtlPlatform
namespace Library

universe u v

section RunAccounts

variable {σ τ : Type u}
variable {ε : Type v} {δ : Type u}
variable {step : σ → ε → Option σ}

theorem cost_cons
    {c : σ → ε → ℕ} {s s' : σ} {e : ε} (es : List ε)
    (h : step s e = some s') :
    cost step c s (e :: es) = c s e + cost step c s' es := by
  simp [cost, h]

theorem cost_add
    (c d : σ → ε → ℕ) (s : σ) (es : List ε) :
    cost step (fun s e => c s e + d s e) s es = cost step c s es + cost step d s es := by
  induction es generalizing s with
  | nil =>
      rfl
  | cons e es ih =>
      cases hs : step s e with
      | none =>
          simp [cost, hs]
      | some s' =>
          rw [cost_cons es hs, cost_cons es hs, cost_cons es hs, ih s']
          exact Nat.add_add_add_comm ..

theorem cost_mul
    (n : ℕ) (c : σ → ε → ℕ) (s : σ) (es : List ε) :
    cost step (fun s e => n * c s e) s es = n * cost step c s es := by
  induction es generalizing s with
  | nil =>
      rfl
  | cons e es ih =>
      cases hs : step s e with
      | none =>
          simp [cost, hs]
      | some s' =>
          rw [cost_cons es hs, cost_cons es hs, ih s', Nat.mul_add]

/-- **Simulation rule.** -/
theorem exec_trace
    {step' : τ → δ → Option τ} {abs : σ → τ} {obs : σ → ε → σ → List δ}
    (hstep : ∀ s e s', step s e = some s' → exec step' (abs s) (obs s e s') = some (abs s'))
    {s s' : σ} {es : List ε}
    (h : exec step s es = some s') :
    exec step' (abs s) (trace step obs s es) = some (abs s') := by
  induction es generalizing s with
  | nil =>
      obtain rfl := Option.some.inj h
      rfl
  | cons e es ih =>
      obtain ⟨t, ht, hes⟩ := Option.bind_eq_some_iff.mp h
      rw [trace_cons es ht]
      exact exec_append (hstep s e t ht) (ih hes)

/-- **Simulation rule for relations.** -/
theorem Path.simulates
    {stay : σ → ε → σ → Prop} {step' : τ → δ → Option τ} {R : σ → τ → Prop}
    {obs : σ → ε → σ → List δ} {s s' : σ} {t : τ} {es : List ε}
    (h : Path step stay s es s')
    (hR : R s t)
    (hstep : ∀ s e s' t, R s t → stay s e s' → step s e = some s' →
      ∃ t', exec step' t (obs s e s') = some t' ∧ R s' t') :
    ∃ t', exec step' t (trace step obs s es) = some t' ∧ R s' t' := by
  induction h generalizing t with
  | nil s =>
      exact ⟨t, rfl, hR⟩
  | cons hs hstay _ ih =>
      obtain ⟨t₁, hfirst, hR₁⟩ := hstep _ _ _ t hR hstay hs
      obtain ⟨t', hrest, hR'⟩ := ih hR₁
      refine ⟨t', ?_, hR'⟩
      rw [trace_cons _ hs]
      exact exec_append hfirst hrest

/-- A run that can be executed is a path. -/
theorem Path.of_exec
    {s s' : σ} {es : List ε}
    (h : exec step s es = some s') :
    Path step (fun _ _ _ => True) s es s' := by
  induction es generalizing s with
  | nil =>
      obtain rfl := Option.some.inj h
      exact .nil s
  | cons e es ih =>
      obtain ⟨t, ht, hes⟩ := Option.bind_eq_some_iff.mp h
      exact .cons ht trivial (ih hes)

/-- A path is a run that can be executed. -/
theorem Path.exec_eq
    {stay : σ → ε → σ → Prop} {s s' : σ} {es : List ε}
    (h : Path step stay s es s') :
    exec step s es = some s' := by
  induction h with
  | nil s =>
      rfl
  | cons hs _ _ ih =>
      exact Option.bind_eq_some_iff.mpr ⟨_, hs, ih⟩

/-- **Balance rule.** -/
theorem Path.balance
    {stay : σ → ε → σ → Prop} {gain loss : σ → ε → ℕ} {stock : σ → ℕ}
    {s s' : σ} {es : List ε}
    (h : Path step stay s es s')
    (hstep : ∀ s e s', stay s e s' → step s e = some s' →
      stock s + gain s e = loss s e + stock s') :
    stock s + cost step gain s es = cost step loss s es + stock s' := by
  induction h with
  | nil s =>
      simp [cost]
  | cons hs hstay _ ih =>
      have hone := hstep _ _ _ hstay hs
      rw [cost_cons _ hs, cost_cons _ hs]
      linarith

/-- **Income rule.** -/
theorem Path.income
    {stay : σ → ε → σ → Prop} {gain : σ → ε → ℕ} {level : σ → ℕ}
    {s s' : σ} {es : List ε}
    (h : Path step stay s es s')
    (hstep : ∀ s e s', stay s e s' → step s e = some s' → level s' ≤ level s + gain s e) :
    level s' ≤ level s + cost step gain s es := by
  induction h with
  | nil s =>
      exact Nat.le_add_right _ _
  | cons hs hstay _ ih =>
      have hone := hstep _ _ _ hstay hs
      rw [cost_cons _ hs]
      linarith

/-- **Tally rule.**  An invariant that speaks of two running totals. -/
theorem Path.tallies
    {stay : σ → ε → σ → Prop} {c d : σ → ε → ℕ} {I : σ → ℕ → ℕ → Prop}
    {s s' : σ} {es : List ε} {n m : ℕ}
    (h : Path step stay s es s')
    (h0 : I s n m)
    (hstep : ∀ s e s' n m, I s n m → stay s e s' → step s e = some s' →
      I s' (n + c s e) (m + d s e)) :
    I s' (n + cost step c s es) (m + cost step d s es) := by
  induction h generalizing n m with
  | nil s =>
      exact h0
  | cons hs hstay _ ih =>
      have hrest := ih (hstep _ _ _ n m h0 hstay hs)
      rw [cost_cons _ hs, cost_cons _ hs, ← Nat.add_assoc, ← Nat.add_assoc]
      exact hrest

/-- What an observer sees satisfies what every single observation does. -/
theorem Path.of_mem_trace {β : Type u}
    {stay : σ → ε → σ → Prop} {obs : σ → ε → σ → List β} {Q : β → Prop}
    {s s' : σ} {es : List ε}
    (h : Path step stay s es s')
    (hstep : ∀ s e s', stay s e s' → step s e = some s' → ∀ x ∈ obs s e s', Q x) :
    ∀ x ∈ trace step obs s es, Q x := by
  induction h with
  | nil s =>
      intro x hx
      cases hx
  | cons hs hstay _ ih =>
      intro x hx
      rw [trace_cons _ hs] at hx
      rcases List.mem_append.mp hx with hx | hx
      · exact hstep _ _ _ hstay hs x hx
      · exact ih x hx

/-- **Consumption rule.** -/
theorem Path.trace_append {β γ : Type u}
    {stay : σ → ε → σ → Prop} {obs : σ → ε → σ → List β} {f : β → γ} {rest : σ → List γ}
    {s s' : σ} {es : List ε}
    (h : Path step stay s es s')
    (hstep : ∀ s e s', stay s e s' → step s e = some s' →
      (obs s e s').map f ++ rest s' = rest s) :
    (trace step obs s es).map f ++ rest s' = rest s := by
  induction h with
  | nil s =>
      rfl
  | cons hs hstay _ ih =>
      rw [trace_cons _ hs, List.map_append, List.append_assoc, ih]
      exact hstep _ _ _ hstay hs

/-- **Potential rule for bounds.** -/
theorem Path.cost_le_of_within
    {stay : σ → ε → σ → Prop} {c : σ → ε → ℕ} {Within : σ → ℕ → Prop}
    {s s' : σ} {es : List ε} {n : ℕ}
    (h : Path step stay s es s')
    (hn : Within s n)
    (hstep : ∀ s e s' n, Within s n → stay s e s' → step s e = some s' →
      ∃ n', Within s' n' ∧ c s e + n' ≤ n) :
    ∃ n', Within s' n' ∧ cost step c s es + n' ≤ n := by
  induction h generalizing n with
  | nil s =>
      exact ⟨n, hn, by simp [cost]⟩
  | cons hs hstay _ ih =>
      obtain ⟨m, hm, hpaid⟩ := hstep _ _ _ n hn hstay hs
      obtain ⟨n', hn', hrest⟩ := ih hm
      refine ⟨n', hn', ?_⟩
      rw [cost_cons _ hs]
      omega

end RunAccounts

end Library
end EtlPlatform
