import Mathlib.Logic.Function.Basic
import Mathlib.Tactic.Common

/-!
# Labelled runs of a partial step function

A system is a partial function `step : σ → ε → Option σ`: in a state, a label
either names a step the system can take, with one successor, or names none.
The environment's nondeterminism (which process moves, which answer a call
gets) lives entirely in the choice of labels.

The module supplies the rules the developments above it use.

* `Reach.exists_of_replay`: a concrete run, replayed, is a reachability proof.
* `Reach.invariant`: a predicate that holds initially and survives every
  allowed step holds in every reachable state.
* `Path.invariant`: the same rule along one run from a fixed state.
* `Path.cost_le`: if every step pays for its cost out of a potential, the
  total cost of a run is bounded by the potential it starts with.
-/

namespace EtlPlatform
namespace Library

universe u v

section LabelledRun

variable {σ : Type u}
variable {ε : Type v}

/-- Run a list of labels from a state. -/
def exec (step : σ → ε → Option σ) : σ → List ε → Option σ
  | s, [] => some s
  | s, e :: es => (step s e).bind (fun s' => exec step s' es)

/--
States reachable from `init` by steps that meet the side condition `allow`,
which sees the state before the step and the label.
-/
inductive Reach
    (step : σ → ε → Option σ)
    (init : σ → Prop)
    (allow : σ → ε → Prop) : σ → Prop
  | start {s : σ} :
      init s → Reach step init allow s
  | next {s s' : σ} {e : ε} :
      Reach step init allow s →
      allow s e →
      step s e = some s' →
      Reach step init allow s'

/--
`Path step stay s es s'`: the labels `es` lead from `s` to `s'`, and every
single step satisfies `stay before label after`.
-/
inductive Path
    (step : σ → ε → Option σ)
    (stay : σ → ε → σ → Prop) : σ → List ε → σ → Prop
  | nil (s : σ) : Path step stay s [] s
  | cons {s s' s'' : σ} {e : ε} {es : List ε} :
      step s e = some s' →
      stay s e s' →
      Path step stay s' es s'' →
      Path step stay s (e :: es) s''

/-- Carry a history variable `g` along, updated from the state before each step. -/
def tracked {γ : Type u}
    (step : σ → ε → Option σ) (update : γ → σ → ε → γ) (x : σ × γ) (e : ε) :
    Option (σ × γ) :=
  (step x.1 e).map (fun s' => (s', update x.2 x.1 e))

/-- Total cost of a run, each step charged in the state it starts from. -/
def cost (step : σ → ε → Option σ) (c : σ → ε → ℕ) : σ → List ε → ℕ
  | _, [] => 0
  | s, e :: es =>
      c s e + ((step s e).map (fun s' => cost step c s' es)).getD 0

/-- What an observer of the steps sees along a run. -/
def trace {β : Type u}
    (step : σ → ε → Option σ) (obs : σ → ε → σ → List β) : σ → List ε → List β
  | _, [] => []
  | s, e :: es =>
      match step s e with
      | some s' => obs s e s' ++ trace step obs s' es
      | none => []

variable {step : σ → ε → Option σ}

theorem trace_cons {β : Type u}
    {obs : σ → ε → σ → List β} {s s' : σ} {e : ε} (es : List ε)
    (h : step s e = some s') :
    trace step obs s (e :: es) = obs s e s' ++ trace step obs s' es := by
  simp [trace, h]

theorem exec_append
    {s s' s'' : σ} {es es' : List ε}
    (h : exec step s es = some s') (h' : exec step s' es' = some s'') :
    exec step s (es ++ es') = some s'' := by
  induction es generalizing s with
  | nil =>
      obtain rfl := Option.some.inj h
      exact h'
  | cons e es ih =>
      obtain ⟨t, ht, hes⟩ := Option.bind_eq_some_iff.mp h
      exact Option.bind_eq_some_iff.mpr ⟨t, ht, ih hes⟩

theorem tracked_eq_some_iff {γ : Type u}
    {update : γ → σ → ε → γ} {x y : σ × γ} {e : ε} :
    tracked step update x e = some y ↔
      step x.1 e = some y.1 ∧ y.2 = update x.2 x.1 e := by
  obtain ⟨s', g'⟩ := y
  simp only [tracked, Option.map_eq_some_iff, Prod.mk.injEq]
  constructor
  · rintro ⟨t, ht, rfl, rfl⟩
    exact ⟨ht, rfl⟩
  · rintro ⟨ht, rfl⟩
    exact ⟨s', ht, rfl, rfl⟩

/-- **Invariant rule.** -/
theorem Reach.invariant
    {init : σ → Prop} {allow : σ → ε → Prop}
    {I : σ → Prop} {s : σ}
    (h : Reach step init allow s)
    (hinit : ∀ s, init s → I s)
    (hstep : ∀ s e s', I s → allow s e → step s e = some s' → I s') :
    I s := by
  induction h with
  | start h0 =>
      exact hinit _ h0
  | next _ hallow hs ih =>
      exact hstep _ _ _ ih hallow hs

/-- Weaker side conditions reach at least as much. -/
theorem Reach.mono
    {init : σ → Prop} {allow allow' : σ → ε → Prop} {s : σ}
    (h : Reach step init allow s)
    (himp : ∀ s e, allow s e → allow' s e) :
    Reach step init allow' s := by
  induction h with
  | start h0 =>
      exact .start h0
  | next _ hallow hs ih =>
      exact .next ih (himp _ _ hallow) hs

/-- Take only the steps a side condition allows. -/
def guarded
    (step : σ → ε → Option σ) (allow : σ → ε → Prop)
    [∀ s e, Decidable (allow s e)] (s : σ) (e : ε) : Option σ :=
  if allow s e then step s e else none

/-- A run that checks the side condition at every step only visits reachable states. -/
theorem Reach.of_exec_guarded
    {init : σ → Prop} {allow : σ → ε → Prop} [∀ s e, Decidable (allow s e)]
    {s s' : σ} {es : List ε}
    (h : Reach step init allow s)
    (hexec : exec (guarded step allow) s es = some s') :
    Reach step init allow s' := by
  induction es generalizing s with
  | nil =>
      simp only [exec, Option.some.injEq] at hexec
      exact hexec ▸ h
  | cons e es ih =>
      obtain ⟨t, ht, hrest⟩ := Option.bind_eq_some_iff.mp hexec
      simp only [guarded] at ht
      split_ifs at ht with hallow
      exact ih (.next h hallow ht) hrest

/-- **Replay rule.**  To reach a state with a decidable property, replay a run to it. -/
theorem Reach.exists_of_replay
    {init : σ → Prop} {allow : σ → ε → Prop} [∀ s e, Decidable (allow s e)]
    {q : σ → Prop} [DecidablePred q]
    (s : σ) (es : List ε)
    (hinit : init s)
    (hq : (exec (guarded step allow) s es).any (fun s => decide (q s)) = true) :
    ∃ s', Reach step init allow s' ∧ q s' := by
  cases hexec : exec (guarded step allow) s es with
  | none =>
      simp [hexec] at hq
  | some s' =>
      refine ⟨s', Reach.of_exec_guarded (.start hinit) hexec, ?_⟩
      simpa [hexec] using hq

/-- A run that checks a side condition at every step, replayed, is a path. -/
theorem Path.of_exec_guarded
    {allow : σ → ε → Prop} [∀ s e, Decidable (allow s e)]
    {s s' : σ} {es : List ε}
    (h : exec (guarded step allow) s es = some s') :
    Path step (fun s e _ => allow s e) s es s' := by
  induction es generalizing s with
  | nil =>
      obtain rfl := Option.some.inj h
      exact .nil s
  | cons e es ih =>
      obtain ⟨t, ht, hrest⟩ := Option.bind_eq_some_iff.mp h
      simp only [guarded] at ht
      split_ifs at ht with hallow
      exact .cons ht hallow (ih hrest)

/-- A nonempty run is its first step and the rest. -/
theorem Path.cons_iff
    {stay : σ → ε → σ → Prop} {s t s' : σ} {e : ε} {es : List ε}
    (ht : step s e = some t) :
    Path step stay s (e :: es) s' ↔ stay s e t ∧ Path step stay t es s' := by
  constructor
  · intro h
    cases h with
    | cons hs hstay hrest =>
        obtain rfl := Option.some.inj (ht.symm.trans hs)
        exact ⟨hstay, hrest⟩
  · rintro ⟨hstay, hrest⟩
    exact .cons ht hstay hrest

/-- A run keeps what follows from its side condition. -/
theorem Path.mono
    {stay stay' : σ → ε → σ → Prop} {s s' : σ} {es : List ε}
    (h : Path step stay s es s')
    (himp : ∀ s e s', stay s e s' → stay' s e s') :
    Path step stay' s es s' := by
  induction h with
  | nil s =>
      exact .nil s
  | cons hs hstay _ ih =>
      exact .cons hs (himp _ _ _ hstay) ih

/-- Invariant rule along one run. -/
theorem Path.invariant
    {stay : σ → ε → σ → Prop} {I : σ → Prop}
    {s s' : σ} {es : List ε}
    (h : Path step stay s es s')
    (h0 : I s)
    (hstep : ∀ s e s', I s → stay s e s' → step s e = some s' → I s') :
    I s' := by
  induction h with
  | nil =>
      exact h0
  | cons hs hstay _ ih =>
      exact ih (hstep _ _ _ h0 hstay hs)

/-- An invariant of the steps of a run may be assumed at each of them. -/
theorem Path.with_invariant
    {stay : σ → ε → σ → Prop} {I : σ → Prop}
    {s s' : σ} {es : List ε}
    (h : Path step stay s es s')
    (h0 : I s)
    (hstep : ∀ s e s', I s → stay s e s' → step s e = some s' → I s') :
    Path step (fun s e s' => I s ∧ stay s e s') s es s' := by
  induction h with
  | nil s =>
      exact .nil s
  | cons hs hstay _ ih =>
      exact .cons hs ⟨h0, hstay⟩ (ih (hstep _ _ _ h0 hstay hs))

/-- **Potential rule.**  The steps of a run cost no more than its first state holds. -/
theorem Path.cost_le
    {stay : σ → ε → σ → Prop}
    {c : σ → ε → ℕ} {pot : σ → ℕ}
    {s s' : σ} {es : List ε}
    (h : Path step stay s es s')
    (hstep : ∀ s e s', stay s e s' → step s e = some s' →
      c s e + pot s' ≤ pot s) :
    cost step c s es ≤ pot s := by
  induction h with
  | nil =>
      exact Nat.zero_le _
  | cons hs hstay _ ih =>
      have hpay := hstep _ _ _ hstay hs
      simp only [cost, hs, Option.map_some, Option.getD_some]
      omega

end LabelledRun

end Library
end EtlPlatform
