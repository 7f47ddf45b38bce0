import Mathlib.Data.List.Basic
import Mathlib.Tactic.Common

/-!
# Bounded retries

A loop calls something up to `n` times.  After a result that may be tried
`again` it waits and calls once more; after any other result, and after the
`n`-th call, it stops.

`Retries` lists the results such a loop can see, `retryScript` what it does on
them.  The laws read a list of results as the beginning of a tape, on which the
calls that are never made have a result too.
-/

namespace EtlPlatform
namespace Library

universe u v

section Retry

variable {α : Type u} {δ : Type v}

/-- One act of a retry loop. -/
inductive RetryAct (α : Type u) (δ : Type v) where
  | call (attempt : ℕ)
  | ended (res : α)
  | wait (delay : δ)
deriving DecidableEq

/-- What the loop does from its `k`-th call on, if the calls end in these results. -/
def retryScript
    (again : α → Prop) [DecidablePred again] (n : ℕ) (delay : ℕ → δ) :
    ℕ → List α → List (RetryAct α δ)
  | _, [] => []
  | k, res :: rest =>
      .call k :: .ended res ::
        ((if again res ∧ k < n then [.wait (delay k)] else []) ++
          retryScript again n delay (k + 1) rest)

/-- The results of the calls of a loop, from its `k`-th call on. -/
inductive Retries (again : α → Prop) (n : ℕ) : ℕ → List α → Prop
  | last {k : ℕ} {res : α} :
      ¬ again res → Retries again n k [res]
  | spent {k : ℕ} {res : α} :
      again res → ¬ k < n → Retries again n k [res]
  | retried {k : ℕ} {res : α} {rest : List α} :
      again res → k < n → Retries again n (k + 1) rest → Retries again n k (res :: rest)

/-- The first result on the tape that is not tried again is the one at `k`. -/
def FirstStop (again : α → Prop) (tape : ℕ → α) (k : ℕ) : Prop :=
  ¬ again (tape k) ∧ ∀ j < k, again (tape j)

/-- The tape begins with these results. -/
def StartsWith (tape : ℕ → α) (results : List α) : Prop :=
  ∀ j (h : j < results.length), tape j = results[j]

variable {again : α → Prop} {n : ℕ}

theorem startsWith_cons_iff
    {tape : ℕ → α} {res : α} {rest : List α} :
    StartsWith tape (res :: rest) ↔
      tape 0 = res ∧ StartsWith (fun j => tape (j + 1)) rest := by
  constructor
  · intro h
    refine ⟨h 0 (Nat.zero_lt_succ _), fun j hj => ?_⟩
    exact h (j + 1) (Nat.succ_lt_succ hj)
  · rintro ⟨h0, hrest⟩ j hj
    cases j with
    | zero =>
        exact h0
    | succ j =>
        exact hrest j (Nat.lt_of_succ_lt_succ hj)

/-- After a first result that is tried again, the rest of the tape decides. -/
theorem firstStop_succ_iff
    {tape : ℕ → α} {k : ℕ} (h0 : again (tape 0)) :
    FirstStop again tape (k + 1) ↔ FirstStop again (fun j => tape (j + 1)) k := by
  constructor
  · rintro ⟨hstop, hbefore⟩
    exact ⟨hstop, fun j hj => hbefore (j + 1) (Nat.succ_lt_succ hj)⟩
  · rintro ⟨hstop, hbefore⟩
    refine ⟨hstop, fun j hj => ?_⟩
    cases j with
    | zero =>
        exact h0
    | succ j =>
        exact hbefore j (Nat.lt_of_succ_lt_succ hj)

/-- **The number of calls.**  A loop stops at the first result that is not tried
again, or has no call left. -/
theorem Retries.length_eq_min
    {k m : ℕ} {results : List α} {tape : ℕ → α}
    (h : Retries again n k results) (hk : k ≤ n)
    (htape : StartsWith tape results) (hstop : FirstStop again tape m) :
    results.length = min (n + 1 - k) (m + 1) := by
  induction h generalizing tape m with
  | @last k res hres =>
      obtain ⟨h0, -⟩ := startsWith_cons_iff.mp htape
      cases m with
      | zero =>
          simp only [List.length_singleton]
          omega
      | succ m =>
          exact absurd (h0 ▸ hstop.2 0 (Nat.zero_lt_succ m)) hres
  | @spent k res hres hlast =>
      simp only [List.length_singleton]
      omega
  | @retried k res rest hres hlt _ ih =>
      obtain ⟨h0, hrest⟩ := startsWith_cons_iff.mp htape
      have hagain : again (tape 0) := h0 ▸ hres
      cases m with
      | zero =>
          exact absurd hagain hstop.1
      | succ m =>
          have hlen := ih hlt hrest ((firstStop_succ_iff hagain).mp hstop)
          simp only [List.length_cons]
          omega

/-- A loop none of whose calls gets a result to stop at makes them all. -/
theorem Retries.length_eq_of_again
    {k : ℕ} {results : List α}
    (h : Retries again n k results) (hk : k ≤ n)
    (hall : ∀ res ∈ results, again res) :
    results.length = n + 1 - k := by
  induction h with
  | last hres =>
      exact absurd (hall _ (List.mem_singleton_self _)) hres
  | spent _ hlast =>
      simp only [List.length_singleton]
      omega
  | @retried k res rest _ hlt _ ih =>
      have hlen := ih hlt (fun r hr => hall r (List.mem_cons_of_mem _ hr))
      simp only [List.length_cons]
      omega

/-- A loop has made a call. -/
theorem Retries.exists_getLast
    {k : ℕ} {results : List α}
    (h : Retries again n k results) :
    ∃ last, results.getLast? = some last := by
  cases h <;> exact ⟨_, List.getLast?_eq_some_getLast (List.cons_ne_nil _ _)⟩

/-- The last result tells whether the loop was exhausted. -/
theorem Retries.again_getLast_iff
    {k : ℕ} {results : List α} {last : α}
    (h : Retries again n k results) (hlast : results.getLast? = some last) :
    again last ↔ ∀ res ∈ results, again res := by
  induction h with
  | last hres =>
      obtain rfl := Option.some.inj hlast
      simp
  | spent hres _ =>
      obtain rfl := Option.some.inj hlast
      simp
  | @retried k res rest hres _ hrest ih =>
      obtain ⟨end', hend⟩ := hrest.exists_getLast
      have hlast' : rest.getLast? = some last := by
        simpa [List.getLast?_cons, hend] using hlast
      simpa [hres] using ih hlast'

end Retry

end Library
end EtlPlatform
