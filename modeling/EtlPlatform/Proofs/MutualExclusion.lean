import EtlPlatform.Model.Deployment
import EtlPlatform.Proofs.StatusView

/-!
# One execution at a time

`claim_run_requested` is an atomic compare-and-set on `RUN_REQUESTED`, so two
runners cannot both win the same request.  A second request is another matter:
`request_run` is also accepted from `PAUSE_REQUESTED`, a status a pipeline
takes while its batches are still running, and it puts `RUN_REQUESTED` back for
another runner to claim.

Mutual exclusion therefore holds on every run in which no run request is
accepted while the pipeline is being executed, and fails on a run of five
requests and statements in which one is.
-/

namespace EtlPlatform

open Library

/-- No process recovers, at most one is dispatching, and then no claim can succeed. -/
structure View.Exclusive {ι : Type} (v : View ι) : Prop where
  no_recovery : ∀ i, v.position i ≠ .recovering
  unique : ∀ i j a b,
    v.position i = .dispatching a → v.position j = .dispatching b → i = j
  not_requested : ∀ i a, v.position i = .dispatching a → v.status ≠ .RUN_REQUESTED

section Abstract

variable {ι : Type} [DecidableEq ι]

/-- A process that leaves its dispatch, or was in none, takes nothing away. -/
theorem View.Exclusive.move_idle
    {v : View ι} (hv : v.Exclusive) (i : ι) {s : PipelineStatus} {o : Position}
    (ho : o.idle) (hs : s = .RUN_REQUESTED → v.status = .RUN_REQUESTED) :
    (v.move i s o).Exclusive := by
  have hpos : ∀ j o', ¬ o'.idle → (v.move i s o).position j = o' → v.position j = o' := by
    intro j o' ho' hj
    by_cases hji : j = i
    · subst hji
      rw [View.position_move_self] at hj
      exact absurd (hj ▸ ho) ho'
    · rwa [View.position_move_of_ne _ _ _ hji] at hj
  refine ⟨fun j hj => ?_, fun j k a b hj hk => ?_, fun j a hj hreq => ?_⟩
  · exact hv.no_recovery j (hpos j _ id hj)
  · exact hv.unique j k a b (hpos j _ id hj) (hpos k _ id hk)
  · exact hv.not_requested j a (hpos j _ id hj) (hs hreq)

/-- The only process that dispatches, or the first one to, may go on dispatching. -/
theorem View.Exclusive.move_dispatching
    {v : View ι} (hv : v.Exclusive) {i : ι} {s : PipelineStatus} (a : Activity)
    (honly : ∀ j b, v.position j = .dispatching b → j = i) (hs : s ≠ .RUN_REQUESTED) :
    (v.move i s (.dispatching a)).Exclusive := by
  have hpos : ∀ j b, (v.move i s (.dispatching a)).position j = .dispatching b → j = i := by
    intro j b hj
    by_contra hji
    rw [View.position_move_of_ne _ _ _ hji] at hj
    exact hji (honly j b hj)
  refine ⟨fun j hj => ?_, fun j k b c hj hk => ?_, fun j b _ => hs⟩
  · by_cases hji : j = i
    · subst hji
      simp at hj
    · rw [View.position_move_of_ne _ _ _ hji] at hj
      exact hv.no_recovery j hj
  · rw [hpos j b hj, hpos k c hk]

/-- The invariant of mutual exclusion survives every step that starts no process and
accepts no run request while a process dispatches. -/
theorem View.Exclusive.step
    {v v' : View ι} {e : ViewEvent ι}
    (hv : v.Exclusive) (h : View.Step v e v')
    (hspawn : ∀ i, e ≠ .spawn i)
    (hrun : e = .run → v.status ∈ runAccepted → ∀ i a, v.position i ≠ .dispatching a) :
    v'.Exclusive := by
  cases h with
  | run =>
      refine ⟨hv.no_recovery, hv.unique, fun i a hi hreq => ?_⟩
      by_cases hacc : v.status ∈ runAccepted
      · exact hrun rfl hacc i a hi
      · simp only [moveStatus, if_neg hacc] at hreq
        exact hv.not_requested i a hi hreq
  | pause =>
      refine ⟨hv.no_recovery, hv.unique, fun i a hi hreq => ?_⟩
      by_cases hacc : v.status ∈ pauseAccepted
      · simp [moveStatus, if_pos hacc] at hreq
      · simp only [moveStatus, if_neg hacc] at hreq
        exact hv.not_requested i a hi hreq
  | other =>
      exact hv
  | kill i =>
      exact hv.move_idle i trivial id
  | spawn i _ =>
      exact absurd rfl (hspawn i)
  | runner i hmove =>
      have hrec := hv.no_recovery i
      have hreq := hv.not_requested i
      have honly := fun j b a hj => hv.unique j i b a hj
      generalize v.position i = o at hmove hrec hreq honly
      generalize hst : v.status = st at hmove hreq
      cases hmove with
      | elsewhere _ _ ho' =>
          exact hv.move_idle i ho' (fun h => hst.trans h)
      | claim _ =>
          -- a claim takes the request away, so nobody was dispatching
          exact hv.move_dispatching _
            (fun j a hj => absurd hst (hv.not_requested j a hj)) (by simp)
      | claimLost _ ho' =>
          exact hv.move_idle i ho' (by simp)
      | applyPause ho' =>
          exact hv.move_idle i ho' (by simp)
      | lookUp _ _ =>
          exact absurd rfl hrec
      | recover _ =>
          exact absurd rfl hrec
      | inside hmoves =>
          refine hv.move_dispatching _ (fun j b hj => honly j b _ hj rfl) ?_
          rcases hmoves.status_cases with h | ⟨-, -, h⟩ | ⟨exit, -, -, h⟩ | ⟨-, -, h⟩
          · rw [h]
            exact hreq _ rfl
          all_goals simp [h]
      | leave _ ho' =>
          exact hv.move_idle i ho' (fun h => hst.trans h)

end Abstract

section MutualExclusion

variable {ι P : Type} [DecidableEq ι] [DecidableEq P]

/-- Every runner process has started and is between two ticks. -/
def Sys.Started (s : Sys ι P) : Prop :=
  ∀ i, (s.procs i).pc = .started ∨ (s.procs i).pc = .polling

/-- At most one process is executing `p`. -/
def MutualExclusion (p : P) (s : Sys ι P) : Prop :=
  ∀ i j, (s.procs i).pc.executing p → (s.procs j).pc.executing p → i = j

/-- The event is no accepted run request for `p` while `p` is being executed. -/
def NoRunWhileExecuting (p : P) (s : Sys ι P) : Event ι P → Prop
  | .run q => q = p → s.db.status p ∈ runAccepted → ∀ i, ¬ (s.procs i).pc.executing p
  | _ => True

instance (n : ℕ) (p : P) (s : Sys (Fin n) P) : DecidablePred (NoRunWhileExecuting p s)
  | .run q => inferInstanceAs
      (Decidable (q = p → s.db.status p ∈ runAccepted → ∀ i, ¬ (s.procs i).pc.executing p))
  | .pause _ | .patch _ _ | .source _ | .kill _ | .spawn _ | .runner _ _ => .isTrue trivial

omit [DecidableEq ι] in
theorem exclusive_of_started
    {s : Sys ι P} (h : s.Started) (p : P) :
    (s.view p).Exclusive := by
  have haway : ∀ i, (s.view p).position i = .away := by
    intro i
    rcases h i with hi | hi <;> simp [Sys.view, hi, Pc.position]
  constructor <;> simp [haway]

/-- **Mutual exclusion.**  As long as no process starts and no run request is accepted
while the pipeline is being executed, at most one process executes it. -/
theorem mutual_exclusion_of_no_run_while_executing
    {w : World} {p : P} {s : Sys ι P}
    (h : Reach (Sys.step w) Sys.Started
      (fun s e => ¬ e.starts ∧ NoRunWhileExecuting p s e) s) :
    MutualExclusion p s := by
  have hinv : (s.view p).Exclusive := by
    refine h.invariant (I := fun s => (s.view p).Exclusive)
      (fun s hs => exclusive_of_started hs p) ?_
    intro s e s' hs hallow hstep
    obtain ⟨hspawn, hrun⟩ := hallow
    refine hs.step (step_view hstep p) ?_ ?_
    · intro i hi
      obtain rfl := (view_eq_spawn_iff p e i).mp hi
      exact hspawn trivial
    · intro he hacc i a hi
      obtain rfl := (view_eq_run_iff p e).mp he
      exact hrun rfl hacc i ((executing_iff_position p _).mpr ⟨a, hi⟩)
  intro i j hi hj
  obtain ⟨a, ha⟩ := (executing_iff_position p _).mp hi
  obtain ⟨b, hb⟩ := (executing_iff_position p _).mp hj
  exact hinv.unique i j a b ha hb

/-- One runner executes the pipeline while a second one polls. -/
theorem mutual_exclusion_second_runner_polls :
    ∃ s : Sys (Fin 2) Unit, (s.procs 0).pc.executing () ∧ MutualExclusion () s := by
  have hrun : ∃ s : Sys (Fin 2) Unit,
      Reach (Sys.step World.plain) Sys.Started
        (fun s e => ¬ e.starts ∧ NoRunWhileExecuting () s e) s ∧
      (s.procs 0).pc.executing () :=
    Reach.exists_of_replay (Sys.polling (Db.single (filmPipeline .full 2 .IDLE) []))
      [.run (), .runner 0 .ok, .runner 1 .ok, .runner 0 .ok, .runner 1 .ok]
      (fun _ => Or.inr rfl) (by decide)
  obtain ⟨s, hreach, h0⟩ := hrun
  exact ⟨s, h0, mutual_exclusion_of_no_run_while_executing hreach⟩

/-- A pause and a run request during the first execution let a second runner claim. -/
theorem two_runners_execute_after_pause_and_run :
    ¬ ∀ s : Sys (Fin 2) Unit,
        Reach (Sys.step World.plain) Sys.Started (fun _ e => e.undisturbed) s →
          MutualExclusion () s := by
  intro hall
  have hrun : ∃ s : Sys (Fin 2) Unit,
      Reach (Sys.step World.plain) Sys.Started (fun _ e => e.undisturbed) s ∧
      (s.procs 0).pc.executing () ∧ (s.procs 1).pc.executing () :=
    Reach.exists_of_replay (Sys.polling (Db.single (filmPipeline .full 2 .IDLE) []))
      [.run (), .runner 0 .ok, .runner 0 .ok, .pause (), .run (), .runner 1 .ok, .runner 1 .ok]
      (fun _ => Or.inr rfl) (by decide)
  obtain ⟨s, hreach, h0, h1⟩ := hrun
  exact absurd (hall s hreach 0 1 h0 h1) (by decide)

end MutualExclusion

end EtlPlatform
