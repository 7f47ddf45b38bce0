import EtlPlatform.Proofs.DispatchFlow
import EtlPlatform.Proofs.RequestLedger
import Mathlib.Algebra.BigOperators.Group.Finset.Basic
import Mathlib.Data.Fintype.BigOperators

/-!
# How many runs a request can cost

Every row of `etl_runs` is opened by an attempt of a dispatch, a dispatch makes
at most `max_attempts` attempts, and there is a dispatch for a claim only.  With
the accounts of the requests this bounds the run rows of a pipeline by the
requests for it, over every run of the platform.

The potential of a process is the number of rows its dispatch may still open.
-/

namespace EtlPlatform

open Library

section Stages

variable {P : Type}

/-- Run rows a dispatch may still open. -/
def Stage.openings (w : World) : Stage P → ℕ
  | .snapshot => w.max_attempts
  | .startRun k => w.max_attempts + 1 - k
  | .runBody k _ | .loop k _ _ _ | .finishSuccess k _ _ _ | .getStatus k _ | .finishIdle k _
  | .rollback k _ _ | .finishFailed k _ _ | .sleep k _ => w.max_attempts - k
  | .failIfActive _ | .returning _ => 0

/-- The attempt that begins next is one of the attempts. -/
def Stage.InBudget (w : World) : Stage P → Prop
  | .startRun k => k ≤ w.max_attempts
  | .sleep k _ => k < w.max_attempts
  | _ => True

/-- `1` at the statement that opens a run row. -/
def Stage.opening : Stage P → ℕ
  | .startRun _ => 1
  | _ => 0

theorem openings_of_handles
    {w : World} {k : ℕ} {st : Stage P} (h : Handles w k st) :
    st.openings w ≤ w.max_attempts - k ∧ st.InBudget w ∧ st.opening = 0 := by
  cases h with
  | leaves res =>
      exact ⟨Nat.zero_le _, trivial, rfl⟩
  | waits delay hlt =>
      exact ⟨le_rfl, hlt, rfl⟩
  | givesUp exc =>
      exact ⟨Nat.zero_le _, trivial, rfl⟩

theorem openings_of_tries
    {w : World} {st : Stage P} {k r : ℕ} (h : st.tries = some (k, r)) :
    st.openings w = w.max_attempts - k ∧ st.opening = 0 := by
  cases st <;> simp_all [Stage.tries, Stage.openings, Stage.opening]

theorem openings_of_attempt
    {w : World} {st : Stage P} {k : ℕ} (h : st.attempt = some k) (hin : st.InBudget w) :
    w.max_attempts - k + st.opening ≤ st.openings w := by
  cases st with
  | startRun j =>
      obtain rfl := Option.some.inj h
      have hj : j ≤ w.max_attempts := hin
      simp only [Stage.opening, Stage.openings]
      omega
  | _ =>
      simp_all [Stage.attempt, Stage.opening, Stage.openings]

variable [DecidableEq P]

/-- **One edge of a dispatch** pays for the row it opens out of the budget. -/
theorem openings_of_edge
    {w : World} {store : Store P} {p : P} {snap : PipelineSnapshot} {st st' : Stage P}
    (h : StageEdge w store p snap st st') (hin : st.InBudget w) :
    st.opening + st'.openings w ≤ st.openings w ∧ st'.InBudget w := by
  cases h with
  | begins hmax =>
      refine ⟨?_, hmax⟩
      simp only [Stage.opening, Stage.openings]
      omega
  | opens k r =>
      have hk : k ≤ w.max_attempts := hin
      refine ⟨?_, trivial⟩
      simp only [Stage.opening, Stage.openings]
      omega
  | settles hst =>
      refine ⟨?_, trivial⟩
      rcases hst with rfl | rfl <;> simp [Stage.opening, Stage.openings]
  | fails exc htries =>
      refine ⟨?_, trivial⟩
      rw [(openings_of_tries (w := w) htries).1, (openings_of_tries (w := w) htries).2]
      simp [Stage.openings]
  | handled hattempt hhandles =>
      obtain ⟨hle, hin', -⟩ := openings_of_handles hhandles
      have hhave := openings_of_attempt hattempt hin
      exact ⟨by omega, hin'⟩
  | @retries k delay =>
      have hk : k < w.max_attempts := hin
      refine ⟨?_, hk⟩
      simp only [Stage.opening, Stage.openings]
      omega
  | _ =>
      exact ⟨by simp [Stage.opening, Stage.openings], trivial⟩

end Stages

/-! ## The rows of a pipeline -/

section Rows

variable {P : Type}

/-- The pipelines of the run rows, in order. -/
def Db.runOwners (db : Db P) : List P :=
  db.runs.map EtlRun.pipeline_id

theorem runOwners_modify
    {db db' : Db P} {r : ℕ} {f : EtlRun P → EtlRun P}
    (h : db'.runs = db.runs.modify r f) (hf : ∀ row, (f row).pipeline_id = row.pipeline_id) :
    db'.runOwners = db.runOwners := by
  have hmap : ∀ (rows : List (EtlRun P)) (r : ℕ),
      (rows.modify r f).map EtlRun.pipeline_id = rows.map EtlRun.pipeline_id := by
    intro rows
    induction rows with
    | nil =>
        intro r
        simp
    | cons row rows ih =>
        intro r
        cases r with
        | zero =>
            simp [hf]
        | succ r =>
            simp [ih r]
  rw [Db.runOwners, h, hmap]
  rfl

theorem answer_db
    {c : Choice} {kept done : Db P × List (Write P)} {next : Stage P} {onExc : Exc → Stage P}
    {a : After P} (h : answer c kept done next onExc = some a) :
    a.db = if c.commits then done.1 else kept.1 := by
  rcases answer_cases h with ⟨rfl, rfl⟩ | ⟨exc, rfl, rfl⟩ | ⟨rfl, rfl⟩ <;>
    simp [Choice.commits]

/-- A statement that opens no run. -/
theorem answer_owners
    {c : Choice} {kept done : Db P × List (Write P)} {next : Stage P} {onExc : Exc → Stage P}
    {a : After P} (h : answer c kept done next onExc = some a)
    (hdone : done.1.runOwners = kept.1.runOwners) :
    a.db.runOwners = kept.1.runOwners := by
  rw [answer_db h]
  split_ifs
  · exact hdone
  · rfl

variable [DecidableEq P]

theorem answerUpdate_owners
    {c : Choice} {kept : Db P × List (Write P)} {p : P} {allowed : List PipelineStatus}
    {new : PipelineStatus} {next : Stage P} {onExc : Exc → Stage P} {a : After P}
    (h : answerUpdate c kept p allowed (Db.updateStatus allowed new) next onExc = some a) :
    a.db.runOwners = kept.1.runOwners := by
  unfold answerUpdate at h
  split_ifs at h
  · refine answer_owners h ?_
    exact congrArg (List.map EtlRun.pipeline_id) (Db.runs_updateStatus allowed new kept.1 p)
  · exact answer_owners h rfl

theorem loopStep_owners
    {w : World} {kept : Db P × List (Write P)} {p : P} {k r : ℕ} {bl : BatchLoop P}
    {pc : LoopPc} {c : Choice} {a : After P}
    (h : loopStep w kept p k r bl pc c = some a) :
    a.db.runOwners = kept.1.runOwners := by
  cases pc with
  | write v rows res =>
      rcases loopStep_write_cases h with ⟨-, h⟩ | ⟨exc, -, -, h⟩ | ⟨items, -, -, h⟩
      · exact answer_owners h rfl
      · exact answer_owners h rfl
      · rcases writeStep_cases h with ⟨-, hans⟩ | ⟨-, hans | ⟨applied, exc, -, rfl⟩⟩
        · exact answer_owners hans rfl
        · exact answer_owners hans rfl
        · rfl
  | advance v rows left n =>
      rcases loopStep_advance_cases h with ⟨exc, -, h⟩ | ⟨v', ws, -, h⟩ <;>
        exact answer_owners h rfl
  | pauseApply v =>
      exact answerUpdate_owners h
  | _ =>
      exact answer_owners h rfl

/-- **The run rows a step of a dispatch opens.** -/
theorem stageStep_owners
    {w : World} {kept : Db P × List (Write P)} {p : P} {snap : PipelineSnapshot}
    {st : Stage P} {c : Choice} {a : After P}
    (h : stageStep w kept p snap st c = some a) :
    a.db.runOwners = kept.1.runOwners ∨
      (st.opening = 1 ∧ a.db.runOwners = kept.1.runOwners ++ [p]) := by
  cases st with
  | startRun k =>
      rw [answer_db h]
      split_ifs
      · exact Or.inr ⟨rfl, by simp [Db.runOwners, Db.start_run, Db.commit]⟩
      · exact Or.inl rfl
  | loop k r bl pc =>
      exact Or.inl (loopStep_owners h)
  | finishSuccess k r exit v =>
      exact Or.inl (answer_owners h (runOwners_modify rfl (fun _ => rfl)))
  | finishIdle k exit =>
      exact Or.inl (answerUpdate_owners h)
  | rollback k r exc =>
      have hans : answer c (kept.1, []) (kept.1, []) (.finishFailed k r exc)
          (onDispatchExc w k) = some a := h
      have howners := answer_owners hans rfl
      exact Or.inl howners
  | finishFailed k r exc =>
      exact Or.inl (answer_owners h (runOwners_modify rfl (fun _ => rfl)))
  | sleep k delay =>
      cases c with
      | ok =>
          obtain rfl := Option.some.inj h
          exact Or.inl rfl
      | _ =>
          cases h
  | failIfActive exc =>
      exact Or.inl (answerUpdate_owners h)
  | returning res =>
      cases h
  | _ =>
      exact Or.inl (answer_owners h rfl)

/-- Rows of `etl_runs` for a pipeline. -/
def Db.countRuns (db : Db P) (p : P) : ℕ :=
  db.runOwners.count p

/-- Run rows of `p` a process may still open without another claim. -/
def Pc.openings (w : World) (p : P) : Pc P → ℕ
  | .dispatch q _ st _ => if q = p then st.openings w else 0
  | _ => 0

/-- The attempt that begins next in a process is one of the attempts. -/
def Pc.InBudget (w : World) : Pc P → Prop
  | .dispatch _ _ st _ => st.InBudget w
  | _ => True

theorem openings_of_tick
    {pr : Proc P} {todo : List (P × PipelineStatus)}
    (h : pr = ⟨.polling, []⟩ ∨ pr = ⟨.tick todo, []⟩) (w : World) (p : P) :
    pr.pc.openings w p = 0 ∧ pr.pc.InBudget w := by
  rcases h with rfl | rfl <;> exact ⟨rfl, trivial⟩

/-- What a process may still open, with what it opens, is paid for by its claims. -/
structure PaysForRuns (w : World) (p : P) (db : Db P) (pr : Proc P) (c : Choice)
    (db' : Db P) (pr' : Proc P) : Prop where
  pays : db'.countRuns p + pr'.pc.openings w p ≤
    db.countRuns p + pr.pc.openings w p +
      if c.commits ∧ pr.pc.statement p = some .claim_run_requested ∧
        db.status p = .RUN_REQUESTED then w.max_attempts else 0
  inBudget : pr'.pc.InBudget w

/-- A step that leaves the run rows alone and has no dispatch after it. -/
theorem PaysForRuns.of_quiet
    {w : World} {p : P} {db db' : Db P} {pr pr' : Proc P} {c : Choice}
    (howners : db'.runOwners = db.runOwners)
    (hpr : pr'.pc.openings w p = 0 ∧ pr'.pc.InBudget w) :
    PaysForRuns w p db pr c db' pr' := by
  refine ⟨?_, hpr.2⟩
  rw [Db.countRuns, Db.countRuns, howners, hpr.1]
  omega

theorem runOwners_updateStatus
    (allowed : List PipelineStatus) (new : PipelineStatus) (db : Db P) (p : P) :
    (db.updateStatus allowed new p).runOwners = db.runOwners :=
  congrArg (List.map EtlRun.pipeline_id) (Db.runs_updateStatus allowed new db p)

theorem runOwners_recovered
    (db : Db P) (ids : List P) :
    ((db.recover_running_failed_bulk ids).mark_run_requested_bulk ids).runOwners =
      db.runOwners := by
  simp only [Db.runOwners, Db.mark_run_requested_bulk, Db.recover_running_failed_bulk,
    List.map_map]
  refine List.map_congr_left (fun row _ => ?_)
  simp only [Function.comp_apply]
  split_ifs <;> rfl

/-- **One step of a process** pays for the run rows it opens. -/
theorem procStep_pays
    {w : World} {db db' : Db P} {pr pr' : Proc P} {c : Choice} (p : P)
    (h : procStep w db pr c = some (db', pr')) (hin : pr.pc.InBudget w) :
    PaysForRuns w p db pr c db' pr' := by
  cases procStep_effect h with
  | listed =>
      refine .of_quiet rfl ?_
      by_cases hnil : db.list_stuck_running_ids = [] <;>
        simp [hnil, Pc.openings, Pc.InBudget]
  | recovered hpc =>
      refine .of_quiet (runOwners_recovered db _) ?_
      rcases hpc with ⟨-, rfl⟩ | ⟨-, rfl⟩ <;> exact ⟨rfl, trivial⟩
  | offered hdb hpr =>
      refine .of_quiet ?_ (openings_of_tick hpr w p)
      rcases hdb with rfl | rfl
      · rfl
      · exact runOwners_updateStatus _ _ db _
  | unclaimed hdb hpr =>
      refine .of_quiet ?_ (openings_of_tick hpr w p)
      rcases hdb with rfl | rfl
      · rfl
      · exact runOwners_updateStatus _ _ db _
  | @claimed q todo ws hreq =>
      refine ⟨?_, trivial⟩
      rw [Db.countRuns, Db.countRuns, Db.claim_run_requested, runOwners_updateStatus]
      by_cases hq : q = p
      · subst hq
        simp [Pc.openings, Pc.statement, Stage.openings, Choice.commits, hreq]
      · simp [Pc.openings, hq]
  | returned hpr =>
      exact .of_quiet rfl (openings_of_tick hpr w p)
  | @stepped q snap st todo ws c a hst =>
      obtain ⟨hpays, hin'⟩ := openings_of_edge (stageStep_edge hst) hin
      refine ⟨?_, hin'⟩
      have hclaim : (Pc.dispatch q snap st todo).statement p ≠ some .claim_run_requested := by
        by_cases hq : q = p
        · simpa [Pc.statement, hq] using st.statement_ne_claim
        · simp [Pc.statement, hq]
      rw [if_neg (fun h => hclaim h.2.1), Nat.add_zero]
      rcases stageStep_owners hst with howners | ⟨hopen, howners⟩
      · by_cases hq : q = p
        · simp only [Pc.openings, hq, if_true, Db.countRuns, howners]
          omega
        · simp [Pc.openings, hq, Db.countRuns, howners]
      · by_cases hq : q = p
        · subst hq
          simp only [Pc.openings, if_true, Db.countRuns, howners, List.count_append,
            List.count_singleton_self]
          omega
        · simp [Pc.openings, hq, Db.countRuns, howners]
  | _ =>
      exact .of_quiet rfl ⟨rfl, trivial⟩

end Rows

/-! ## The platform -/

section Platform

variable {ι P : Type} [DecidableEq ι] [DecidableEq P] [Fintype ι]

/-- Run rows of `p` the processes may still open without another claim. -/
def Sys.openings (w : World) (p : P) (s : Sys ι P) : ℕ :=
  ∑ i, (s.procs i).pc.openings w p

omit [DecidableEq P] in
/-- A sum over the processes when one of them moves. -/
theorem sum_update_add
    (f : Proc P → ℕ) (procs : ι → Proc P) (i : ι) (pr : Proc P) :
    ∑ j, f (Function.update procs i pr j) + f (procs i) = ∑ j, f (procs j) + f pr := by
  have hcomp : (fun j => f (Function.update procs i pr j)) =
      Function.update (fun j => f (procs j)) i (f pr) := by
    funext j
    by_cases hj : j = i
    · subst hj
      simp
    · simp [hj]
  rw [hcomp, Finset.sum_update_of_mem (Finset.mem_univ i),
    ← Finset.add_sum_erase Finset.univ (fun j => f (procs j)) (Finset.mem_univ i),
    Finset.sdiff_singleton_eq_erase]
  omega

/-- The attempts that begin next are attempts. -/
def Sys.InBudget (w : World) (s : Sys ι P) : Prop :=
  ∀ i, (s.procs i).pc.InBudget w

omit [DecidableEq P] [Fintype ι] in
theorem Sys.InBudget.update
    {w : World} {s : Sys ι P} {db : Db P} {i : ι} {pr : Proc P}
    (h : s.InBudget w) (hpr : pr.pc.InBudget w) :
    ({ db := db, procs := Function.update s.procs i pr } : Sys ι P).InBudget w :=
  (Function.forall_update_iff s.procs fun _ pr => pr.pc.InBudget w).mpr
    ⟨hpr, fun j _ => h j⟩

/-- A process that starts or dies opens no run, and may open none. -/
theorem openings_setProc_le
    (w : World) (s : Sys ι P) (i : ι) {pr : Proc P} {p : P} (hpr : pr.pc.openings w p = 0) :
    (s.setProc i pr).openings w p ≤ s.openings w p := by
  have hsum := sum_update_add (fun pr => pr.pc.openings w p) s.procs i pr
  simp only [hpr] at hsum
  simp only [Sys.openings, Sys.setProc]
  omega

/-- **One event** pays for the run rows it opens. -/
theorem step_pays_for_runs
    {w : World} {s s' : Sys ι P} {e : Event ι P} (p : P)
    (hin : s.InBudget w) (h : s.step w e = some s') :
    s'.db.countRuns p + s'.openings w p ≤
        s.db.countRuns p + s.openings w p +
          w.max_attempts * accepted p .claim_run_requested s e ∧
      s'.InBudget w := by
  cases e with
  | run q =>
      obtain rfl := Option.some.inj h
      refine ⟨?_, hin⟩
      simp only [Db.run_pipeline_eq, Db.countRuns, Db.request_run, runOwners_updateStatus]
      exact Nat.le_add_right _ _
  | pause q =>
      obtain rfl := Option.some.inj h
      refine ⟨?_, hin⟩
      simp only [Db.pause_pipeline_eq, Db.countRuns, Db.request_pause, runOwners_updateStatus]
      exact Nat.le_add_right _ _
  | patch q row =>
      obtain rfl := Option.some.inj h
      exact ⟨Nat.le_add_right _ _, hin⟩
  | source src =>
      obtain rfl := Option.some.inj h
      exact ⟨Nat.le_add_right _ _, hin⟩
  | kill i =>
      obtain rfl := Option.some.inj h
      refine ⟨?_, hin.update trivial⟩
      have hnone : (⟨.down, []⟩ : Proc P).pc.openings w p = 0 := rfl
      have hle := openings_setProc_le w s i hnone
      simp only [Sys.setProc_db]
      omega
  | spawn i =>
      obtain ⟨-, rfl⟩ := Sys.step_spawn_iff.mp h
      refine ⟨?_, hin.update trivial⟩
      have hnone : (⟨.recovery, []⟩ : Proc P).pc.openings w p = 0 := rfl
      have hle := openings_setProc_le w s i hnone
      simp only [Sys.setProc_db]
      omega
  | runner i c =>
      obtain ⟨db, pr, hproc, rfl⟩ := Sys.step_runner_iff.mp h
      obtain ⟨hpays, hin'⟩ := procStep_pays p hproc (hin i)
      refine ⟨?_, hin.update hin'⟩
      have hsum := sum_update_add (fun pr => pr.pc.openings w p) s.procs i pr
      have hclaim : (if c.commits ∧ (s.procs i).pc.statement p = some .claim_run_requested ∧
            s.db.status p = .RUN_REQUESTED then w.max_attempts else 0) =
          w.max_attempts * accepted p .claim_run_requested s (.runner i c) := by
        simp only [accepted, moved, Sys.statement, StatusStatement.allowed_from,
          List.mem_singleton, and_self]
        by_cases hc : c.commits <;> simp [hc]
      rw [hclaim] at hpays
      simp only [Sys.openings] at hsum ⊢
      omega

omit [DecidableEq ι] in
/-- A process that has nothing claimed opens no run. -/
theorem openings_of_resting
    {w : World} {s : Sys ι P} (p : P) (h : s.Resting) :
    s.openings w p = 0 ∧ s.InBudget w := by
  have hnone : ∀ i, (s.procs i).pc.openings w p = 0 ∧ (s.procs i).pc.InBudget w := by
    intro i
    have hpc := (h i).1
    cases hcase : (s.procs i).pc with
    | dispatch q snap st todo =>
        rw [hcase] at hpc
        exact hpc.elim
    | _ =>
        exact ⟨rfl, trivial⟩
  exact ⟨Finset.sum_eq_zero (fun i _ => (hnone i).1), fun i => (hnone i).2⟩

/-- **No run without a request.**  From a state in which nothing is claimed, a run of any
length opens at most `max_attempts` rows in `etl_runs` for each run request accepted for the
pipeline, each re-queueing of it and the request that waits at the start. -/
theorem runs_bounded_by_requests
    {w : World} {s s' : Sys ι P} {es : List (Event ι P)} (p : P)
    (hrest : s.Resting) (h : exec (Sys.step w) s es = some s') :
    s'.db.countRuns p ≤ s.db.countRuns p +
      w.max_attempts * (holds p .RUN_REQUESTED s + timesAccepted w p .request_run s es +
        timesAccepted w p .mark_run_requested_bulk s es) := by
  obtain ⟨hzero, hin⟩ := openings_of_resting (w := w) p hrest
  have hkept := (Path.of_exec h).with_invariant hin
    (fun _ _ _ hin _ hs => (step_pays_for_runs p hin hs).2)
  have hrows : s'.db.countRuns p + s'.openings w p ≤ s.db.countRuns p + s.openings w p +
      cost (Sys.step w) (fun s e => w.max_attempts * accepted p .claim_run_requested s e) s es :=
    hkept.income (fun _ _ _ hstay hs => (step_pays_for_runs p hstay.1 hs).1)
  have hclaims : timesAccepted w p .claim_run_requested s es ≤
      holds p .RUN_REQUESTED s + timesAccepted w p .request_run s es +
        timesAccepted w p .mark_run_requested_bulk s es := by
    have hbalance := (Path.of_exec h).balance (fun _ _ _ _ hs => run_requests_balance p hs)
    rw [cost_add, cost_add] at hbalance
    simp only [timesAccepted]
    omega
  have hpaid := Nat.mul_le_mul_left w.max_attempts hclaims
  rw [cost_mul] at hrows
  simp only [timesAccepted] at hpaid ⊢
  omega

end Platform

/-- A run is requested and opened, the runner dies, and its successor queues the pipeline
again and opens a second run. -/
def openedTwice : List (Event (Fin 1) Unit) :=
  [.run ()] ++ List.replicate 4 (.runner (Fin.last 0) .ok) ++
    [.kill (Fin.last 0), .spawn (Fin.last 0)] ++ List.replicate 6 (.runner (Fin.last 0) .ok)

theorem runs_bounded_by_requests_opened_twice :
    filmIdle.Resting ∧
      ∃ s', exec (Sys.step World.plain) filmIdle openedTwice = some s' ∧
        s'.db.countRuns () = 2 ∧
        s'.db.countRuns () ≤ filmIdle.db.countRuns () +
          World.plain.max_attempts * (holds () .RUN_REQUESTED filmIdle +
            timesAccepted World.plain () .request_run filmIdle openedTwice +
            timesAccepted World.plain () .mark_run_requested_bulk filmIdle openedTwice) := by
  have hrun : (exec (Sys.step World.plain) filmIdle openedTwice).any
      (fun s' => decide (s'.db.countRuns () = 2)) = true := by
    decide +kernel
  obtain ⟨s', hexec, hopened⟩ := (Option.any_eq_true _ _).mp hrun
  exact ⟨Sys.resting_polling _, s', hexec, of_decide_eq_true hopened,
    runs_bounded_by_requests () (Sys.resting_polling _) hexec⟩

end EtlPlatform
