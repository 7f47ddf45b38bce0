import EtlPlatform.Proofs.BatchMeaning
import EtlPlatform.Proofs.Configuration

/-!
# A run that is not disturbed

From its claim to its return a dispatch takes many statements.  When all of them
succeed, the pipeline stays as requested and its batches have a meaning, the
dispatch as a whole is one change of the database: the tables are those the
batches leave, the history has one more successful run, and the pipeline is idle.
-/

namespace EtlPlatform

section Runs

variable {P : Type} [DecidableEq P]

/-- The database after a run of `p` that has left the tables `st`. -/
def Db.completed (db : Db P) (p : P) (rows_read rows_written : ℕ) (st : Store P) : Db P :=
  { db.setStatus p .IDLE with
    runs := db.runs ++
      [{ pipeline_id := p, status := .SUCCESS, rows_read := rows_read,
         rows_written := rows_written, error_message := none }]
    store := st }

variable {w : World} {db : Db P} {p : P}

@[simp] theorem status_completed
    (db : Db P) (p q : P) (n m : ℕ) (st : Store P) :
    (db.completed p n m st).status q = if q = p then .IDLE else db.status q :=
  Db.status_setStatus db p q .IDLE

omit [DecidableEq P] in
/-- The row of a run that is still the last one, closed. -/
theorem finish_success_start_run
    (db : Db P) (p : P) (n m : ℕ) :
    (db.start_run p).finish_success db.nextRun n m =
      { db with runs := db.runs ++
          [{ pipeline_id := p, status := .SUCCESS, rows_read := n, rows_written := m,
             error_message := none }] } := by
  have hlast := List.modifyTailIdx_add (List.modifyHead fun row : EtlRun P =>
    { row with status := .SUCCESS, rows_read := n, rows_written := m }) 0 db.runs
    [{ pipeline_id := p, status := .RUNNING, rows_read := 0, rows_written := 0,
       error_message := none }]
  simp only [Db.finish_success, Db.start_run, Db.nextRun, List.modify]
  exact congrArg (fun runs => { db with runs := runs }) hlast

/-- The statements of a run on the control tables, one after the other. -/
theorem completed_eq
    (hreq : db.status p = .RUN_REQUESTED) (n m : ℕ) (st : Store P) :
    (({ (db.claim_run_requested p).start_run p with store := st } : Db P).finish_success
        (db.claim_run_requested p).nextRun n m).finish_running_to_idle p =
      db.completed p n m st := by
  have hclaim : db.claim_run_requested p = db.setStatus p .RUNNING := by
    simp [Db.claim_run_requested, Db.updateStatus, hreq]
  have hclosed :=
    finish_success_start_run ({ db.setStatus p .RUNNING with store := st } : Db P) p n m
  have hrunning : ∀ runs, ({ db.setStatus p .RUNNING with runs := runs, store := st } : Db P).status
      p ∈ [PipelineStatus.RUNNING] := by
    intro runs
    simp [Db.status, Db.setStatus, Db.setPipeline]
  rw [hclaim]
  refine (congrArg (Db.finish_running_to_idle · p) hclosed).trans ?_
  rw [Db.finish_running_to_idle, Db.updateStatus, if_pos (hrunning _)]
  simp [Db.completed, Db.setStatus, Db.setPipeline]

variable {bl : BatchLoop P} {v v' : LoopVars} {todo : List (P × PipelineStatus)}

/-- From the claim to the head of the loop. -/
theorem Leads.begin
    (hmax : 1 ≤ w.max_attempts) (hreq : db.status p = .RUN_REQUESTED)
    (hbody : _run_body w p (db.config p) = .ok bl) (hsetup : bl.setup db.store = .ok v) :
    Leads w (db, ⟨.tick ((p, .RUN_REQUESTED) :: todo), []⟩)
      ((db.claim_run_requested p).start_run p,
        ⟨.dispatch p (db.config p) (.loop 1 (db.claim_run_requested p).nextRun bl (.fetch v)) todo,
          []⟩) := by
  set db₁ := db.claim_run_requested p with hdb₁
  have hclaim : procStep w db ⟨.tick ((p, .RUN_REQUESTED) :: todo), []⟩ .ok =
      some (db₁, ⟨.dispatch p (snapshot_pipeline (db.pipelines p)) .snapshot todo, []⟩) := by
    simp [procStep, dispatchClaim, hreq, hdb₁]
  have hsame : SameConfig db db₁ := sameConfig_updateStatus _ _ db p
  have hsnapshot : procStep w db₁ ⟨.dispatch p (snapshot_pipeline (db.pipelines p)) .snapshot todo,
      []⟩ .ok = some (db₁, ⟨.dispatch p (db.config p) (.startRun 1) todo, []⟩) := by
    simp [procStep, stageStep, answerRead, answer, hmax, nextSnapshot, Db.config, hsame.1]
  have hstart : stageStep w (db₁, []) p (db.config p) (.startRun 1) .ok =
      some ⟨db₁.start_run p, [], .runBody 1 db₁.nextRun⟩ := rfl
  have hrun : stageStep w (db₁.start_run p, []) p (db.config p) (.runBody 1 db₁.nextRun) .ok =
      some ⟨db₁.start_run p, [], .loop 1 db₁.nextRun bl .setup⟩ := by
    simp [stageStep, answerRead, answer, stageOf, hbody]
  have hstore : (db₁.start_run p).store = db.store := Db.store_updateStatus _ _ db p
  have hbegin : loopStep w (db₁.start_run p, []) p 1 db₁.nextRun bl .setup .ok =
      some ⟨db₁.start_run p, [], .loop 1 db₁.nextRun bl (.fetch v)⟩ := by
    simp [loopStep, answerRead, answer, stageOf, hstore, hsetup]
  exact (Leads.step hclaim).trans ((Leads.step hsnapshot).trans ((Leads.stage hstart rfl).trans
    ((Leads.stage hrun rfl).trans (Leads.loop hbegin))))

/-- From the end of the loop to the next candidate. -/
theorem Leads.finish
    {snap : PipelineSnapshot} {r : ℕ} (hrunning : db.status p = .RUNNING) :
    Leads w (db, ⟨.dispatch p snap (.loop 1 r bl (.close .exhausted v')) todo, []⟩)
      ((db.finish_success r v'.total_read v'.total_written).finish_running_to_idle p,
        ⟨.tick todo, []⟩) := by
  set db₁ := db.finish_success r v'.total_read v'.total_written with hdb₁
  have hclose : loopStep w (db, []) p 1 r bl (.close .exhausted v') .ok =
      some ⟨db, [], .finishSuccess 1 r .exhausted v'⟩ := rfl
  have hsuccess : stageStep w (db, []) p snap (.finishSuccess 1 r .exhausted v') .ok =
      some ⟨db₁, [], .getStatus 1 .exhausted⟩ := rfl
  have hrunning₁ : db₁.status p = .RUNNING := by
    rw [hdb₁, Db.status_finish_success, hrunning]
  have hstatus : stageStep w (db₁, []) p snap (.getStatus 1 .exhausted) .ok =
      some ⟨db₁, [], .finishIdle 1 .exhausted⟩ := by
    simp [stageStep, answerRead, answer, hrunning₁]
  have hidle : stageStep w (db₁, []) p snap (.finishIdle 1 .exhausted) .ok =
      some ⟨db₁.finish_running_to_idle p, [], .returning (.ok ())⟩ := by
    simp only [stageStep, answerUpdate, hrunning₁, List.mem_singleton, if_true]
    rfl
  have hreturn : procStep w (db₁.finish_running_to_idle p)
      ⟨.dispatch p snap (.returning (.ok ())) todo, []⟩ .ok =
      some (db₁.finish_running_to_idle p, ⟨.tick todo, []⟩) := rfl
  exact (Leads.loop hclose).trans ((Leads.stage hsuccess rfl).trans ((Leads.stage hstatus rfl).trans
    ((Leads.stage hidle rfl).trans (Leads.step hreturn))))

/-- **A run is one change of the database.** -/
theorem Leads.completed
    {batches : List (List Row)} {written : List (List Item)} {st : Store P}
    (hmax : 1 ≤ w.max_attempts) (hreq : db.status p = .RUN_REQUESTED)
    (hbody : _run_body w p (db.config p) = .ok bl) (hsetup : bl.setup db.store = .ok v)
    (hruns : bl.Exhausts db.store v batches written st v') :
    Leads w (db, ⟨.tick ((p, .RUN_REQUESTED) :: todo), []⟩)
      (db.completed p v'.total_read v'.total_written st, ⟨.tick todo, []⟩) := by
  set db₁ := (db.claim_run_requested p).start_run p with hdb₁
  have hstore : db₁.store = db.store := Db.store_updateStatus _ _ db p
  have hrunning : ∀ st : Store P, ({ db₁ with store := st } : Db P).status p = .RUNNING := by
    intro st
    have hclaimed : (db.claim_run_requested p).status p = .RUNNING := by
      simp [Db.claim_run_requested, Db.status_updateStatus, hreq]
    exact hclaimed
  have hgoing : db₁.status p ≠ .PAUSE_REQUESTED := by
    have hnow : db₁.status p = .RUNNING := hrunning db₁.store
    rw [hnow]
    decide
  set r := (db.claim_run_requested p).nextRun with hr
  have hloop : Leads w
      (db₁, ⟨.dispatch p (db.config p) (.loop 1 r bl (.fetch v)) todo, []⟩)
      ({ db₁ with store := st },
        ⟨.dispatch p (db.config p) (.loop 1 r bl (.close .exhausted v')) todo, []⟩) :=
    Leads.exhausts (hstore.symm ▸ hruns) hgoing
  rw [← completed_eq hreq]
  exact (Leads.begin hmax hreq hbody hsetup).trans (hloop.trans (Leads.finish (hrunning st)))

end Runs

end EtlPlatform
