import EtlPlatform.Model.Store

/-!
# The control tables and the statements on them

The rows of `etl_pipelines` and `etl_runs` with the statements the API and the
runner issue.  Every status change of the platform is one conditional update
`UPDATE etl_pipelines SET status = new WHERE id = :id AND status IN (...)`; the
repository methods differ in the statuses they start from and the one they set.
-/

namespace EtlPlatform

/-- A row of `etl.etl_runs`; its id is its position. -/
structure EtlRun (P : Type) where
  pipeline_id : P
  status : RunStatus
  rows_read : ℕ
  rows_written : ℕ
  error_message : Option String

/-- The `etl` schema, with the source and sink tables next to it. -/
structure Db (P : Type) where
  ids : List P
  /-- `id` is the primary key of `etl_pipelines` -/
  nodup : ids.Nodup
  complete : ∀ p, p ∈ ids
  pipelines : P → EtlPipeline
  tasks : P → List TaskSnapshot
  runs : List (EtlRun P)
  store : Store P

namespace Db

section Rows

variable {P : Type}

/-- The stored status of a pipeline. -/
def status (db : Db P) (p : P) : PipelineStatus :=
  (db.pipelines p).status

/-- `PipelinesRepo.get_active`: enabled pipelines with a request, by name, each with
the status that was read.  Names compare by code points; the collation of a `World` is
that of the source tables. -/
def get_active (db : Db P) : List (P × PipelineStatus) :=
  ((db.ids.filter (fun p =>
      (db.pipelines p).enabled &&
        (db.status p = .RUN_REQUESTED || db.status p = .PAUSE_REQUESTED))).insertionSort
    (fun p q => (db.pipelines p).name ≤ (db.pipelines q).name)).map
      (fun p => (p, db.status p))

/-- `PipelinesRepo.list_stuck_running_ids` -/
def list_stuck_running_ids (db : Db P) : List P :=
  db.ids.filter (fun p => db.status p = .RUNNING)

theorem mem_list_stuck_running_ids
    (db : Db P) (p : P) :
    p ∈ db.list_stuck_running_ids ↔ db.status p = .RUNNING := by
  simp [list_stuck_running_ids, db.complete p]

/-- The id `RunsRepo.start_run` gives to the next run. -/
def nextRun (db : Db P) : ℕ :=
  db.runs.length

/-- `RunsRepo.start_run` -/
def start_run (db : Db P) (p : P) : Db P :=
  { db with runs := db.runs ++
      [{ pipeline_id := p, status := .RUNNING, rows_read := 0, rows_written := 0,
         error_message := none }] }

/-- `RunsRepo.finish_success` -/
def finish_success (db : Db P) (run_id rows_read rows_written : ℕ) : Db P :=
  { db with runs := db.runs.modify run_id (fun r =>
      { r with status := .SUCCESS, rows_read := rows_read, rows_written := rows_written }) }

def MAX_ERR_LEN : ℕ := 1000

/-- `RunsRepo.finish_failed` -/
def finish_failed (db : Db P) (run_id : ℕ) (error_message : String) : Db P :=
  { db with runs := db.runs.modify run_id (fun r =>
      { r with
          status := .FAILED
          error_message := some (PyText.take MAX_ERR_LEN error_message) }) }

@[simp] theorem status_start_run
    (db : Db P) (p q : P) :
    (db.start_run p).status q = db.status q := by
  rfl

@[simp] theorem status_finish_success
    (db : Db P) (r n m : ℕ) (q : P) :
    (db.finish_success r n m).status q = db.status q := by
  rfl

@[simp] theorem status_finish_failed
    (db : Db P) (r : ℕ) (msg : String) (q : P) :
    (db.finish_failed r msg).status q = db.status q := by
  rfl

/-- Apply items to the sink at once, outside any session. -/
def applySink (db : Db P) (items : List Item) : Db P :=
  { db with store := { db.store with sink := applyItems db.store.sink items } }

@[simp] theorem status_applySink
    (db : Db P) (items : List Item) (p : P) :
    (db.applySink items).status p = db.status p := by
  rfl

end Rows

section Updates

variable {P : Type} [DecidableEq P]

/-- Overwrite one pipeline row. -/
def setPipeline (db : Db P) (p : P) (row : EtlPipeline) : Db P :=
  { db with pipelines := Function.update db.pipelines p row }

/-- Overwrite one status. -/
def setStatus (db : Db P) (p : P) (s : PipelineStatus) : Db P :=
  db.setPipeline p { db.pipelines p with status := s }

/-- `UPDATE ... SET status = new WHERE id = p AND status IN allowed` -/
def updateStatus (allowed : List PipelineStatus) (new : PipelineStatus)
    (db : Db P) (p : P) : Db P :=
  if db.status p ∈ allowed then db.setStatus p new else db

@[simp] theorem status_setStatus
    (db : Db P) (p q : P) (s : PipelineStatus) :
    (db.setStatus p s).status q = if q = p then s else db.status q := by
  by_cases h : q = p
  · subst h
    simp [status, setStatus, setPipeline]
  · simp [status, setStatus, setPipeline, h]

theorem status_updateStatus
    (allowed : List PipelineStatus) (new : PipelineStatus)
    (db : Db P) (p q : P) :
    (db.updateStatus allowed new p).status q =
      if q = p ∧ db.status p ∈ allowed then new else db.status q := by
  unfold updateStatus
  by_cases h : db.status p ∈ allowed <;> simp [h]

@[simp] theorem runs_updateStatus
    (allowed : List PipelineStatus) (new : PipelineStatus)
    (db : Db P) (p : P) :
    (db.updateStatus allowed new p).runs = db.runs := by
  unfold updateStatus
  split_ifs <;> rfl

@[simp] theorem store_updateStatus
    (allowed : List PipelineStatus) (new : PipelineStatus)
    (db : Db P) (p : P) :
    (db.updateStatus allowed new p).store = db.store := by
  unfold updateStatus
  split_ifs <;> rfl

/-- `SQLPipelinesRepository.request_run` -/
def request_run (db : Db P) (p : P) : Db P :=
  db.updateStatus [.IDLE, .PAUSED, .PAUSE_REQUESTED] .RUN_REQUESTED p

/-- `SQLPipelinesRepository.request_pause` -/
def request_pause (db : Db P) (p : P) : Db P :=
  db.updateStatus [.RUNNING, .RUN_REQUESTED, .IDLE] .PAUSE_REQUESTED p

/-- `PipelinesService.run_pipeline` -/
def run_pipeline (db : Db P) (p : P) : Db P :=
  if db.status p ∈ [PipelineStatus.RUNNING, .RUN_REQUESTED] then db else db.request_run p

/-- `PipelinesService.pause_pipeline` -/
def pause_pipeline (db : Db P) (p : P) : Db P :=
  if db.status p ∈ [PipelineStatus.PAUSED, .PAUSE_REQUESTED] then db else db.request_pause p

/-- The early return of the service changes nothing the update would not leave alone. -/
theorem run_pipeline_eq
    (db : Db P) (p : P) :
    db.run_pipeline p = db.request_run p := by
  unfold run_pipeline request_run updateStatus
  cases h : db.status p <;> simp

theorem pause_pipeline_eq
    (db : Db P) (p : P) :
    db.pause_pipeline p = db.request_pause p := by
  unfold pause_pipeline request_pause updateStatus
  cases h : db.status p <;> simp

@[simp] theorem store_run_pipeline
    (db : Db P) (p : P) :
    (db.run_pipeline p).store = db.store := by
  rw [run_pipeline_eq]
  exact store_updateStatus _ _ db p

@[simp] theorem store_pause_pipeline
    (db : Db P) (p : P) :
    (db.pause_pipeline p).store = db.store := by
  rw [pause_pipeline_eq]
  exact store_updateStatus _ _ db p

/-- A committed `PATCH`: the configuration columns of the row, not its id or status. -/
def patchConfig (db : Db P) (p : P) (row : EtlPipeline) : Db P :=
  db.setPipeline p { row with id := (db.pipelines p).id, status := db.status p }

@[simp] theorem status_patchConfig
    (db : Db P) (p q : P) (row : EtlPipeline) :
    (db.patchConfig p row).status q = db.status q := by
  by_cases h : q = p
  · subst h
    simp [status, patchConfig, setPipeline]
  · simp [status, patchConfig, setPipeline, h]

/-- `PipelinesRepo.claim_run_requested` -/
def claim_run_requested (db : Db P) (p : P) : Db P :=
  db.updateStatus [.RUN_REQUESTED] .RUNNING p

/-- `PipelinesRepo.apply_pause_requested` -/
def apply_pause_requested (db : Db P) (p : P) : Db P :=
  db.updateStatus [.PAUSE_REQUESTED] .PAUSED p

/-- `PipelinesRepo.finish_running_to_idle` -/
def finish_running_to_idle (db : Db P) (p : P) : Db P :=
  db.updateStatus [.RUNNING] .IDLE p

/-- `PipelinesRepo.fail_if_active` -/
def fail_if_active (db : Db P) (p : P) : Db P :=
  db.updateStatus [.RUNNING, .PAUSE_REQUESTED] .FAILED p

/-- `PipelinesRepo.mark_run_requested_bulk` -/
def mark_run_requested_bulk (db : Db P) (ids : List P) : Db P :=
  { db with pipelines := fun p =>
      if p ∈ ids ∧ db.status p = .RUNNING then
        { db.pipelines p with status := .RUN_REQUESTED }
      else db.pipelines p }

@[simp] theorem status_mark_run_requested_bulk
    (db : Db P) (ids : List P) (p : P) :
    (db.mark_run_requested_bulk ids).status p =
      if p ∈ ids ∧ db.status p = .RUNNING then .RUN_REQUESTED else db.status p := by
  by_cases h : p ∈ ids ∧ (db.pipelines p).status = .RUNNING <;>
    simp [status, mark_run_requested_bulk, h]

/-- `RunsRepo.recover_running_failed_bulk` -/
def recover_running_failed_bulk (db : Db P) (ids : List P) : Db P :=
  { db with runs := db.runs.map (fun r =>
      if r.pipeline_id ∈ ids ∧ r.status = .RUNNING then
        { r with
            status := .FAILED
            error_message := some "recovered: runner crashed while RUNNING" }
      else r) }

@[simp] theorem status_recover_running_failed_bulk
    (db : Db P) (ids : List P) (q : P) :
    (db.recover_running_failed_bulk ids).status q = db.status q := by
  rfl

/-- Commit a session's writes. -/
def commit (db : Db P) (ws : List (Write P)) : Db P :=
  { db with store := db.store.commit ws }

@[simp] theorem status_commit
    (db : Db P) (ws : List (Write P)) (p : P) :
    (db.commit ws).status p = db.status p := by
  rfl

end Updates

end Db

end EtlPlatform
