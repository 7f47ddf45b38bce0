import EtlPlatform.Model.Errors
import Mathlib.Data.List.Sort

/-!
# Pipelines, tasks and their snapshots

The rows of `etl.etl_pipelines` and `etl.etl_pipeline_tasks` as the runner reads
them, the frozen snapshot a dispatch works on, and the checks made on a
snapshot before it runs: the target allowlist, the identifier test and the
tasks plan.
-/

namespace EtlPlatform

inductive PipelineStatus where
  | IDLE
  | RUN_REQUESTED
  | RUNNING
  | PAUSE_REQUESTED
  | PAUSED
  | FAILED
deriving DecidableEq

inductive RunStatus where
  | RUNNING
  | SUCCESS
  | FAILED
deriving DecidableEq

/-- `etl_pipelines_type_check` -/
inductive PipelineType where
  | SQL
  | PYTHON
  | ES
deriving DecidableEq

/-- `etl_pipelines_mode_check` -/
inductive PipelineMode where
  | full
  | incremental
deriving DecidableEq

/-! ## Targets -/

def ALLOWED_TARGET_TABLES : List String :=
  ["analytics.film_dim", "analytics.film_rating_agg"]

def ES_TARGET_PREFIX : String :=
  "es:"

def ALLOWED_ES_INDEXES : List String :=
  ["film_dim", "film_rating_agg"]

/-- `is_allowed_target(target)` -/
def is_allowed_target (target : String) : Bool :=
  let target := PyText.strip target
  if target ∈ ALLOWED_TARGET_TABLES then true
  else if PyText.startswith target ES_TARGET_PREFIX then
    let idx := PyText.strip (PyText.removeprefix target ES_TARGET_PREFIX)
    idx ≠ "" && idx ∈ ALLOWED_ES_INDEXES
  else false

/-! ## Identifiers -/

def isIdentHead (c : Char) : Bool :=
  ('A'.toNat ≤ c.toNat && c.toNat ≤ 'Z'.toNat) ||
    ('a'.toNat ≤ c.toNat && c.toNat ≤ 'z'.toNat) || c == '_'

def isIdentTail (c : Char) : Bool :=
  isIdentHead c || ('0'.toNat ≤ c.toNat && c.toNat ≤ '9'.toNat)

/-- `_IDENT_RE.fullmatch(n)` -/
def matchesIdent (n : String) : Bool :=
  match n.toList with
  | [] => false
  | c :: cs => isIdentHead c && cs.all isIdentTail

/-- `validate_sql_ident(name, what=what)` -/
def validate_sql_ident (name what : String) : Except Exc String :=
  let n := PyText.strip name
  if matchesIdent n then .ok n
  else .error (valueError ("Invalid " ++ what ++ ": '" ++ n ++ "'. " ++
    "Expected SQL identifier (column alias), e.g. 'updated_at'"))

/-- The column an unquoted identifier names: the server folds it to lower case. -/
def foldIdent (name : String) : String :=
  String.ofList (name.toList.map Char.toLower)

/-! ## Rows and snapshots -/

/-- A row of `etl.etl_pipelines`. -/
structure EtlPipeline where
  id : String
  name : String
  description : Option String
  type : PipelineType
  mode : PipelineMode
  enabled : Bool
  batch_size : ℕ
  source_query : Option String
  python_module : Option String
  target_table : String
  incremental_key : Option String
  incremental_id_key : Option String
  status : PipelineStatus
deriving DecidableEq

structure TaskSnapshot where
  order_index : ℤ
  task_type : String
  body : String
  target_table : Option String
deriving DecidableEq

structure PipelineSnapshot where
  id : String
  name : String
  type : PipelineType
  mode : PipelineMode
  enabled : Bool
  batch_size : ℕ
  source_query : Option String
  python_module : Option String
  target_table : String
  incremental_key : Option String
  incremental_id_key : Option String
  description : Option String
  tasks : List TaskSnapshot
deriving DecidableEq

/-- `int(p.batch_size or 1000)` -/
def batchSizeOr (n : ℕ) : ℕ :=
  if n = 0 then 1000 else n

theorem batchSizeOr_pos
    (n : ℕ) :
    0 < batchSizeOr n := by
  unfold batchSizeOr
  split_ifs <;> omega

/-- `snapshot_pipeline(p)` -/
def snapshot_pipeline (p : EtlPipeline) : PipelineSnapshot where
  id := p.id
  name := p.name
  type := p.type
  mode := p.mode
  enabled := p.enabled
  batch_size := batchSizeOr p.batch_size
  source_query := p.source_query
  python_module := p.python_module
  target_table := p.target_table
  incremental_key := p.incremental_key
  incremental_id_key := p.incremental_id_key
  description := p.description
  tasks := []

/-- `snapshot_pipeline_with_tasks(session, p)`, once the tasks query has answered. -/
def snapshot_pipeline_with_tasks
    (base : PipelineSnapshot) (tasks : List TaskSnapshot) : PipelineSnapshot :=
  { base with tasks := tasks.insertionSort (fun t t' => t.order_index ≤ t'.order_index) }

/-- `t or p.target_table` for an optional target `t`. -/
def targetOr (t : Option String) (fallback : String) : String :=
  match t with
  | none => fallback
  | some s => if s = "" then fallback else s

/-! ## The tasks plan -/

/-- Where a task stands, as the error texts print it. -/
def taskPlace (pid : String) (t : TaskSnapshot) : String :=
  "(pipeline=" ++ pid ++ " order_index=" ++ toString t.order_index ++ ")"

/-- The loop over the sorted tasks in `validate_tasks_v1`. -/
def checkTasks (pid : String) (seen : List ℤ) : List TaskSnapshot → Except Exc Unit
  | [] => .ok ()
  | t :: rest =>
      if t.order_index ∈ seen then
        .error (valueError ("Duplicate task order_index=" ++ toString t.order_index ++
          " in pipeline=" ++ pid))
      else if PyText.strip t.task_type = "" then
        .error (valueError ("Task task_type is empty " ++ taskPlace pid t))
      else if PyText.strip t.body = "" then
        .error (valueError ("Task body is empty " ++ taskPlace pid t))
      else checkTasks pid (t.order_index :: seen) rest

/-- `validate_tasks_v1(p)` -/
def validate_tasks_v1 (p : PipelineSnapshot) : Except Exc PipelineSnapshot :=
  let tasks_sorted := p.tasks.insertionSort (fun t t' => t.order_index ≤ t'.order_index)
  match tasks_sorted with
  | [] => .ok p
  | first :: rest => do
      checkTasks p.id [] tasks_sorted
      if first.task_type ≠ "SQL" then
        throw (valueError "Tasks v1 require first task_type='SQL' (single reader)")
      if rest.any (fun t => t.task_type ≠ "PYTHON") then
        throw (valueError "Tasks v1 allow only PYTHON after first SQL task")
      if let some t := tasks_sorted.dropLast.find? (fun t => t.target_table.isSome) then
        throw (valueError
          ("Tasks v1: target_table override is allowed only on the last task " ++
            taskPlace p.id t))
      let final_target :=
        targetOr ((rest.getLast?).getD first).target_table p.target_table
      if !is_allowed_target final_target then
        throw (valueError ("Target not allowed: '" ++ final_target ++ "' (pipeline=" ++
          p.id ++ ")"))
      return { p with tasks := tasks_sorted }

end EtlPlatform
