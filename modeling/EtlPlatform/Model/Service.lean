import EtlPlatform.Model.Errors
import EtlPlatform.Model.Schemas

/-!
# Creating and updating pipelines

`PipelinesService.create_pipeline` and `update_pipeline` on the table
`etl.etl_pipelines`.  An update validates the merge of the row it read with the
fields that were sent, assigns these fields to the row it read, and flushes the
columns that changed by it; the database refuses `NULL` in a column that does
not allow it and a name that is taken.
-/

namespace EtlPlatform

/-! ## Errors -/

/-- A constraint of the table refuses a statement. -/
def integrityError (name msg : String) : Exc :=
  { cls := .dbapi false, name := "IntegrityError", msg := "(" ++ name ++ ") " ++ msg,
    orig := some (name, msg) }

def PipelineNotFoundError (msg : String) : Exc :=
  { cls := .other, name := "PipelineNotFoundError", msg := msg }

def PipelineIsRunningError (msg : String) : Exc :=
  { cls := .other, name := "PipelineIsRunningError", msg := msg }

def PipelineNameAlreadyExistsError (msg : String) : Exc :=
  { cls := .other, name := "PipelineNameAlreadyExistsError", msg := msg }

/-- What an update of a `RUNNING` pipeline is answered with. -/
def cannotUpdateRunning : Exc :=
  PipelineIsRunningError "Cannot update pipeline while it is RUNNING"

/-- What a statement is answered with that would store a name twice. -/
def duplicateName : Exc :=
  integrityError "UniqueViolationError"
    "duplicate key value violates unique constraint \"etl_pipelines_name_key\""

/-! ## The merged record -/

/-- The dictionary `final` of `update_pipeline`, as far as it is validated. -/
structure FinalConfig where
  type : Option PipelineType
  mode : Option PipelineMode
  incremental_key : Option String
  incremental_id_key : Option String
  python_module : Option String
deriving DecidableEq

/-- `{"type": pipeline.type, ..., **update_data}` -/
def mergedConfig (pipeline : EtlPipeline) (update_data : PipelineUpdate) : FinalConfig where
  type := update_data.type.getD (some pipeline.type)
  mode := update_data.mode.getD (some pipeline.mode)
  incremental_key := update_data.incremental_key.getD pipeline.incremental_key
  incremental_id_key := update_data.incremental_id_key.getD pipeline.incremental_id_key
  python_module := update_data.python_module.getD pipeline.python_module

/-- `_validate_pipeline_config(final)` -/
def _validate_pipeline_config (final : FinalConfig) : Except Exc Unit := do
  if final.mode = some .incremental then
    if !PyText.truthy final.incremental_key || !PyText.truthy final.incremental_id_key then
      throw (valueError "incremental mode requires incremental_key and incremental_id_key")
  if final.type = some .PYTHON then
    if !PyText.truthy final.python_module then
      throw (valueError "PYTHON pipelines require python_module")

/-! ## The flush -/

/-- A column after the flush: it is written if the field was sent with a value other than
the one that was read. -/
def flushed {α : Type} [DecidableEq α] (sent : Field α) (loaded stored : Option α) : Option α :=
  match sent with
  | none => stored
  | some v => if v = loaded then stored else v

/-- `nullable=False` -/
def notNull {α : Type} (column : String) : Option α → Except Exc α
  | some a => .ok a
  | none => .error (integrityError "NotNullViolationError"
      ("null value in column \"" ++ column ++ "\" of relation \"etl_pipelines\" violates " ++
        "not-null constraint"))

/-- The stored row after `setattr` of the sent fields on the loaded one and `flush`. -/
def flush (loaded : EtlPipeline) (data : PipelineUpdate) (stored : EtlPipeline) :
    Except Exc EtlPipeline := do
  let name ← notNull "name" (flushed data.name (some loaded.name) (some stored.name))
  let type ← notNull "type" (flushed data.type (some loaded.type) (some stored.type))
  let mode ← notNull "mode" (flushed data.mode (some loaded.mode) (some stored.mode))
  let enabled ←
    notNull "enabled" (flushed data.enabled (some loaded.enabled) (some stored.enabled))
  let target_table ← notNull "target_table"
    (flushed data.target_table (some loaded.target_table) (some stored.target_table))
  let batch_size ← notNull "batch_size"
    (flushed data.batch_size (some (loaded.batch_size : ℤ)) (some (stored.batch_size : ℤ)))
  return { stored with
    name := name
    description := flushed data.description loaded.description stored.description
    type := type
    mode := mode
    enabled := enabled
    target_table := target_table
    batch_size := batch_size.toNat
    source_query := flushed data.source_query loaded.source_query stored.source_query
    python_module := flushed data.python_module loaded.python_module stored.python_module
    incremental_key :=
      flushed data.incremental_key loaded.incremental_key stored.incremental_key
    incremental_id_key :=
      flushed data.incremental_id_key loaded.incremental_id_key stored.incremental_id_key }

/-! ## One request after the other -/

/-- The table `etl.etl_pipelines`. -/
abbrev PipelinesTable := List EtlPipeline

/-- `SQLPipelinesRepository.get_pipeline` -/
def get_pipeline (table : PipelinesTable) (pipeline_id : String) : Except Exc EtlPipeline :=
  match table.find? (fun row => row.id = pipeline_id) with
  | some row => .ok row
  | none => .error (PipelineNotFoundError ("Pipeline " ++ pipeline_id ++ " not found"))

/-- The row `SQLPipelinesRepository.create_pipeline` inserts under the id it draws. -/
def createdRow (id : String) (payload : PipelineCreate) : EtlPipeline where
  id := id
  name := payload.name
  description := payload.description
  type := payload.type
  mode := payload.mode
  enabled := payload.enabled
  batch_size := payload.batch_size.toNat
  source_query := some payload.source_query
  python_module := payload.python_module
  target_table := payload.target_table
  incremental_key := payload.incremental_key
  incremental_id_key := payload.incremental_id_key
  status := .IDLE

/-- `PipelinesService.create_pipeline` -/
def create_pipeline (table : PipelinesTable) (id : String) (payload : PipelineCreate) :
    Except Exc PipelinesTable := do
  if !is_allowed_target payload.target_table then
    throw (valueError ("target_table '" ++ payload.target_table ++ "' is not allowed"))
  if table.any (fun row => row.id = id || row.name = payload.name) then
    throw (PipelineNameAlreadyExistsError "A pipeline with this name already exists")
  return table ++ [createdRow id payload]

/-- `PipelinesService.update_pipeline`, with no other request in between. -/
def update_pipeline (table : PipelinesTable) (pipeline_id : String)
    (update_data : PipelineUpdate) : Except Exc PipelinesTable := do
  let pipeline ← get_pipeline table pipeline_id
  if pipeline.status = .RUNNING then
    throw cannotUpdateRunning
  _validate_pipeline_config (mergedConfig pipeline update_data)
  let updated ← flush pipeline update_data pipeline
  if table.any (fun row => row.id ≠ pipeline_id && row.name = updated.name) then
    throw duplicateName
  return table.map (fun row => if row.id = pipeline_id then updated else row)

/-- What happens to the table. -/
inductive TableEvent where
  /-- `POST /pipelines`, with the id that is drawn for it -/
  | post (id : String) (body : PipelineCreate)
  /-- `PATCH /pipelines/{pipeline_id}` -/
  | patch (pipeline_id : String) (body : PipelineUpdate)
  /-- somebody else moves a status -/
  | status (pipeline_id : String) (s : PipelineStatus)

/-- `create_pipeline_endpoint`: the table after the request, which is refused or inserts a row. -/
def create_pipeline_endpoint (table : PipelinesTable) (id : String) (body : PipelineCreate) :
    PipelinesTable :=
  match body.model_validate with
  | .error _ => table
  | .ok payload => (create_pipeline table id payload).toOption.getD table

/-- `update_pipeline_endpoint`: the table after the request.  A body without fields is
answered by the row as it is. -/
def update_pipeline_endpoint (table : PipelinesTable) (pipeline_id : String)
    (body : PipelineUpdate) : PipelinesTable :=
  match body.model_validate with
  | .error _ => table
  | .ok update_data =>
      if update_data = {} then table
      else (update_pipeline table pipeline_id update_data).toOption.getD table

/-- The table after an event. -/
def TableEvent.apply (table : PipelinesTable) : TableEvent → PipelinesTable
  | .post id body => create_pipeline_endpoint table id body
  | .patch pipeline_id body => update_pipeline_endpoint table pipeline_id body
  | .status pipeline_id s =>
      table.map (fun row => if row.id = pipeline_id then { row with status := s } else row)

/-- The events of a table, one at a time. -/
def PipelinesTable.step (table : PipelinesTable) (e : TableEvent) : Option PipelinesTable :=
  some (e.apply table)

end EtlPlatform
