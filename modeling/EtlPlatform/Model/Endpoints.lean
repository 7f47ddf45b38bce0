import EtlPlatform.Model.Service

/-!
# The answer to a `PATCH`

`update_pipeline_endpoint` with what it answers: the updated pipeline, an error
of the API with its status code, or an exception that no handler takes.
-/

namespace EtlPlatform

open Library

/-- `PipelineOut` -/
structure PipelineOut where
  id : String
  name : String
  description : Option String
  type : PipelineType
  mode : PipelineMode
  enabled : Bool
  target_table : String
  batch_size : ℤ
  status : PipelineStatus
  python_module : Option String
  source_query : Option String
  incremental_key : Option String
  incremental_id_key : Option String
deriving DecidableEq

/-- `pydantic.ValidationError` -/
def validationError (errors : ValidationErrors) : Exc :=
  { cls := .other, name := "ValidationError",
    msg := String.intercalate "\n" (errors.map (fun e => e.1.getD "" ++ ": " ++ e.2)) }

/-- The response made of a row; the validators of the two fields it shares with the bodies
that are checked run again. -/
def PipelineOut.ofRow (row : EtlPipeline) (name : String) (batch_size : ℤ) : PipelineOut where
  id := row.id
  name := name
  description := row.description
  type := row.type
  mode := row.mode
  enabled := row.enabled
  target_table := row.target_table
  batch_size := batch_size
  status := row.status
  python_module := row.python_module
  source_query := row.source_query
  incremental_key := row.incremental_key
  incremental_id_key := row.incremental_id_key

/-- `PipelineOut.model_validate(pipeline)` -/
def PipelineOut.model_validate (row : EtlPipeline) : Except Exc PipelineOut :=
  let withName := collect (.ok (PipelineOut.ofRow row))
    (atField "name" (PipelineBase.validate_name row.name))
  let out := collect withName
    (atField "batch_size" (PipelineBase.validate_batch_size row.batch_size))
  match out with
  | .ok out => .ok out
  | .error errors => .error (validationError errors)

/-- What a request is answered with. -/
inductive Answer where
  /-- the response model, with the status code of success -/
  | returns (out : PipelineOut)
  /-- `HTTPException(status_code, detail)` -/
  | http (status_code : ℕ) (detail : String)
  /-- the body does not validate -/
  | unprocessable (errors : ValidationErrors)
  /-- an exception leaves the handler -/
  | raises (exc : Exc)
deriving DecidableEq

/-- `http_404(detail)` -/
def http_404 (detail : String) : Answer :=
  .http 404 detail

/-- `http_409(detail)` -/
def http_409 (detail : String) : Answer :=
  .http 409 detail

/-- `return PipelineOut.model_validate(pipeline)` -/
def returnPipeline (row : EtlPipeline) : Answer :=
  match PipelineOut.model_validate row with
  | .ok out => .returns out
  | .error exc => .raises exc

/-- `get_pipeline_or_404(service, pipeline_id)` -/
def get_pipeline_or_404 (table : PipelinesTable) (pipeline_id : String) : Answer :=
  match get_pipeline table pipeline_id with
  | .ok row => returnPipeline row
  | .error exc =>
      if exc.name = "PipelineNotFoundError" then http_404 "Pipeline not found" else .raises exc

/-- The `except` clauses of `update_pipeline_endpoint`. -/
def onUpdateExc (exc : Exc) : Answer :=
  if exc.name = "PipelineIsRunningError" then http_409 exc.msg
  else if exc.name = "PipelineNotFoundError" then http_404 "Pipeline not found"
  else .raises exc

namespace Api

/-- `update_pipeline_endpoint`: the table after the request, and its answer. -/
def update_pipeline_endpoint (table : PipelinesTable) (pipeline_id : String)
    (payload : PipelineUpdate) : PipelinesTable × Answer :=
  match payload.model_validate with
  | .error errors => (table, .unprocessable errors)
  | .ok update_data =>
      if update_data = {} then (table, get_pipeline_or_404 table pipeline_id)
      else
        match update_pipeline table pipeline_id update_data with
        | .error exc => (table, onUpdateExc exc)
        | .ok table' =>
            -- the row is refreshed after the commit
            match get_pipeline table' pipeline_id with
            | .ok row => (table', returnPipeline row)
            | .error exc => (table', onUpdateExc exc)

end Api

end EtlPlatform
