import EtlPlatform.Model.Deployment
import EtlPlatform.Model.Service

/-!
# `PATCH` requests in steps

A `PATCH` reads the row and checks it, reads it again in the same session, and
commits; requests, claims and other statements may come in between.  The second
read finds the row of the first one in the session and keeps its values, so the
flush compares the sent fields with what the first read has loaded.

The events of the platform go on next to any number of such requests, each in a
session of its own.
-/

namespace EtlPlatform

/-- What a body that is not valid is answered with. -/
def RequestValidationError (errors : ValidationErrors) : Exc :=
  { cls := .other, name := "RequestValidationError",
    msg := ", ".intercalate (errors.map Prod.snd) }

/-- Await points of one request. -/
inductive PatchRequest (P : Type) where
  | idle
  /-- `PipelinesService.update_pipeline`, before `get_pipeline` -/
  | reading (p : P) (update_data : PipelineUpdate)
  /-- status and merged record are checked; `SQLPipelinesRepository.update_pipeline`,
  before `get_pipeline` -/
  | checked (p : P) (update_data : PipelineUpdate) (pipeline : EtlPipeline)
  /-- the fields are assigned, before `session.commit()` -/
  | assigned (p : P) (update_data : PipelineUpdate) (pipeline : EtlPipeline)
  | answered (res : Except Exc Unit)

section Requests

variable {P : Type}

/-- `update_pipeline_endpoint`, up to the first statement. -/
def PatchRequest.received (p : P) (body : PipelineUpdate) : PatchRequest P :=
  match body.model_validate with
  | .error errors => .answered (.error (RequestValidationError errors))
  | .ok update_data =>
      if update_data = {} then .answered (.ok ()) else .reading p update_data

/-- The checks of `PipelinesService.update_pipeline` on the row it has read. -/
def PatchRequest.check (p : P) (update_data : PipelineUpdate) (pipeline : EtlPipeline) :
    PatchRequest P :=
  if pipeline.status = .RUNNING then .answered (.error cannotUpdateRunning)
  else
    match _validate_pipeline_config (mergedConfig pipeline update_data) with
    | .error exc => .answered (.error exc)
    | .ok _ => .checked p update_data pipeline

variable [DecidableEq P]

/-- Flush and commit of the loaded row with the sent fields. -/
def Db.commit_update (db : Db P) (p : P) (update_data : PipelineUpdate)
    (pipeline : EtlPipeline) : Except Exc (Db P) := do
  let row ← flush pipeline update_data (db.pipelines p)
  if db.ids.any (fun q => q ≠ p && (db.pipelines q).name = row.name) then
    throw duplicateName
  return db.setPipeline p row

/-- One statement of a request: what it leaves in the database and where it goes on. -/
def PatchRequest.step (db : Db P) (c : Choice) : PatchRequest P → Option (Db P × PatchRequest P)
  | .reading p update_data =>
      match c with
      | .ok => some (db, PatchRequest.check p update_data (db.pipelines p))
      | .raise exc => some (db, .answered (.error exc))
      | .lost => some (db, .answered (.error connectionLost))
      | .partialBulk _ _ => none
  | .checked p update_data pipeline =>
      match c with
      | .ok => some (db, .assigned p update_data pipeline)
      | .raise exc => some (db, .answered (.error exc))
      | .lost => some (db, .answered (.error connectionLost))
      | .partialBulk _ _ => none
  | .assigned p update_data pipeline =>
      match c, db.commit_update p update_data pipeline with
      | .ok, .ok db' => some (db', .answered (.ok ()))
      | .ok, .error exc => some (db, .answered (.error exc))
      | .raise exc, _ => some (db, .answered (.error exc))
      | .lost, .ok db' => some (db', .answered (.error connectionLost))
      | .lost, .error _ => some (db, .answered (.error connectionLost))
      | .partialBulk _ _, _ => none
  | .idle => none
  | .answered _ => none

/-- The pipeline a request is about, until it is answered. -/
def PatchRequest.pipeline : PatchRequest P → Option P
  | .reading p _ => some p
  | .checked p _ _ => some p
  | .assigned p _ _ => some p
  | .idle => none
  | .answered _ => none

end Requests

/-- The platform and the requests that are being handled. -/
structure ApiSys (κ ι P : Type) where
  sys : Sys ι P
  requests : κ → PatchRequest P

inductive ApiEvent (κ ι P : Type) where
  /-- an event of the platform other than a `PATCH` -/
  | platform (e : Event ι P)
  /-- `PATCH /pipelines/{p}` arrives -/
  | receive (k : κ) (p : P) (body : PipelineUpdate)
  /-- one step of a request, with the answer its statement gets -/
  | patch (k : κ) (c : Choice)

section Steps

variable {κ ι P : Type} [DecidableEq κ] [DecidableEq ι] [DecidableEq P]

/-- One event. -/
def ApiSys.step (w : World) (s : ApiSys κ ι P) : ApiEvent κ ι P → Option (ApiSys κ ι P)
  | .platform (.patch _ _) => none
  | .platform e => (s.sys.step w e).map (fun sys => { s with sys := sys })
  | .receive k p body =>
      match s.requests k with
      | .idle => some { s with requests := Function.update s.requests k (.received p body) }
      | _ => none
  | .patch k c =>
      ((s.requests k).step s.sys.db c).map (fun r =>
        { sys := { s.sys with db := r.1 }, requests := Function.update s.requests k r.2 })

/-- No request has arrived. -/
def ApiSys.Quiet (s : ApiSys κ ι P) : Prop :=
  ∀ k, s.requests k = .idle

end Steps

/-- One polling runner, and the film pipeline with both keys and no request. -/
def filmRequests (κ : Type) : ApiSys κ (Fin 1) Unit where
  sys := Sys.polling (Db.single
    { filmPipeline .full 2 .IDLE with incremental_id_key := some "film_id" } [])
  requests _ := .idle

end EtlPlatform
