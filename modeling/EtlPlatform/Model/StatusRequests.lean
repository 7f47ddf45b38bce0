import EtlPlatform.Model.Endpoints
import EtlPlatform.Model.PatchRequests

/-!
# Run and pause requests in steps

`POST /run` and `POST /pause` read the pipeline, answer at once if there is
nothing to do, and otherwise commit one conditional update and read the row
again.  Any number of such requests, of `PATCH` requests and of runner
processes interleave between these statements.

The session of a request keeps the row it has loaded.  What an update that
matches no row leaves in this copy is up to the session, and a parameter here.
-/

namespace EtlPlatform

open Library

/-- The parts in which `run_pipeline` and `pause_pipeline` differ. -/
structure StatusService where
  /-- statuses that are answered without an update -/
  settled : List PipelineStatus
  allowed_from : List PipelineStatus
  requested : PipelineStatus
deriving DecidableEq

namespace PipelinesService

/-- `PipelinesService.run_pipeline` with `SQLPipelinesRepository.request_run` -/
def run_pipeline : StatusService where
  settled := [.RUNNING, .RUN_REQUESTED]
  allowed_from := [.IDLE, .PAUSED, .PAUSE_REQUESTED]
  requested := .RUN_REQUESTED

/-- `PipelinesService.pause_pipeline` with `SQLPipelinesRepository.request_pause` -/
def pause_pipeline : StatusService where
  settled := [.PAUSED, .PAUSE_REQUESTED]
  allowed_from := [.RUNNING, .RUN_REQUESTED, .IDLE]
  requested := .PAUSE_REQUESTED

end PipelinesService

/-- Which of the two endpoints is called. -/
inductive StatusEndpoint where
  | run_pipeline_endpoint
  | pause_pipeline_endpoint
deriving DecidableEq

/-- The service method an endpoint calls. -/
def StatusEndpoint.service : StatusEndpoint → StatusService
  | run_pipeline_endpoint => PipelinesService.run_pipeline
  | pause_pipeline_endpoint => PipelinesService.pause_pipeline

/-- The request of the platform that the endpoint stands for. -/
def StatusEndpoint.event {ι P : Type} (endpoint : StatusEndpoint) (p : P) : Event ι P :=
  match endpoint with
  | run_pipeline_endpoint => .run p
  | pause_pipeline_endpoint => .pause p

/-- Await points of one request. -/
inductive StatusRequest (P : Type) where
  | idle
  /-- before `get_pipeline`; the id may be that of no pipeline -/
  | reading (endpoint : StatusEndpoint) (p : Option P)
  /-- before the conditional update -/
  | updating (endpoint : StatusEndpoint) (p : P) (pipeline : EtlPipeline)
  /-- the update is committed, before `session.refresh(updated)` -/
  | refreshing (p : P)
  /-- the update has matched no row, before the second `get_pipeline` -/
  | rereading (pipeline : EtlPipeline)
  | answered (answer : Answer)

/-- What the session's copy of a row is after an update that has matched no row. -/
abbrev Unmatched := StatusService → EtlPipeline → EtlPipeline

section Requests

variable {P : Type} [DecidableEq P]

/-- `UPDATE ... WHERE id = p AND status IN allowed_from RETURNING ...` and its commit -/
def StatusService.request (service : StatusService) (db : Db P) (p : P) : Db P :=
  db.updateStatus service.allowed_from service.requested p

/-- Where a request goes on after its first read. -/
def StatusRequest.check (db : Db P) (endpoint : StatusEndpoint) (p : P) : StatusRequest P :=
  if db.status p ∈ endpoint.service.settled then .answered (returnPipeline (db.pipelines p))
  else .updating endpoint p (db.pipelines p)

/-- One statement of a request: what it leaves in the database and where it goes on. -/
def StatusRequest.step (unmatched : Unmatched) (db : Db P) (c : Choice) :
    StatusRequest P → Option (Db P × StatusRequest P)
  | .reading endpoint p =>
      match c with
      | .ok =>
          match p with
          | some p => some (db, StatusRequest.check db endpoint p)
          | none => some (db, .answered (http_404 "Pipeline not found"))
      | .raise exc => some (db, .answered (.raises exc))
      | .lost => some (db, .answered (.raises connectionLost))
      | .partialBulk _ _ => none
  | .updating endpoint p pipeline =>
      match c with
      | .ok =>
          some (endpoint.service.request db p,
            if db.status p ∈ endpoint.service.allowed_from then .refreshing p
            else .rereading (unmatched endpoint.service pipeline))
      | .raise exc => some (db, .answered (.raises exc))
      | .lost => some (endpoint.service.request db p, .answered (.raises connectionLost))
      | .partialBulk _ _ => none
  | .refreshing p =>
      match c with
      | .ok => some (db, .answered (returnPipeline (db.pipelines p)))
      | .raise exc => some (db, .answered (.raises exc))
      | .lost => some (db, .answered (.raises connectionLost))
      | .partialBulk _ _ => none
  | .rereading pipeline =>
      match c with
      | .ok => some (db, .answered (returnPipeline pipeline))
      | .raise exc => some (db, .answered (.raises exc))
      | .lost => some (db, .answered (.raises connectionLost))
      | .partialBulk _ _ => none
  | .idle => none
  | .answered _ => none

end Requests

/-- The platform, its `PATCH` requests and its run and pause requests. -/
structure ServedSys (κ ι P : Type) where
  api : ApiSys κ ι P
  requests : κ → StatusRequest P

inductive ServedEvent (κ ι P : Type) where
  /-- a `PATCH` request, or an event of the platform that is not a request -/
  | api (e : ApiEvent κ ι P)
  /-- `POST /pipelines/{p}/run` or `POST /pipelines/{p}/pause` arrives -/
  | receive (k : κ) (endpoint : StatusEndpoint) (p : Option P)
  /-- one step of a run or pause request -/
  | serve (k : κ) (c : Choice)

section Steps

variable {κ ι P : Type} [DecidableEq κ] [DecidableEq ι] [DecidableEq P]

/-- One event. -/
def ServedSys.step (w : World) (unmatched : Unmatched) (s : ServedSys κ ι P) :
    ServedEvent κ ι P → Option (ServedSys κ ι P)
  | .api (.platform (.run _)) => none
  | .api (.platform (.pause _)) => none
  | .api e => (s.api.step w e).map (fun api => { s with api := api })
  | .receive k endpoint p =>
      match s.requests k with
      | .idle =>
          some { s with requests := Function.update s.requests k (.reading endpoint p) }
      | _ => none
  | .serve k c =>
      ((s.requests k).step unmatched s.api.sys.db c).map (fun r =>
        { api := { s.api with sys := { s.api.sys with db := r.1 } }
          requests := Function.update s.requests k r.2 })

end Steps

end EtlPlatform
