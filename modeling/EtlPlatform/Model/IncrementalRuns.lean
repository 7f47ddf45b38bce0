import EtlPlatform.Model.BatchLoop
import EtlPlatform.Model.Snapshot

/-!
# Incremental runs, statement by statement

`run_sql_incremental_pipeline` and `run_tasks_incremental` once more, each with
the whole body of its own loop and not by the parts of a common one.  A run is a
program over the session of one attempt; the tables a batch query sees and the
status the pause check reads are given in advance for every round.

Exceptions keep the state, so what a run has committed can be seen however it
ends.
-/

namespace EtlPlatform
namespace Sequential

/-- A batch query with its parameters. -/
structure BatchQuery where
  base : String
  inc_key : String
  id_key : String
  last : Option Cursor
  limit : ℕ
deriving DecidableEq

/-- What can be seen of a run from outside. -/
inductive Seen where
  /-- a batch query and its answer -/
  | query (q : BatchQuery) (answer : Except Exc (List Row))
  /-- a commit: the sink and the stored checkpoint after it -/
  | committed (sink : Sink) (etl_state : Option EtlState)

/-- The tables, the open transaction and what has been seen of the run. -/
structure Session (P : Type) where
  store : Store P
  pending : List (Write P)
  seen : List Seen

/-- The tables and the status answer of each round, counted from one. -/
structure Surroundings where
  source : ℕ → Source
  status : ℕ → PipelineStatus

/-- A program of the runner. -/
abbrev RunnerM (P : Type) := EStateM Exc (Session P)

section Statements

variable {P : Type} [DecidableEq P]

/-- A computed value, or the exception it raised. -/
def ofExcept {α : Type} : Except Exc α → RunnerM P α
  | .ok a => pure a
  | .error exc => throw exc

/-- `session.execute(text(batch_sql), params)` -/
def execute (w : World) (source : Source) (q : BatchQuery) : RunnerM P (List Row) := do
  let answer := incrementalBatch w.collation source q.base q.inc_key q.id_key q.last q.limit
  modify (fun s => { s with seen := s.seen ++ [.query q answer] })
  ofExcept answer

/-- `writer.write(session, pipeline, rows)` -/
def write (w : World) (writer : Writer) (target_table : String) (rows : List Row) :
    RunnerM P ℕ := do
  let items ← ofExcept (writer.write w.storeRow target_table rows)
  match writer with
  | .postgres => modify (fun s => { s with pending := s.pending ++ items.map .upsert })
  | .elasticsearch =>
      modify (fun s => { s with store := { s.store with sink := applyItems s.store.sink items } })
  return items.length

/-- `state_repo.upsert(session, pid, last_value=..., last_id=...)` -/
def upsert (p : P) (c : Cursor) : RunnerM P Unit :=
  modify (fun s => { s with pending := s.pending ++ [.state p (encodeState c)] })

/-- `session.commit()` -/
def commit (p : P) : RunnerM P Unit :=
  modify (fun s =>
    let store := s.store.commit s.pending
    { store := store, pending := [],
      seen := s.seen ++ [.committed store.sink (store.etl_state p)] })

end Statements

section Runners

variable {P : Type} [DecidableEq P]

/-- The `while` loop of `run_sql_incremental_pipeline`, for at most `fuel` rounds. -/
def sqlLoop (w : World) (env : Surroundings) (p : P) (base inc_key id_key : String)
    (batch_size : ℕ) (transformer : Transformer) (writer : Writer) (target_table : String) :
    (fuel batch_no : ℕ) → Option Cursor → (total_read total_written : ℕ) →
      RunnerM P (Option (ℕ × ℕ))
  | 0, _, _, _, _ => return none
  | fuel + 1, batch_no, last, total_read, total_written => do
      let src_rows ← execute w (env.source batch_no)
        { base := base, inc_key := inc_key, id_key := id_key, last := last, limit := batch_size }
      if src_rows = [] then
        return some (total_read, total_written)
      let res ← ofExcept (transformer.transform w.modules src_rows)
      let written_i ←
        if res.rows = [] then pure 0 else write w writer target_table res.rows
      -- the tail comes from the list the transformer was handed
      let c ← ofExcept (tailCursor inc_key id_key res.left)
      upsert p c
      commit p
      if env.status batch_no = .PAUSE_REQUESTED then
        return some (total_read + src_rows.length, total_written + written_i)
      sqlLoop w env p base inc_key id_key batch_size transformer writer target_table fuel
        (batch_no + 1) (some c) (total_read + src_rows.length) (total_written + written_i)

/-- `run_sql_incremental_pipeline`, for at most `fuel` rounds. -/
def run_sql_incremental_pipeline (w : World) (env : Surroundings) (p : P)
    (pipeline : PipelineSnapshot) (fuel : ℕ) : RunnerM P (Option (ℕ × ℕ)) := do
  if pipeline.mode ≠ .incremental then
    throw (valueError "Unsupported pipeline.mode: full")
  if !PyText.truthy pipeline.source_query then
    throw (valueError "Pipeline has empty source_query")
  if !PyText.truthy pipeline.incremental_key then
    throw (valueError "Incremental pipeline requires incremental_key")
  let inc_key ← ofExcept
    (validate_sql_ident (pipeline.incremental_key.getD "") "incremental_key")
  let id_key ← ofExcept
    (validate_sql_ident (targetOr pipeline.incremental_id_key "film_id") "incremental_id_key")
  let batch_size := batchSizeOr pipeline.batch_size
  let transformer ← ofExcept (resolve_transformer pipeline)
  let writer := resolve_writer pipeline.target_table
  let last ← ofExcept (decodeState ((← get).store.etl_state p))
  let base := baseQuery (pipeline.source_query.getD "")
  sqlLoop w env p base inc_key id_key batch_size transformer writer pipeline.target_table fuel
    1 last 0 0

/-- The `while` loop of `run_tasks_incremental`, for at most `fuel` rounds. -/
def tasksLoop (w : World) (env : Surroundings) (p : P) (reader_sql inc_key id_key : String)
    (batch_size : ℕ) (py_fns : List TransformFn) (writer : Writer) (final_target : String) :
    (fuel batch_no : ℕ) → Option Cursor → (total_read total_written : ℕ) →
      RunnerM P (Option (ℕ × ℕ))
  | 0, _, _, _, _ => return none
  | fuel + 1, batch_no, last, total_read, total_written => do
      let src_rows ← execute w (env.source batch_no)
        { base := reader_sql, inc_key := inc_key, id_key := id_key, last := last,
          limit := batch_size }
      if src_rows = [] then
        return some (total_read, total_written)
      let total_read := total_read + src_rows.length
      let res := applyTransforms py_fns src_rows
      let total_written ←
        if res.rows = [] then pure total_written
        else (total_written + ·) <$> write w writer final_target res.rows
      let c ← ofExcept (tailCursor inc_key id_key res.left)
      upsert p c
      commit p
      if env.status batch_no = .PAUSE_REQUESTED then
        return some (total_read, total_written)
      tasksLoop w env p reader_sql inc_key id_key batch_size py_fns writer final_target fuel
        (batch_no + 1) (some c) total_read total_written

/-- `run_tasks_incremental`, for at most `fuel` rounds. -/
def run_tasks_incremental (w : World) (env : Surroundings) (p : P)
    (pl : PipelineSnapshot) (fuel : ℕ) : RunnerM P (Option (ℕ × ℕ)) := do
  match pl.tasks with
  | [] => throw (valueError "Tasks runner requires non-empty tasks")
  | reader :: _ =>
      if pl.mode ≠ .incremental then
        throw (valueError
          "Tasks incremental runner requires pipeline.mode='incremental', got 'full'")
      if !PyText.truthy pl.incremental_key then
        throw (valueError "Incremental pipeline requires incremental_key")
      let inc_key ← ofExcept
        (validate_sql_ident (pl.incremental_key.getD "") "incremental_key")
      let id_key ← ofExcept
        (validate_sql_ident (targetOr pl.incremental_id_key "film_id") "incremental_id_key")
      let batch_size := batchSizeOr pl.batch_size
      let reader_sql := baseQuery reader.body
      let final_target := finalTarget pl
      if !is_allowed_target final_target then
        throw (valueError ("Task-level target_table is not allowed: '" ++ final_target ++ "'"))
      let writer := resolve_writer final_target
      let py_fns ← ofExcept (loadTransforms w pl)
      let last ← ofExcept (decodeState ((← get).store.etl_state p))
      tasksLoop w env p reader_sql inc_key id_key batch_size py_fns writer final_target fuel
        1 last 0 0

end Runners

end Sequential
end EtlPlatform
