import EtlPlatform.Model.IncrementalRuns

/-!
# Full runs, statement by statement

`run_sql_full_pipeline` and `run_tasks_full` with the whole bodies of their own
loops.  As with incremental runs, a run is a program over the session of one
attempt, and the tables a query sees and the status the pause check reads are
given in advance for every round.  A full run has no checkpoint: what it keeps
is the sink and the open transaction.
-/

namespace EtlPlatform
namespace FullRuns

open EtlPlatform.Sequential (Surroundings)

/-- What `_wrap_query_with_limit_offset` is called with. -/
structure PageQuery where
  base_query : String
  limit : ℕ
  offset : ℕ
deriving DecidableEq

/-- What can be seen of a full run from outside. -/
inductive Seen where
  /-- a batch query and its answer -/
  | query (q : PageQuery) (answer : Except Exc (List Row))
  /-- a commit: the sink after it -/
  | committed (sink : Sink)

/-- The sink, the upserts of the open transaction and what has been seen of the run. -/
structure Session where
  sink : Sink
  pending : List Item
  seen : List Seen

/-- A program of a full runner. -/
abbrev RunnerM := EStateM Exc Session

section Statements

/-- A computed value, or the exception it raised. -/
def ofExcept {α : Type} : Except Exc α → RunnerM α
  | .ok a => pure a
  | .error exc => throw exc

/-- `session.execute(text(batch_query))` -/
def execute (source : Source) (q : PageQuery) : RunnerM (List Row) := do
  let answer := _wrap_query_with_limit_offset source q.base_query q.limit q.offset
  modify (fun s => { s with seen := s.seen ++ [.query q answer] })
  ofExcept answer

/-- `writer.write(session, pipeline, rows)` -/
def write (w : World) (writer : Writer) (target_table : String) (rows : List Row) :
    RunnerM ℕ := do
  let items ← ofExcept (writer.write w.storeRow target_table rows)
  match writer with
  | .postgres => modify (fun s => { s with pending := s.pending ++ items })
  | .elasticsearch => modify (fun s => { s with sink := applyItems s.sink items })
  return items.length

/-- `session.commit()` -/
def commit : RunnerM Unit :=
  modify (fun s =>
    let sink := applyItems s.sink s.pending
    { sink := sink, pending := [], seen := s.seen ++ [.committed sink] })

end Statements

section Runners

/-- The `while` loop of `run_sql_full_pipeline`, for at most `fuel` rounds. -/
def sqlLoop (w : World) (env : Surroundings) (source_query : String) (batch_size : ℕ)
    (transformer : Transformer) (writer : Writer) (target_table : String) :
    (fuel batch_no offset total_read total_written : ℕ) → RunnerM (Option (ℕ × ℕ))
  | 0, _, _, _, _ => return none
  | fuel + 1, batch_no, current_offset, total_read, total_written => do
      let src_rows ← execute (env.source batch_no)
        { base_query := source_query, limit := batch_size, offset := current_offset }
      let fetched := src_rows.length
      if fetched = 0 then
        return some (total_read, total_written)
      let total_read := total_read + fetched
      let res ← ofExcept (transformer.transform w.modules src_rows)
      let total_written ←
        if res.rows = [] then pure total_written
        else (total_written + ·) <$> write w writer target_table res.rows
      commit
      -- continue after the rows that were fetched
      let offset := current_offset + fetched
      if env.status batch_no = .PAUSE_REQUESTED then
        return some (total_read, total_written)
      sqlLoop w env source_query batch_size transformer writer target_table fuel (batch_no + 1)
        offset total_read total_written

/-- `run_sql_full_pipeline`, for at most `fuel` rounds. -/
def run_sql_full_pipeline (w : World) (env : Surroundings) (pipeline : PipelineSnapshot)
    (fuel : ℕ) : RunnerM (Option (ℕ × ℕ)) := do
  if pipeline.mode ≠ .full then
    throw (valueError "Unsupported pipeline.mode: incremental")
  if !PyText.truthy pipeline.source_query then
    throw (valueError "Pipeline has empty source_query")
  let batch_size := batchSizeOr pipeline.batch_size
  let transformer ← ofExcept (resolve_transformer pipeline)
  let writer := resolve_writer pipeline.target_table
  sqlLoop w env (pipeline.source_query.getD "") batch_size transformer writer
    pipeline.target_table fuel 1 0 0 0

/-- The `while` loop of `run_tasks_full`, for at most `fuel` rounds. -/
def tasksLoop (w : World) (env : Surroundings) (reader_sql : String) (batch_size : ℕ)
    (py_fns : List TransformFn) (writer : Writer) (final_target : String) :
    (fuel batch_no offset total_read total_written : ℕ) → RunnerM (Option (ℕ × ℕ))
  | 0, _, _, _, _ => return none
  | fuel + 1, batch_no, offset, total_read, total_written => do
      let rows ← execute (env.source batch_no)
        { base_query := reader_sql, limit := batch_size, offset := offset }
      if rows = [] then
        return some (total_read, total_written)
      let total_read := total_read + rows.length
      let rows := (applyTransforms py_fns rows).rows
      let total_written ←
        if rows = [] then pure total_written
        else (total_written + ·) <$> write w writer final_target rows
      commit
      if env.status batch_no = .PAUSE_REQUESTED then
        return some (total_read, total_written)
      -- one batch further on, whatever was fetched
      tasksLoop w env reader_sql batch_size py_fns writer final_target fuel (batch_no + 1)
        (offset + batch_size) total_read total_written

/-- `run_tasks_full`, for at most `fuel` rounds. -/
def run_tasks_full (w : World) (env : Surroundings) (p : PipelineSnapshot) (fuel : ℕ) :
    RunnerM (Option (ℕ × ℕ)) := do
  match p.tasks with
  | [] => throw (valueError "Tasks runner requires non-empty tasks")
  | reader :: _ =>
      let batch_size := batchSizeOr p.batch_size
      let final_target := finalTarget p
      if !is_allowed_target final_target then
        throw (valueError ("Task-level target_table is not allowed: '" ++ final_target ++ "'"))
      let writer := resolve_writer final_target
      let py_fns ← ofExcept (loadTransforms w p)
      tasksLoop w env reader.body batch_size py_fns writer final_target fuel 1 0 0 0

end Runners

end FullRuns
end EtlPlatform
