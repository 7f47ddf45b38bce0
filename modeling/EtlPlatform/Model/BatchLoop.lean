import EtlPlatform.Library.SortedPage
import EtlPlatform.Model.Transformers
import EtlPlatform.Model.Writers

/-!
# The four batch runners

`run_sql_full_pipeline`, `run_sql_incremental_pipeline`, `run_tasks_full` and
`run_tasks_incremental` share one loop: read a batch, leave if it is empty,
transform it, write it unless the result is empty, move the loop variables on,
commit, look at the pause flag, repeat.  `BatchLoop` holds the parts in which
they differ; each runner is its own definition, which first makes the checks
the source makes and then fills in the parts.
-/

namespace EtlPlatform

/-- The key pair of the last row read. -/
structure Cursor where
  last_ts : Datetime
  last_id : String
deriving DecidableEq

/-- Loop variables.  A full run uses `offset`, an incremental run `cursor`. -/
structure LoopVars where
  offset : ℕ
  cursor : Option Cursor
  total_read : ℕ
  total_written : ℕ
deriving DecidableEq

/-- The loop variables before the first batch. -/
def LoopVars.initial (cursor : Option Cursor) : LoopVars :=
  { offset := 0, cursor := cursor, total_read := 0, total_written := 0 }

/-- What the platform runs against: the parts that are not its own code. -/
structure World where
  collation : Collation
  storeRow : StoreRow
  modules : Modules
  max_attempts : ℕ := 3
  backoff_seconds : List ℚ := [1, 2, 4]

/-- The parts in which the runners' loops differ. -/
structure BatchLoop (P : Type) where
  /-- what is read before the loop starts -/
  setup : Store P → Except Exc LoopVars
  /-- the batch query at the loop head -/
  query : Store P → LoopVars → Except Exc (List Row)
  /-- what happens to the rows before they are written -/
  transform : List Row → Except Exc Transformed
  /-- the items sent for a non-empty list of rows -/
  write : List Row → Except Exc (List Item)
  /-- whether the items go to the session, or straight to the sink -/
  transactional : Bool
  /-- from the loop variables, the fetched rows, the list the transform left and the
  number of rows written: the next loop variables and the checkpoint writes -/
  advance : LoopVars → List Row → List Row → ℕ → Except Exc (LoopVars × List (Write P))

section BatchQueries

/-- `base_query.strip().rstrip(";")` -/
def baseQuery (source_query : String) : String :=
  PyText.rstrip ';' (PyText.strip source_query)

/-- The rows `SELECT * FROM (base) AS src LIMIT limit OFFSET offset` returns. -/
def _wrap_query_with_limit_offset
    (source : Source) (base_query : String) (limit offset : ℕ) : Except Exc (List Row) := do
  let rows ← source (baseQuery base_query)
  return (rows.drop offset).take limit

variable (C : Collation)

/-- `ORDER BY src.inc_key, src.id_key` -/
def rowLe (inc_col id_col : String) (r r' : Row) : Prop :=
  (Value.le C (r.column inc_col) (r'.column inc_col) = true ∧
      Value.le C (r'.column inc_col) (r.column inc_col) = false) ∨
    (Value.le C (r.column inc_col) (r'.column inc_col) = true ∧
      Value.le C (r'.column inc_col) (r.column inc_col) = true ∧
      Value.le C (r.column id_col) (r'.column id_col) = true)

instance (inc_col id_col : String) : DecidableRel (rowLe C inc_col id_col) :=
  fun _ _ => inferInstanceAs (Decidable (_ ∨ _))

/-- `WHERE (src.inc_key > :last_ts) OR (src.inc_key = :last_ts AND src.id_key > :last_id)` -/
def afterCursor (inc_col id_col : String) (c : Cursor) (r : Row) : Bool :=
  let ts := r.column inc_col
  let id := r.column id_col
  Value.sqlGt C ts (.datetime c.last_ts) ||
    (Value.sqlEq C ts (.datetime c.last_ts) &&
      Value.sqlGt C id ((id.bindLike c.last_id).getD .null))

/-- The condition of the batch query: none before the first checkpoint. -/
def batchWhere (inc_col id_col : String) : Option Cursor → Row → Bool
  | none => fun _ => true
  | some c => afterCursor C inc_col id_col c

/--
The batch query of an incremental run.  The key columns are written unquoted,
so the server folds them; it refuses a column the base query does not return,
and a text parameter compared with an id column of another type.
-/
def incrementalBatch
    (source : Source) (base inc_key id_key : String)
    (cursor : Option Cursor) (limit : ℕ) : Except Exc (List Row) := do
  let rows ← source base
  let inc_col := foldIdent inc_key
  let id_col := foldIdent id_key
  if rows.any (fun r => r.get? inc_col = none || r.get? id_col = none) then
    throw (statementError "UndefinedColumnError" "column does not exist")
  if cursor.isSome && rows.any (fun r => ((r.column id_col).bindLike "").isNone) then
    throw (statementError "DataError" "invalid input for query argument (expected str)")
  return Library.page (rowLe C inc_col id_col) (batchWhere C inc_col id_col cursor) limit rows

/-- What `state_repo.get` and the decoding of its row make of a stored checkpoint. -/
def decodeState (state : Option EtlState) : Except Exc (Option Cursor) :=
  let raw := state.bind (fun s => s.last_processed_value)
  let last_id := state.bind (fun s => s.last_processed_id)
  if PyText.truthy raw then
    match Datetime.fromisoformat (raw.getD "") with
    | none => .error (valueError ("Invalid isoformat string: '" ++ raw.getD "" ++ "'"))
    | some last_ts =>
        if PyText.truthy last_id then
          .ok (some { last_ts := last_ts, last_id := last_id.getD "" })
        else .error (valueError "Incremental state is missing last_processed_id")
  else .ok none

/-- What `state_repo.upsert` stores for a cursor. -/
def encodeState (c : Cursor) : EtlState :=
  { last_processed_value := some c.last_ts.isoformat, last_processed_id := some c.last_id }

/-- The checks on the tail row, and the cursor they yield. -/
def tailCursor (inc_key id_key : String) (rows : List Row) : Except Exc Cursor :=
  match rows.getLast? with
  | none => .error (indexError "list")
  | some tail =>
      match tail.get? inc_key, tail.get? id_key with
      | none, _ =>
          .error (valueError ("Row does not contain incremental_key='" ++ inc_key ++ "'"))
      | some _, none =>
          .error (valueError ("Row does not contain incremental_id_key='" ++ id_key ++ "'"))
      | some .null, some _ =>
          .error (valueError "Invariant broken: incremental_key value is None in tail row")
      | some (.datetime t), some id => .ok { last_ts := t, last_id := id.str }
      | some v, some _ =>
          .error (valueError ("Invariant broken: incremental_key must be datetime, got " ++
            v.typeRepr))

end BatchQueries

section Runners

variable {P : Type}

/-- The end of a full batch: continue after the rows it fetched. -/
def advanceFull (step : ℕ) (v : LoopVars) (fetched : List Row) (written : ℕ) :
    LoopVars × List (Write P) :=
  ({ v with
      offset := v.offset + step
      total_read := v.total_read + fetched.length
      total_written := v.total_written + written }, [])

/-- The end of an incremental batch: check the tail row, put it in the checkpoint. -/
def advanceIncremental (inc_key id_key : String) (p : P)
    (v : LoopVars) (fetched left : List Row) (written : ℕ) :
    Except Exc (LoopVars × List (Write P)) := do
  let c ← tailCursor inc_key id_key left
  return ({ v with
      cursor := some c
      total_read := v.total_read + fetched.length
      total_written := v.total_written + written }, [.state p (encodeState c)])

/-- `run_sql_full_pipeline` up to its loop. -/
def run_sql_full_pipeline (w : World) (pl : PipelineSnapshot) :
    Except Exc (BatchLoop P) := do
  if pl.mode ≠ .full then
    throw (valueError "Unsupported pipeline.mode: incremental")
  if !PyText.truthy pl.source_query then
    throw (valueError "Pipeline has empty source_query")
  let batch_size := batchSizeOr pl.batch_size
  let transformer ← resolve_transformer pl
  let writer := resolve_writer pl.target_table
  return {
    setup := fun _ => .ok (LoopVars.initial none)
    query := fun st v =>
      _wrap_query_with_limit_offset st.source (pl.source_query.getD "") batch_size v.offset
    transform := transformer.transform w.modules
    write := writer.write w.storeRow pl.target_table
    transactional := writer = .postgres
    advance := fun v fetched _ written => .ok (advanceFull fetched.length v fetched written) }

/-- `run_sql_incremental_pipeline` up to its loop. -/
def run_sql_incremental_pipeline [DecidableEq P] (w : World) (p : P) (pl : PipelineSnapshot) :
    Except Exc (BatchLoop P) := do
  if pl.mode ≠ .incremental then
    throw (valueError "Unsupported pipeline.mode: full")
  if !PyText.truthy pl.source_query then
    throw (valueError "Pipeline has empty source_query")
  if !PyText.truthy pl.incremental_key then
    throw (valueError "Incremental pipeline requires incremental_key")
  let inc_key ← validate_sql_ident (pl.incremental_key.getD "") "incremental_key"
  let id_key ← validate_sql_ident (targetOr pl.incremental_id_key "film_id") "incremental_id_key"
  let batch_size := batchSizeOr pl.batch_size
  let transformer ← resolve_transformer pl
  let writer := resolve_writer pl.target_table
  let base := baseQuery (pl.source_query.getD "")
  return {
    setup := fun st => (decodeState (st.etl_state p)).map LoopVars.initial
    query := fun st v =>
      incrementalBatch w.collation st.source base inc_key id_key v.cursor batch_size
    transform := transformer.transform w.modules
    write := writer.write w.storeRow pl.target_table
    transactional := writer = .postgres
    advance := advanceIncremental inc_key id_key p }

/-- The final target of a tasks plan. -/
def finalTarget (pl : PipelineSnapshot) : String :=
  targetOr ((pl.tasks.getLast?).bind (fun t => t.target_table)) pl.target_table

/-- `[load_python_transform(t.body) for t in p.tasks[1:]]` -/
def loadTransforms (w : World) (pl : PipelineSnapshot) : Except Exc (List TransformFn) :=
  pl.tasks.tail.mapM (fun t => w.modules t.body)

/-- `run_tasks_full` up to its loop. -/
def run_tasks_full (w : World) (pl : PipelineSnapshot) : Except Exc (BatchLoop P) := do
  match pl.tasks with
  | [] => throw (valueError "Tasks runner requires non-empty tasks")
  | reader :: _ =>
      let batch_size := batchSizeOr pl.batch_size
      let final_target := finalTarget pl
      if !is_allowed_target final_target then
        throw (valueError ("Task-level target_table is not allowed: '" ++ final_target ++ "'"))
      let writer := resolve_writer final_target
      let py_fns ← loadTransforms w pl
      return {
        setup := fun _ => .ok (LoopVars.initial none)
        query := fun st v =>
          _wrap_query_with_limit_offset st.source reader.body batch_size v.offset
        transform := fun rows => .ok (applyTransforms py_fns rows)
        write := writer.write w.storeRow final_target
        transactional := writer = .postgres
        -- `offset += batch_size`, whatever was fetched, after the pause check
        advance := fun v fetched _ written => .ok (advanceFull batch_size v fetched written) }

/-- `run_tasks_incremental` up to its loop. -/
def run_tasks_incremental [DecidableEq P] (w : World) (p : P) (pl : PipelineSnapshot) :
    Except Exc (BatchLoop P) := do
  match pl.tasks with
  | [] => throw (valueError "Tasks runner requires non-empty tasks")
  | reader :: _ =>
      if pl.mode ≠ .incremental then
        throw (valueError
          "Tasks incremental runner requires pipeline.mode='incremental', got 'full'")
      if !PyText.truthy pl.incremental_key then
        throw (valueError "Incremental pipeline requires incremental_key")
      let inc_key ← validate_sql_ident (pl.incremental_key.getD "") "incremental_key"
      let id_key ←
        validate_sql_ident (targetOr pl.incremental_id_key "film_id") "incremental_id_key"
      let batch_size := batchSizeOr pl.batch_size
      let reader_sql := baseQuery reader.body
      let final_target := finalTarget pl
      if !is_allowed_target final_target then
        throw (valueError ("Task-level target_table is not allowed: '" ++ final_target ++ "'"))
      let writer := resolve_writer final_target
      let py_fns ← loadTransforms w pl
      return {
        setup := fun st => (decodeState (st.etl_state p)).map LoopVars.initial
        query := fun st v =>
          incrementalBatch w.collation st.source reader_sql inc_key id_key v.cursor batch_size
        transform := fun rows => .ok (applyTransforms py_fns rows)
        write := writer.write w.storeRow final_target
        transactional := writer = .postgres
        advance := advanceIncremental inc_key id_key p }

/-- `PipelineExecutor._run_body` up to the loop of the runner it picks. -/
def _run_body [DecidableEq P] (w : World) (p : P) (pl : PipelineSnapshot) :
    Except Exc (BatchLoop P) :=
  if pl.tasks ≠ [] then do
    let snap ← validate_tasks_v1 pl
    match snap.mode with
    | .full => run_tasks_full w snap
    | .incremental => run_tasks_incremental w p snap
  else
    match pl.mode with
    | .full => run_sql_full_pipeline w pl
    | .incremental => run_sql_incremental_pipeline w p pl

end Runners

end EtlPlatform
