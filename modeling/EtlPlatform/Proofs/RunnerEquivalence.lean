import EtlPlatform.Model.Deployment
import EtlPlatform.Model.IncrementalRuns
import EtlPlatform.Proofs.IncrementalPlan

/-!
# The two incremental runners

`run_sql_incremental_pipeline` runs one transform, `run_tasks_incremental` a
chain of them that stops at the first empty result.  On transforms that leave
their argument alone and make nothing of nothing, the chain is the composition,
and the two runners are one program: they issue the same queries, commit the
same states, and end in the same way.
-/

namespace EtlPlatform
namespace Sequential

open Library

/-! ## A chain of transforms -/

/-- `fk ∘ ... ∘ f1` on the rows returned. -/
def composed (fns : List TransformFn) (rows : List Row) : List Row :=
  fns.foldl (fun rows fn => (fn rows).rows) rows

/-- Every transform leaves its argument alone and makes nothing of nothing. -/
def Proper (fns : List TransformFn) : Prop :=
  ∀ fn ∈ fns, fn.Pure ∧ (fn []).rows = []

theorem composed_nil
    {fns : List TransformFn} (h : Proper fns) :
    composed fns [] = [] := by
  induction fns with
  | nil =>
      rfl
  | cons fn fns ih =>
      have hfn : (fn []).rows = [] := (h fn List.mem_cons_self).2
      have hrest : composed fns [] = [] := ih (fun f hf => h f (List.mem_cons_of_mem _ hf))
      rw [composed, List.foldl_cons, hfn]
      exact hrest

/-- **The chain is the composition**: stopping at an empty result loses nothing. -/
theorem applyTransforms_eq_composed
    {fns : List TransformFn} (h : Proper fns) (rows : List Row) :
    applyTransforms fns rows = { rows := composed fns rows, left := rows } := by
  induction fns generalizing rows with
  | nil =>
      rfl
  | cons fn fns ih =>
      have hrest : Proper fns := fun f hf => h f (List.mem_cons_of_mem _ hf)
      have hleft : (fn rows).left = rows := (h fn List.mem_cons_self).1 rows
      have hrows : (if (fn rows).rows = [] then [] else
          (applyTransforms fns (fn rows).rows).rows) = composed fns (fn rows).rows := by
        split_ifs with hnil
        · rw [hnil, composed_nil hrest]
        · rw [ih hrest]
      rw [applyTransforms, hleft, hrows]
      rfl

/-! ## The same run, described twice -/

/-- A pipeline without tasks and one with tasks that describe the same incremental run: one
query, one pair of valid key columns, one batch size, one allowed target, and a transform
that is the composition of the transforms of the tasks. -/
structure SameRun (w : World) (pl tasks : PipelineSnapshot) (fns : List TransformFn)
    (transformer : Transformer) : Prop where
  mode : pl.mode = .incremental
  tasks_mode : tasks.mode = .incremental
  query : ∃ reader rest, tasks.tasks = reader :: rest ∧ pl.source_query = some reader.body
  query_set : PyText.truthy pl.source_query = true
  key_set : PyText.truthy pl.incremental_key = true
  key : tasks.incremental_key = pl.incremental_key
  id_key : tasks.incremental_id_key = pl.incremental_id_key
  key_ident : matchesIdent (incKey pl) = true
  id_key_ident : matchesIdent (idKey pl) = true
  batch_size : tasks.batch_size = pl.batch_size
  target : finalTarget tasks = pl.target_table
  allowed : is_allowed_target pl.target_table = true
  loaded : loadTransforms w tasks = .ok fns
  proper : Proper fns
  resolved : resolve_transformer pl = .ok transformer
  composition : ∀ rows, transformer.transform w.modules rows =
    .ok { rows := composed fns rows, left := rows }

section Runners

variable {P : Type} [DecidableEq P]

omit [DecidableEq P] in
@[simp] theorem ofExcept_ok
    {α : Type} (a : α) :
    (ofExcept (.ok a) : RunnerM P α) = pure a := by
  rfl

/-- The two loops are one loop when their transforms are. -/
theorem tasksLoop_eq_sqlLoop
    {w : World} {fns : List TransformFn} {transformer : Transformer}
    (h : ∀ rows, transformer.transform w.modules rows = .ok (applyTransforms fns rows))
    (env : Surroundings) (p : P) (base inc_key id_key : String) (batch_size : ℕ)
    (writer : Writer) (target : String) (fuel batch_no : ℕ) (last : Option Cursor)
    (total_read total_written : ℕ) :
    tasksLoop w env p base inc_key id_key batch_size fns writer target fuel batch_no last
        total_read total_written =
      sqlLoop w env p base inc_key id_key batch_size transformer writer target fuel batch_no
        last total_read total_written := by
  induction fuel generalizing batch_no last total_read total_written with
  | zero =>
      rfl
  | succ fuel ih =>
      -- the totals are added up at different places of the round
      simp only [tasksLoop, sqlLoop, h, ofExcept_ok, pure_bind, bind_map_left, add_zero, ih]

omit [DecidableEq P] in
theorem validate_sql_ident_of_matches
    {name what : String} (h : matchesIdent (PyText.strip name) = true) :
    validate_sql_ident name what = .ok (PyText.strip name) := by
  rw [validate_sql_ident, if_pos h]

/-- With its checks passed, a run reads the checkpoint and enters its loop. -/
theorem run_sql_incremental_pipeline_eq
    {w : World} {pl : PipelineSnapshot} {transformer : Transformer}
    (hmode : pl.mode = .incremental) (hquery : PyText.truthy pl.source_query = true)
    (hkey : PyText.truthy pl.incremental_key = true)
    (hident : matchesIdent (incKey pl) = true) (hid_ident : matchesIdent (idKey pl) = true)
    (hresolved : resolve_transformer pl = .ok transformer)
    (env : Surroundings) (p : P) (fuel : ℕ) :
    run_sql_incremental_pipeline w env p pl fuel = (do
      let last ← ofExcept (decodeState ((← get).store.etl_state p))
      sqlLoop w env p (baseQuery (pl.source_query.getD "")) (incKey pl) (idKey pl)
        (batchSizeOr pl.batch_size) transformer (resolve_writer pl.target_table) pl.target_table
        fuel 1 last 0 0) := by
  simp only [run_sql_incremental_pipeline, hmode, hquery, hkey, hresolved,
    validate_sql_ident_of_matches hident, validate_sql_ident_of_matches hid_ident, ofExcept_ok,
    pure_bind, ne_eq, not_true_eq_false, if_false, Bool.not_true, Bool.false_eq_true, incKey, idKey]

/-- **The two incremental runners are equivalent.**  On the same run they issue the same
queries, commit the same states, and return or raise the same. -/
theorem incremental_runners_agree
    {w : World} {pl tasks : PipelineSnapshot} {fns : List TransformFn} {transformer : Transformer}
    (h : SameRun w pl tasks fns transformer) (env : Surroundings) (p : P) (fuel : ℕ)
    (s : Session P) :
    run_tasks_incremental w env p tasks fuel s =
      run_sql_incremental_pipeline w env p pl fuel s := by
  obtain ⟨reader, rest, htasks, hquery⟩ := h.query
  have hbase : pl.source_query.getD "" = reader.body := by
    rw [hquery, Option.getD_some]
  have hsame : ∀ rows, transformer.transform w.modules rows = .ok (applyTransforms fns rows) :=
    fun rows => by rw [h.composition, applyTransforms_eq_composed h.proper]
  have hloop := tasksLoop_eq_sqlLoop (P := P) hsame
  rw [run_sql_incremental_pipeline_eq h.mode h.query_set h.key_set h.key_ident h.id_key_ident
    h.resolved]
  simp only [run_tasks_incremental, htasks, h.tasks_mode, h.key, h.key_set, h.id_key,
    h.batch_size, h.target, h.allowed, h.loaded, hbase, hloop,
    validate_sql_ident_of_matches h.key_ident, validate_sql_ident_of_matches h.id_key_ident,
    ofExcept_ok, pure_bind, ne_eq, not_true_eq_false, if_false, Bool.not_true,
    Bool.false_eq_true, incKey, idKey]

end Runners

/-! ## Two transforms on the film pipeline -/

/-- `[r for r in rows if r["title"] != "Alien"]` -/
def withoutAlien : TransformFn :=
  fun rows => { rows := rows.filter (fun r => r.get? "title" ≠ some (.text "Alien")), left := rows }

/-- `rows[::-1]` -/
def reversed : TransformFn :=
  fun rows => { rows := rows.reverse, left := rows }

/-- One module a transform, and one with their composition. -/
def filmWorld : World :=
  { World.plain with
    modules := fun path =>
      if path = "tasks.without_alien" then .ok withoutAlien
      else if path = "tasks.reversed" then .ok reversed
      else .ok (fun rows => { rows := composed [withoutAlien, reversed] rows, left := rows }) }

/-- The film pipeline with the composition as its module. -/
def filmComposed : PipelineSnapshot :=
  { snapshot_pipeline (filmPipeline .incremental 1 .RUNNING) with
    type := .PYTHON
    python_module := some "tasks.both" }

/-- The film pipeline with a task for the query and one for each transform. -/
def filmTasks : PipelineSnapshot :=
  { snapshot_pipeline (filmPipeline .incremental 1 .RUNNING) with
    tasks := [⟨1, "SQL", filmQuery, none⟩, ⟨2, "PYTHON", "tasks.without_alien", none⟩,
      ⟨3, "PYTHON", "tasks.reversed", none⟩] }

theorem filmTasks_sameRun :
    SameRun filmWorld filmComposed filmTasks [withoutAlien, reversed]
      (.pythonCallable "tasks.both") where
  mode := rfl
  tasks_mode := rfl
  query := ⟨_, _, rfl, rfl⟩
  query_set := by decide +kernel
  key_set := by decide +kernel
  key := rfl
  id_key := rfl
  key_ident := by decide +kernel
  id_key_ident := by decide +kernel
  batch_size := rfl
  target := by decide +kernel
  allowed := by decide +kernel
  loaded := rfl
  proper := by simp [Proper, TransformFn.Pure, withoutAlien, reversed]
  resolved := by decide +kernel
  composition _ := rfl

/-- Two films, of which the transforms keep one, in two rounds. -/
theorem incremental_runners_agree_on_films :
    let env : Surroundings :=
      { source := fun _ => filmSource [filmExample, filmRow "f2" "Brazil" (january 3 (by decide))]
        status := fun _ => .RUNNING }
    let s : Session Unit := ⟨⟨filmSource [], fun _ => none, fun _ => none⟩, [], []⟩
    (∃ s', run_sql_incremental_pipeline filmWorld env () filmComposed 3 s =
        .ok (some (2, 1)) s') ∧
      run_tasks_incremental filmWorld env () filmTasks 3 s =
        run_sql_incremental_pipeline filmWorld env () filmComposed 3 s :=
  ⟨⟨_, rfl⟩, incremental_runners_agree filmTasks_sameRun _ _ _ _⟩

end Sequential
end EtlPlatform
