import EtlPlatform.Library.Failing
import EtlPlatform.Model.BatchLoop

/-!
# What an incremental run works with

`run_sql_incremental_pipeline` and `run_tasks_incremental` check their
configuration in different places and then run the same loop.  A plan is what
remains of the configuration by then: the base query and its key columns, the
page size, the transform and the writer.

The module names the batches of a plan, and the stored checkpoints at which its
loop can stand.
-/

namespace EtlPlatform

open Library

/-- What an incremental run works with. -/
structure IncrementalPlan where
  base : String
  inc_key : String
  id_key : String
  limit : ℕ
  transform : List Row → Except Exc Transformed
  writer : Writer
  target : String

namespace IncrementalPlan

variable {P : Type}

/-- The loop of an incremental run. -/
def loop (w : World) (p : P) (plan : IncrementalPlan) : BatchLoop P where
  setup st := (decodeState (st.etl_state p)).map LoopVars.initial
  query st v :=
    incrementalBatch w.collation st.source plan.base plan.inc_key plan.id_key v.cursor plan.limit
  transform := plan.transform
  write := plan.writer.write w.storeRow plan.target
  transactional := plan.writer = .postgres
  advance := advanceIncremental plan.inc_key plan.id_key p

/-- The same plan with another transform. -/
def withTransform (plan : IncrementalPlan) (transform : List Row → Except Exc Transformed) :
    IncrementalPlan :=
  { plan with transform := transform }

/-- The loop of a plan looks at no module. -/
theorem loop_with_modules
    (w : World) (m : Modules) (p : P) (plan : IncrementalPlan) :
    plan.loop { w with modules := m } p = plan.loop w p := by
  rfl

/--
One batch of the plan: the rows read from `src` after the cursor `c`, the items
of the rows the transform returned for them, and the keys of the last row read.
-/
inductive Batch (w : World) (plan : IncrementalPlan) (src : Source) (c : Option Cursor) :
    List Item → Cursor → Prop
  | mk {rows : List Row} {res : Transformed} {items : List Item} {c' : Cursor} :
      incrementalBatch w.collation src plan.base plan.inc_key plan.id_key c plan.limit = .ok rows →
      rows ≠ [] →
      plan.transform rows = .ok res →
      plan.writer.write w.storeRow plan.target res.rows = .ok items →
      tailCursor plan.inc_key plan.id_key rows = .ok c' →
      Batch w plan src c items c'

/-- A loop can stand at `c` while `state` is stored: it has decoded `c` from it, or it has
written it for `c`. -/
def StandsAt (state : Option EtlState) (c : Option Cursor) : Prop :=
  decodeState state = .ok c ∨ ∃ c', c = some c' ∧ state = some (encodeState c')

theorem standsAt_encodeState
    (c : Cursor) :
    StandsAt (some (encodeState c)) (some c) :=
  Or.inr ⟨c, rfl, rfl⟩

/-- An advance of the loop moves the cursor to the tail of the list, and stores it. -/
theorem advanceIncremental_eq_ok
    {inc_key id_key : String} {p : P} {v v' : LoopVars} {fetched left : List Row} {n : ℕ}
    {ws : List (Write P)}
    (h : advanceIncremental inc_key id_key p v fetched left n = .ok (v', ws)) :
    ∃ c, tailCursor inc_key id_key left = .ok c ∧ v'.cursor = some c ∧
      ws = [.state p (encodeState c)] := by
  simp only [advanceIncremental, bind_eq_ok_iff, pure_eq_ok_iff] at h
  obtain ⟨c, hc, heq⟩ := h
  obtain ⟨rfl, rfl⟩ := Prod.mk.inj heq
  exact ⟨c, hc, rfl, rfl⟩

/-- The loop starts at the cursor it decodes. -/
theorem setup_eq_ok
    {state : Option EtlState} {v : LoopVars}
    (h : (decodeState state).map LoopVars.initial = .ok v) :
    decodeState state = .ok v.cursor := by
  obtain ⟨c, hc, rfl⟩ := map_eq_ok_iff.mp h
  exact hc

end IncrementalPlan

section PureTransforms

/-- The transform of the loop leaves the list it is given unchanged. -/
def BatchLoop.Pure {P : Type} (bl : BatchLoop P) : Prop :=
  ∀ rows res, bl.transform rows = .ok res → res.left = rows

/-- A chain of pure transforms is pure. -/
theorem applyTransforms_pure
    {fns : List TransformFn} (h : ∀ fn ∈ fns, fn.Pure) :
    TransformFn.Pure (applyTransforms fns) := by
  intro rows
  cases fns with
  | nil =>
      rfl
  | cons fn fns =>
      exact h fn (List.mem_cons_self) rows

/-- A transformer runs a function of the modules, or hands the rows through. -/
theorem Transformer.left_eq
    {w : World} (hpure : ∀ path fn, w.modules path = .ok fn → fn.Pure)
    {tr : Transformer} {rows : List Row} {res : Transformed}
    (h : tr.transform w.modules rows = .ok res) :
    res.left = rows := by
  cases tr with
  | noOp =>
      obtain rfl := Except.ok.inj h
      exact NoOpTransformer_pure rows
  | pythonCallable path =>
      simp only [Transformer.transform, bind_eq_ok_iff, pure_eq_ok_iff] at h
      obtain ⟨fn, hfn, rfl⟩ := h
      exact hpure path fn hfn rows

end PureTransforms

section Plans

/-- The key column, as the runner names it. -/
def incKey (pl : PipelineSnapshot) : String :=
  PyText.strip (pl.incremental_key.getD "")

/-- The id column, as the runner names it. -/
def idKey (pl : PipelineSnapshot) : String :=
  PyText.strip (targetOr pl.incremental_id_key "film_id")

theorem validate_sql_ident_eq_ok
    {name what n : String} (h : validate_sql_ident name what = .ok n) :
    n = PyText.strip name := by
  simp only [validate_sql_ident] at h
  split_ifs at h
  exact (Except.ok.inj h).symm

variable {P : Type} [DecidableEq P]

/-- The plan of `run_sql_incremental_pipeline`. -/
def sqlPlan (pl : PipelineSnapshot) (transform : List Row → Except Exc Transformed) :
    IncrementalPlan where
  base := baseQuery (pl.source_query.getD "")
  inc_key := incKey pl
  id_key := idKey pl
  limit := batchSizeOr pl.batch_size
  transform := transform
  writer := resolve_writer pl.target_table
  target := pl.target_table

/-- The plan of `run_tasks_incremental` with the given reader. -/
def tasksPlan (pl : PipelineSnapshot) (reader : TaskSnapshot)
    (transform : List Row → Except Exc Transformed) : IncrementalPlan where
  base := baseQuery reader.body
  inc_key := incKey pl
  id_key := idKey pl
  limit := batchSizeOr pl.batch_size
  transform := transform
  writer := resolve_writer (finalTarget pl)
  target := finalTarget pl

theorem sqlPlan_withTransform
    (pl : PipelineSnapshot) (tr tr' : List Row → Except Exc Transformed) :
    (sqlPlan pl tr).withTransform tr' = sqlPlan pl tr' := by
  simp only [IncrementalPlan.withTransform, sqlPlan]

theorem tasksPlan_withTransform
    (pl : PipelineSnapshot) (reader : TaskSnapshot) (tr tr' : List Row → Except Exc Transformed) :
    (tasksPlan pl reader tr).withTransform tr' = tasksPlan pl reader tr' := by
  simp only [IncrementalPlan.withTransform, tasksPlan]

theorem run_sql_incremental_pipeline_eq_ok
    {w : World} {p : P} {pl : PipelineSnapshot} {bl : BatchLoop P}
    (h : run_sql_incremental_pipeline w p pl = .ok bl) :
    ∃ tr, resolve_transformer pl = .ok tr ∧
      bl = (sqlPlan pl (tr.transform w.modules)).loop w p := by
  simp only [run_sql_incremental_pipeline, check_eq_ok_iff, bind_eq_ok_iff, pure_eq_ok_iff] at h
  obtain ⟨-, -, -, inc_key, hinc, id_key, hid, tr, htr, rfl⟩ := h
  refine ⟨tr, htr, ?_⟩
  rw [validate_sql_ident_eq_ok hinc, validate_sql_ident_eq_ok hid]
  dsimp only [IncrementalPlan.loop, sqlPlan, incKey, idKey]

theorem run_tasks_incremental_eq_ok
    {w : World} {p : P} {pl : PipelineSnapshot} {bl : BatchLoop P}
    (h : run_tasks_incremental w p pl = .ok bl) :
    ∃ reader rest fns, pl.tasks = reader :: rest ∧ loadTransforms w pl = .ok fns ∧
      bl = (tasksPlan pl reader (fun rows => .ok (applyTransforms fns rows))).loop w p := by
  cases htasks : pl.tasks with
  | nil =>
      simp only [run_tasks_incremental, htasks] at h
      cases h
  | cons reader rest =>
      simp only [run_tasks_incremental, htasks, check_eq_ok_iff, bind_eq_ok_iff,
        pure_eq_ok_iff] at h
      obtain ⟨-, -, inc_key, hinc, id_key, hid, -, fns, hfns, rfl⟩ := h
      refine ⟨reader, rest, fns, rfl, hfns, ?_⟩
      rw [validate_sql_ident_eq_ok hinc, validate_sql_ident_eq_ok hid]
      dsimp only [IncrementalPlan.loop, tasksPlan, incKey, idKey]

/-- The check of the tasks plan sorts the tasks and leaves the rest alone. -/
theorem validate_tasks_v1_eq_ok
    {pl snap : PipelineSnapshot} (h : validate_tasks_v1 pl = .ok snap) :
    ∃ tasks, snap = { pl with tasks := tasks } := by
  simp only [validate_tasks_v1] at h
  split at h
  · exact ⟨pl.tasks, (Except.ok.inj h).symm⟩
  · simp only [check_eq_ok_iff, bind_eq_ok_iff] at h
    obtain ⟨-, -, -, -, h⟩ := h
    split at h
    · obtain ⟨-, hthrow, -⟩ := h
    · rw [check_eq_ok_iff] at h
      exact ⟨_, (pure_eq_ok_iff.mp h.2).symm⟩

/-- A pipeline without tasks runs its own query. -/
theorem run_body_of_no_tasks
    (w : World) (p : P) {pl : PipelineSnapshot}
    (htasks : pl.tasks = []) (hmode : pl.mode = .incremental) :
    _run_body w p pl = run_sql_incremental_pipeline w p pl := by
  simp [_run_body, htasks, hmode]

/-- Without tasks, the target of the pipeline decides whether batches go to the session. -/
theorem transactional_of_no_tasks
    {w : World} {p : P} {pl : PipelineSnapshot} {bl : BatchLoop P}
    (h : _run_body w p pl = .ok bl) (htasks : pl.tasks = []) (hmode : pl.mode = .incremental)
    (htarget : resolve_writer pl.target_table = .postgres) :
    bl.transactional = true := by
  rw [run_body_of_no_tasks w p htasks hmode] at h
  obtain ⟨tr, -, rfl⟩ := run_sql_incremental_pipeline_eq_ok h
  simp [IncrementalPlan.loop, sqlPlan, htarget]

/-- A pipeline with tasks runs its tasks. -/
theorem run_body_of_tasks
    {w : World} {p : P} {pl : PipelineSnapshot} {bl : BatchLoop P}
    (h : _run_body w p pl = .ok bl) (htasks : pl.tasks ≠ []) (hmode : pl.mode = .incremental) :
    ∃ tasks, validate_tasks_v1 pl = .ok { pl with tasks := tasks } ∧
      run_tasks_incremental w p { pl with tasks := tasks } = .ok bl := by
  rw [_run_body, if_pos htasks] at h
  obtain ⟨snap, hvalid, h⟩ := bind_eq_ok_iff.mp h
  obtain ⟨tasks, rfl⟩ := validate_tasks_v1_eq_ok hvalid
  simp only [hmode] at h
  rw [← hmode] at h
  exact ⟨tasks, hvalid, h⟩

/-- **Every incremental run has a plan**, and is pure when the modules are. -/
theorem exists_plan
    {w : World} {p : P} {pl : PipelineSnapshot} {bl : BatchLoop P}
    (h : _run_body w p pl = .ok bl) (hmode : pl.mode = .incremental) :
    ∃ plan : IncrementalPlan, bl = plan.loop w p ∧
      ((∀ path fn, w.modules path = .ok fn → fn.Pure) → bl.Pure) := by
  by_cases htasks : pl.tasks = []
  · rw [run_body_of_no_tasks w p htasks hmode] at h
    obtain ⟨tr, -, rfl⟩ := run_sql_incremental_pipeline_eq_ok h
    exact ⟨_, rfl, fun hpure rows res hres => Transformer.left_eq hpure hres⟩
  · obtain ⟨tasks, -, h⟩ := run_body_of_tasks h htasks hmode
    obtain ⟨reader, rest, fns, -, hfns, rfl⟩ := run_tasks_incremental_eq_ok h
    refine ⟨_, rfl, fun hpure rows res hres => ?_⟩
    obtain rfl := Except.ok.inj hres
    refine applyTransforms_pure (fun fn hfn => ?_) rows
    obtain ⟨t, -, ht⟩ := mem_of_mapM hfns hfn
    exact hpure t.body fn ht

/-- **Two runs of one pipeline with different modules** follow plans that differ in their
transforms only. -/
theorem exists_plans
    {w : World} {m₁ m₂ : Modules} {p : P} {pl : PipelineSnapshot} {bl₁ bl₂ : BatchLoop P}
    (h₁ : _run_body { w with modules := m₁ } p pl = .ok bl₁)
    (h₂ : _run_body { w with modules := m₂ } p pl = .ok bl₂)
    (hmode : pl.mode = .incremental) :
    ∃ (plan : IncrementalPlan) (tr₁ tr₂ : List Row → Except Exc Transformed),
      plan.inc_key = incKey pl ∧ plan.id_key = idKey pl ∧
      bl₁ = (plan.withTransform tr₁).loop w p ∧ bl₂ = (plan.withTransform tr₂).loop w p := by
  by_cases htasks : pl.tasks = []
  · rw [run_body_of_no_tasks _ p htasks hmode] at h₁ h₂
    obtain ⟨tr₁, -, rfl⟩ := run_sql_incremental_pipeline_eq_ok h₁
    obtain ⟨tr₂, -, rfl⟩ := run_sql_incremental_pipeline_eq_ok h₂
    refine ⟨sqlPlan pl (tr₁.transform m₁), tr₁.transform m₁, tr₂.transform m₂, rfl, rfl, ?_, ?_⟩
    · rw [sqlPlan_withTransform, IncrementalPlan.loop_with_modules]
    · rw [sqlPlan_withTransform, IncrementalPlan.loop_with_modules]
  · obtain ⟨tasks, hvalid, h₁⟩ := run_body_of_tasks h₁ htasks hmode
    obtain ⟨tasks', hvalid', h₂⟩ := run_body_of_tasks h₂ htasks hmode
    obtain rfl : tasks = tasks' := by
      have hsnap := Except.ok.inj (hvalid.symm.trans hvalid')
      exact congrArg PipelineSnapshot.tasks hsnap
    obtain ⟨reader, rest, fns₁, hcons, -, rfl⟩ := run_tasks_incremental_eq_ok h₁
    obtain ⟨reader', rest', fns₂, hcons', -, rfl⟩ := run_tasks_incremental_eq_ok h₂
    obtain ⟨rfl, rfl⟩ := List.cons.inj (hcons.symm.trans hcons')
    refine ⟨tasksPlan { pl with tasks := tasks } reader
        (fun rows => .ok (applyTransforms fns₁ rows)),
      fun rows => .ok (applyTransforms fns₁ rows), fun rows => .ok (applyTransforms fns₂ rows),
      rfl, rfl, ?_, ?_⟩
    · rw [tasksPlan_withTransform, IncrementalPlan.loop_with_modules]
    · rw [tasksPlan_withTransform, IncrementalPlan.loop_with_modules]

end Plans

end EtlPlatform
