import EtlPlatform.Proofs.FullRounds

/-!
# Full runs and the steps of the process

A round of a full run is what the process does with its batch loop when every
statement succeeds: it leaves the same sink and goes on at the same place, and
it touches no checkpoint.
-/

namespace EtlPlatform
namespace FullRuns

open Library

variable {P : Type} [DecidableEq P]

/-! ## The batch loops of the process -/

section Loops

/-- The loop variables after a round. -/
def nextVars (next : ℕ → List Row → ℕ) (v : LoopVars) (rows : List Row) (written : ℕ) :
    LoopVars :=
  { v with
    offset := next v.offset rows
    total_read := v.total_read + rows.length
    total_written := v.total_written + written }

/-- The batch loop of a plan. -/
def FullPlan.loop (w : World) (plan : FullPlan) (next : ℕ → List Row → ℕ) : BatchLoop P where
  setup _ := .ok (LoopVars.initial none)
  query st v := _wrap_query_with_limit_offset st.source plan.base plan.limit v.offset
  transform := plan.transform
  write := plan.writer.write w.storeRow plan.target
  transactional := plan.writer = .postgres
  advance v fetched _ written := .ok (nextVars next v fetched written, [])

omit [DecidableEq P] in
/-- The process runs the loop of the same plan for a pipeline without tasks. -/
theorem run_sql_full_pipeline_eq_ok
    {w : World} {pl : PipelineSnapshot} {bl : BatchLoop P}
    (h : EtlPlatform.run_sql_full_pipeline w pl = .ok bl) :
    ∃ transformer, resolve_transformer pl = .ok transformer ∧
      bl = (sqlPlan w pl transformer).loop w behindRows := by
  simp only [EtlPlatform.run_sql_full_pipeline, check_eq_ok_iff, bind_eq_ok_iff,
    pure_eq_ok_iff] at h
  obtain ⟨-, -, transformer, hresolved, rfl⟩ := h
  refine ⟨transformer, hresolved, ?_⟩
  dsimp only [FullPlan.loop, sqlPlan, advanceFull, nextVars, behindRows]

omit [DecidableEq P] in
/-- And for one with tasks. -/
theorem run_tasks_full_eq_ok
    {w : World} {pl : PipelineSnapshot} {bl : BatchLoop P}
    (h : EtlPlatform.run_tasks_full w pl = .ok bl) :
    ∃ reader rest fns, pl.tasks = reader :: rest ∧ loadTransforms w pl = .ok fns ∧
      bl = (tasksPlan pl reader fns).loop w (oneBatchOn (batchSizeOr pl.batch_size)) := by
  cases htasks : pl.tasks with
  | nil =>
      simp only [EtlPlatform.run_tasks_full, htasks] at h
      cases h
  | cons reader rest =>
      simp only [EtlPlatform.run_tasks_full, htasks, check_eq_ok_iff, bind_eq_ok_iff,
        pure_eq_ok_iff] at h
      obtain ⟨-, fns, hfns, rfl⟩ := h
      refine ⟨reader, rest, fns, rfl, hfns, ?_⟩
      dsimp only [FullPlan.loop, tasksPlan, advanceFull, nextVars, oneBatchOn]

omit [DecidableEq P] in
/-- The items of the loop are those of the plan. -/
theorem FullPlan.items_eq
    (w : World) (plan : FullPlan) (next : ℕ → List Row → ℕ) (rows : List Row) :
    plan.items w rows = plan.transform rows >>= fun res =>
      (plan.loop w next : BatchLoop P).itemsOf res.rows := by
  have hitems : ∀ out, (plan.loop w next : BatchLoop P).itemsOf out =
      plan.writer.write w.storeRow plan.target out := by
    intro out
    unfold BatchLoop.itemsOf
    split_ifs with hnil
    · rw [hnil, Writer.write_nil]
    · rfl
  simp only [FullPlan.items, hitems]

end Loops

/-! ## Rounds and statements -/

section Steps

/-- Where the process stands after what a round answered. -/
def stageAfter (w : World) (k r : ℕ) (bl : BatchLoop P) (next : ℕ → List Row → ℕ) (v : LoopVars) :
    EStateM.Result Exc Session (Option (List Row × ℕ)) → Stage P
  | .ok none _ => .loop k r bl (.close .exhausted v)
  | .ok (some (rows, written)) _ => .loop k r bl (.pauseRead (nextVars next v rows written))
  | .error exc _ => onExecuteExc w k r exc

/-- From the write of a batch to the pause check: its items are in the sink. -/
theorem loopSteps_serve
    {w : World} (db : Db P) (p : P) (k r : ℕ) {plan : FullPlan} {next : ℕ → List Row → ℕ}
    (v : LoopVars) (rows : List Row) {res : Transformed} {items : List Item}
    (hitems : (plan.loop w next : BatchLoop P).itemsOf res.rows = .ok items) :
    ∃ db', loopSteps w p k r (plan.loop w next)
        ⟨db, [], .loop k r (plan.loop w next) (.write v rows res)⟩ (List.replicate 3 .ok) =
          some ⟨db', [], .loop k r (plan.loop w next)
            (.pauseRead (nextVars next v rows items.length))⟩ ∧
      db'.store = { db.store with sink := applyItems db.store.sink items } := by
  by_cases hnil : res.rows = []
  · rw [BatchLoop.itemsOf, if_pos hnil] at hitems
    obtain rfl := Except.ok.inj hitems
    refine ⟨db.commit [], ?_, rfl⟩
    simp [loopSteps, exec, loopStep, answerRead, answerCommit, answer, hnil, FullPlan.loop,
      List.replicate]
  · rw [BatchLoop.itemsOf, if_neg hnil] at hitems
    have hwrite : plan.writer.write w.storeRow plan.target res.rows = .ok items := hitems
    cases hwriter : plan.writer with
    | postgres =>
        refine ⟨db.commit (items.map .upsert), ?_, Store.commit_upserts _ _⟩
        rw [hwriter] at hwrite
        simp [loopSteps, exec, loopStep, writeStep, answerRead, answerCommit, answer, hnil,
          FullPlan.loop, hwriter, hwrite, List.replicate]
    | elasticsearch =>
        refine ⟨(db.applySink items).commit [], ?_, rfl⟩
        rw [hwriter] at hwrite
        simp [loopSteps, exec, loopStep, writeStep, answerRead, answerCommit, answer, hnil,
          FullPlan.loop, hwriter, hwrite, List.replicate]

/-- Rows that a round refuses end the attempt, with nothing written. -/
theorem loopSteps_refused
    {w : World} {db : Db P} {p : P} (k r : ℕ) {plan : FullPlan} {next : ℕ → List Row → ℕ}
    {v : LoopVars} {rows : List Row} {exc : Exc}
    (hquery : (plan.loop w next : BatchLoop P).query db.store v = .ok rows) (hne : rows ≠ [])
    (hitems : plan.items w rows = .error exc) :
    ∃ n, loopSteps w p k r (plan.loop w next)
        ⟨db, [], .loop k r (plan.loop w next) (.fetch v)⟩ (List.replicate n .ok) =
          some ⟨db, [], onExecuteExc w k r exc⟩ := by
  rw [FullPlan.items_eq (P := P) w plan next] at hitems
  have htransform : (plan.loop w next : BatchLoop P).transform rows = plan.transform rows := rfl
  rcases bind_eq_error_iff.mp hitems with hres | ⟨res, hres, hwrite⟩
  · refine ⟨2, ?_⟩
    simp [loopSteps, exec, loopStep, answerRead, answer, stageOf, hquery, hne, htransform, hres,
      List.replicate]
  · refine ⟨3, ?_⟩
    have hread := loopSteps_read w p k r hquery hne (htransform.trans hres)
    exact exec_append hread (Sequential.loopSteps_refused w db p k r v rows hwrite)

/-- **A round is what the process does**: when every statement succeeds, the steps from the
loop head to the pause check, or to where the loop ends, leave the sink as the round does and
the checkpoints alone. -/
theorem loopSteps_pageRound
    (w : World) {db : Db P} (p : P) (k r : ℕ) (plan : FullPlan) (next : ℕ → List Row → ℕ)
    (v : LoopVars) {s : Session} (hsink : s.sink = db.store.sink) (hclean : s.pending = []) :
    ∃ n a, loopSteps w p k r (plan.loop w next)
        ⟨db, [], .loop k r (plan.loop w next) (.fetch v)⟩ (List.replicate n .ok) = some a ∧
      a.stage = stageAfter w k r (plan.loop w next) next v
        (pageRound w plan db.store.source v.offset s) ∧
      a.db.store = { db.store with
        sink := (sessionAfter (pageRound w plan db.store.source v.offset s)).sink } ∧
      a.pending = [] := by
  rw [pageRound_eq _ _ hclean]
  dsimp only
  set s₁ := s.queried _ _ with hs₁
  have hsink₁ : s₁.sink = db.store.sink := hsink
  clear_value s₁
  have hquery : (plan.loop w next : BatchLoop P).query db.store v =
      _wrap_query_with_limit_offset db.store.source plan.base plan.limit v.offset := rfl
  have hsame : db.store = { db.store with sink := s₁.sink } := by
    rw [hsink₁]
  cases hrows : _wrap_query_with_limit_offset db.store.source plan.base plan.limit v.offset with
  | error exc =>
      refine ⟨1, ⟨db, [], onExecuteExc w k r exc⟩, ?_, rfl, hsame, rfl⟩
      simp [loopSteps, exec, loopStep, answerRead, answer, stageOf, hquery, hrows]
  | ok rows =>
      by_cases hnil : rows = []
      · simp only [hnil, if_true]
        refine ⟨1, ⟨db, [], .loop k r _ (.close .exhausted v)⟩, ?_, rfl, hsame, rfl⟩
        simp [loopSteps, exec, loopStep, answerRead, answer, stageOf, hquery, hrows, hnil]
      · simp only [hnil, if_false]
        cases hitems : plan.items w rows with
        | error exc =>
            obtain ⟨n, hsteps⟩ := loopSteps_refused (p := p) k r (hquery.trans hrows) hnil hitems
            exact ⟨n, _, hsteps, rfl, hsame, rfl⟩
        | ok items =>
            rw [FullPlan.items_eq (P := P) w plan next] at hitems
            obtain ⟨res, hres, hwrite⟩ := bind_eq_ok_iff.mp hitems
            have hread := loopSteps_read w p k r (hquery.trans hrows) hnil hres
            obtain ⟨db', hserve, hstore⟩ := loopSteps_serve db p k r v rows hwrite
            refine ⟨5, _, exec_append hread hserve, rfl, ?_, rfl⟩
            rw [hstore, ← hsink₁]
            rfl

end Steps

end FullRuns
end EtlPlatform
