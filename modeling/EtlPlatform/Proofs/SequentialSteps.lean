import EtlPlatform.Proofs.RunnerEquivalence
import EtlPlatform.Proofs.TransformIsolation

/-!
# Sequential runs and the steps of the process

A round of a sequential run is what the process does with its batch loop when
every statement succeeds.  Both runners are seen as the loop of a plan; each
round of it, however it ends, is matched by steps of the process that leave the
same tables.
-/

namespace EtlPlatform
namespace Sequential

open Library

section Programs

variable {P : Type} {α β : Type}

@[simp] theorem ofExcept_error
    (exc : Exc) (s : Session P) :
    (ofExcept (.error exc) : RunnerM P α) s = .error exc s := by
  rfl

/-- The session after a batch query. -/
def Session.queried (s : Session P) (q : BatchQuery) (answer : Except Exc (List Row)) :
    Session P :=
  { s with seen := s.seen ++ [.query q answer] }

theorem execute_of_ok
    {w : World} {source : Source} {q : BatchQuery} {rows : List Row} (s : Session P)
    (h : incrementalBatch w.collation source q.base q.inc_key q.id_key q.last q.limit =
      .ok rows) :
    execute w source q s = .ok rows (s.queried q (.ok rows)) := by
  simp only [execute, h]
  rfl

theorem execute_of_error
    {w : World} {source : Source} {q : BatchQuery} {exc : Exc} (s : Session P)
    (h : incrementalBatch w.collation source q.base q.inc_key q.id_key q.last q.limit =
      .error exc) :
    execute w source q s = .error exc (s.queried q (.error exc)) := by
  simp only [execute, h]
  rfl

/-- The session after a write. -/
def Session.written (s : Session P) (writer : Writer) (items : List Item) : Session P :=
  match writer with
  | .postgres => { s with pending := s.pending ++ items.map .upsert }
  | .elasticsearch => { s with store := { s.store with sink := applyItems s.store.sink items } }

@[simp] theorem written_seen
    (s : Session P) (writer : Writer) (items : List Item) :
    (s.written writer items).seen = s.seen := by
  cases writer <;> rfl

theorem write_of_ok
    {w : World} {writer : Writer} {target : String} {rows : List Row} {items : List Item}
    (s : Session P) (h : writer.write w.storeRow target rows = .ok items) :
    write w writer target rows s = .ok items.length (s.written writer items) := by
  cases writer <;> simp only [write, h] <;> rfl

theorem write_of_error
    {w : World} {writer : Writer} {target : String} {rows : List Row} {exc : Exc}
    (s : Session P) (h : writer.write w.storeRow target rows = .error exc) :
    write w writer target rows s = .error exc s := by
  simp only [write, h]
  rfl

variable [DecidableEq P]

/-- The session after the checkpoint is written and the batch is committed. -/
def Session.checkpointed (s : Session P) (p : P) (c : Cursor) : Session P :=
  let store := s.store.commit (s.pending ++ [.state p (encodeState c)])
  { store := store, pending := [],
    seen := s.seen ++ [.committed store.sink (store.etl_state p)] }

/-- The checkpoint of the batch is stored, whatever else was pending. -/
@[simp] theorem checkpointed_etl_state
    (s : Session P) (p : P) (c : Cursor) :
    (s.checkpointed p c).store.etl_state p = some (encodeState c) := by
  simp only [Session.checkpointed, Store.commit_append, Store.commit_state, Function.update_self]

end Programs

section Rounds

variable {P : Type} [DecidableEq P]

/-- The batch query of a plan at a cursor. -/
def batchQuery (plan : IncrementalPlan) (c : Option Cursor) : BatchQuery where
  base := plan.base
  inc_key := plan.inc_key
  id_key := plan.id_key
  last := c
  limit := plan.limit

/-- Write the rows of a batch, if there are any. -/
def send (w : World) (writer : Writer) (target : String) (rows : List Row) : RunnerM P ℕ :=
  if rows = [] then pure 0 else write w writer target rows

/-- One round of an incremental loop: the next loop variables, or none when there was
nothing to read. -/
def planRound (w : World) (source : Source) (p : P) (plan : IncrementalPlan) (v : LoopVars) :
    RunnerM P (Option LoopVars) := do
  let src_rows ← execute w source (batchQuery plan v.cursor)
  if src_rows = [] then
    return none
  let res ← ofExcept (plan.transform src_rows)
  let written ← send w plan.writer plan.target res.rows
  let c ← ofExcept (tailCursor plan.inc_key plan.id_key res.left)
  upsert p c
  commit p
  return some { v with
    cursor := some c
    total_read := v.total_read + src_rows.length
    total_written := v.total_written + written }

/-- The loop of a plan, round by round. -/
def planLoop (w : World) (env : Surroundings) (p : P) (plan : IncrementalPlan) :
    (fuel batch_no : ℕ) → LoopVars → RunnerM P (Option (ℕ × ℕ))
  | 0, _, _ => return none
  | fuel + 1, batch_no, v => do
      match ← planRound w (env.source batch_no) p plan v with
      | none => return some (v.total_read, v.total_written)
      | some v' =>
          if env.status batch_no = .PAUSE_REQUESTED then
            return some (v'.total_read, v'.total_written)
          planLoop w env p plan fuel (batch_no + 1) v'

/-- `run_sql_incremental_pipeline` runs the loop of its plan. -/
theorem sqlLoop_eq_planLoop
    (w : World) (env : Surroundings) (p : P) (pl : PipelineSnapshot) (transformer : Transformer)
    (fuel batch_no : ℕ) (v : LoopVars) :
    sqlLoop w env p (baseQuery (pl.source_query.getD "")) (incKey pl) (idKey pl)
        (batchSizeOr pl.batch_size) transformer (resolve_writer pl.target_table) pl.target_table
        fuel batch_no v.cursor v.total_read v.total_written =
      planLoop w env p (sqlPlan pl (transformer.transform w.modules)) fuel batch_no v := by
  induction fuel generalizing batch_no v with
  | zero =>
      rfl
  | succ fuel ih =>
      simp only [sqlLoop, planLoop, planRound, bind_assoc, ← ih]
      refine bind_congr fun rows => ?_
      by_cases hnil : rows = []
      · simp only [hnil, if_true, pure_bind]
      · simp only [hnil, if_false, sqlPlan, bind_assoc]
        refine bind_congr fun res => ?_
        by_cases hres : res.rows = []
        · simp only [send, hres, if_true, pure_bind, add_zero]
        · simp only [send, hres, if_false, pure_bind]

/-- `run_tasks_incremental` runs the loop of its plan. -/
theorem tasksLoop_eq_planLoop
    (w : World) (env : Surroundings) (p : P) (pl : PipelineSnapshot) (reader : TaskSnapshot)
    (fns : List TransformFn) (fuel batch_no : ℕ) (v : LoopVars) :
    tasksLoop w env p (baseQuery reader.body) (incKey pl) (idKey pl) (batchSizeOr pl.batch_size)
        fns (resolve_writer (finalTarget pl)) (finalTarget pl) fuel batch_no v.cursor
        v.total_read v.total_written =
      planLoop w env p (tasksPlan pl reader (fun rows => .ok (applyTransforms fns rows))) fuel
        batch_no v := by
  induction fuel generalizing batch_no v with
  | zero =>
      rfl
  | succ fuel ih =>
      simp only [tasksLoop, planLoop, planRound, bind_assoc, ← ih]
      refine bind_congr fun rows => ?_
      by_cases hnil : rows = []
      · simp only [hnil, if_true, pure_bind]
      · simp only [hnil, if_false, tasksPlan, ofExcept_ok, pure_bind]
        by_cases hres : (applyTransforms fns rows).rows = []
        · simp only [send, hres, if_true, bind_assoc, pure_bind, add_zero]
        · simp only [send, hres, if_false, bind_assoc, pure_bind, bind_map_left]

omit [DecidableEq P] in
/-- What is sent is what the items of the loop say. -/
theorem send_of_ok
    {w : World} {p : P} {plan : IncrementalPlan} {rows : List Row} {items : List Item}
    (s : Session P) (h : (plan.loop w p).itemsOf rows = .ok items) :
    send w plan.writer plan.target rows s = .ok items.length (s.written plan.writer items) := by
  unfold BatchLoop.itemsOf at h
  split_ifs at h with hnil
  · obtain rfl := Except.ok.inj h
    rw [send, if_pos hnil, pure_apply]
    cases plan.writer <;> simp [Session.written]
  · rw [send, if_neg hnil]
    exact write_of_ok s h

omit [DecidableEq P] in
theorem send_of_error
    {w : World} {p : P} {plan : IncrementalPlan} {rows : List Row} {exc : Exc}
    (s : Session P) (h : (plan.loop w p).itemsOf rows = .error exc) :
    send w plan.writer plan.target rows s = .error exc s := by
  unfold BatchLoop.itemsOf at h
  split_ifs at h with hnil
  rw [send, if_neg hnil]
  exact write_of_error s h

/-- **A round, evaluated**: each of its statements returns, or ends it. -/
theorem planRound_eq
    (w : World) (source : Source) (p : P) (plan : IncrementalPlan) (v : LoopVars)
    (s : Session P) :
    planRound w source p plan v s =
      let answer := incrementalBatch w.collation source plan.base plan.inc_key plan.id_key
        v.cursor plan.limit
      let s := s.queried (batchQuery plan v.cursor) answer
      match answer with
      | .error exc => .error exc s
      | .ok rows =>
          if rows = [] then .ok none s
          else
            match plan.transform rows with
            | .error exc => .error exc s
            | .ok res =>
                match (plan.loop w p).itemsOf res.rows with
                | .error exc => .error exc s
                | .ok items =>
                    match tailCursor plan.inc_key plan.id_key res.left with
                    | .error exc => .error exc (s.written plan.writer items)
                    | .ok c =>
                        .ok
                          (some { v with
                            cursor := some c
                            total_read := v.total_read + rows.length
                            total_written := v.total_written + items.length })
                          ((s.written plan.writer items).checkpointed p c) := by
  unfold planRound
  cases hquery : incrementalBatch w.collation source plan.base plan.inc_key plan.id_key v.cursor
      plan.limit with
  | error exc =>
      rw [bind_apply, execute_of_error s hquery]
  | ok rows =>
      rw [bind_apply, execute_of_ok s hquery]
      by_cases hnil : rows = []
      · simp only [hnil, if_true]
        rfl
      · simp only [hnil, if_false]
        cases hres : plan.transform rows with
        | error exc =>
            simp only [bind_apply, ofExcept_error]
        | ok res =>
            rw [ofExcept_ok, pure_bind, bind_apply]
            cases hitems : (plan.loop w p).itemsOf res.rows with
            | error exc =>
                simp only [send_of_error _ hitems, hitems]
            | ok items =>
                simp only [send_of_ok _ hitems, hitems]
                cases htail : tailCursor plan.inc_key plan.id_key res.left with
                | error exc =>
                    rfl
                | ok c =>
                    rfl

/-! ## Rounds and statements -/

/-- Where the process stands after what a round answered. -/
def stageAfter (w : World) (k r : ℕ) (bl : BatchLoop P) (v : LoopVars) :
    EStateM.Result Exc (Session P) (Option LoopVars) → Stage P
  | .ok none _ => .loop k r bl (.close .exhausted v)
  | .ok (some v') _ => .loop k r bl (.pauseRead v')
  | .error exc _ => onExecuteExc w k r exc

/-- The session after what a program answered. -/
def sessionAfter {α : Type} : EStateM.Result Exc (Session P) α → Session P
  | .ok _ s => s
  | .error _ s => s

/-- The write of a batch leaves the tables and the session as `send` does. -/
theorem loopSteps_send
    {w : World} {db : Db P} {p : P} (k r : ℕ) {plan : IncrementalPlan} (v : LoopVars)
    (rows : List Row) {res : Transformed} {items : List Item} {s : Session P}
    (hitems : (plan.loop w p).itemsOf res.rows = .ok items)
    (hstore : s.store = db.store) (hclean : s.pending = []) :
    ∃ db' pending, loopSteps w p k r (plan.loop w p)
        ⟨db, [], .loop k r (plan.loop w p) (.write v rows res)⟩ [.ok] =
          some ⟨db', pending,
            .loop k r (plan.loop w p) (.advance v rows res.left items.length)⟩ ∧
      db'.store = (s.written plan.writer items).store ∧
      pending = (s.written plan.writer items).pending := by
  by_cases hnil : res.rows = []
  · rw [BatchLoop.itemsOf, if_pos hnil] at hitems
    obtain rfl := Except.ok.inj hitems
    refine ⟨db, [], ?_, ?_, ?_⟩
    · simp [loopSteps, exec, loopStep, answerRead, answer, hnil]
    · cases plan.writer <;> simp [Session.written, applyItems_nil, hstore]
    · cases plan.writer <;> simp [Session.written, hclean]
  · rw [BatchLoop.itemsOf, if_neg hnil] at hitems
    cases hwriter : plan.writer with
    | postgres =>
        have htx : (plan.loop w p).transactional = true := by
          simp [IncrementalPlan.loop, hwriter]
        refine ⟨db, items.map .upsert, ?_, ?_, ?_⟩
        · simp [loopSteps, exec, loopStep, writeStep, answer, hnil, hitems, htx]
        · simp [Session.written, hstore]
        · simp [Session.written, hclean]
    | elasticsearch =>
        have htx : (plan.loop w p).transactional = false := by
          simp [IncrementalPlan.loop, hwriter]
        refine ⟨db.applySink items, [], ?_, ?_, ?_⟩
        · simp [loopSteps, exec, loopStep, writeStep, answer, hnil, hitems, htx]
        · simp [Session.written, Db.applySink, hstore]
        · simp [Session.written, hclean]

/-- Rows that the writer refuses end the attempt. -/
theorem loopSteps_refused
    (w : World) (db : Db P) (p : P) (k r : ℕ) {bl : BatchLoop P} (v : LoopVars)
    (rows : List Row) {res : Transformed} {exc : Exc}
    (hitems : bl.itemsOf res.rows = .error exc) :
    loopSteps w p k r bl ⟨db, [], .loop k r bl (.write v rows res)⟩ [.ok] =
      some ⟨db, [], onExecuteExc w k r exc⟩ := by
  unfold BatchLoop.itemsOf at hitems
  split_ifs at hitems with hnil
  simp [loopSteps, exec, loopStep, answerRead, answer, hnil, hitems]

/-- From the advance to the pause check, or to the handler of what it raises. -/
theorem loopSteps_advance
    (w : World) (db : Db P) (p : P) (k r : ℕ) (pending : List (Write P)) {bl : BatchLoop P}
    (v : LoopVars) (rows left : List Row) (written : ℕ) :
    (∀ exc, bl.advance v rows left written = .error exc →
      loopSteps w p k r bl ⟨db, pending, .loop k r bl (.advance v rows left written)⟩ [.ok] =
        some ⟨db, pending, onExecuteExc w k r exc⟩) ∧
    (∀ v' ws, bl.advance v rows left written = .ok (v', ws) →
      loopSteps w p k r bl ⟨db, pending, .loop k r bl (.advance v rows left written)⟩
          [.ok, .ok] =
        some ⟨db.commit (pending ++ ws), [], .loop k r bl (.pauseRead v')⟩) := by
  constructor
  · intro exc hadv
    simp [loopSteps, exec, loopStep, answerRead, answer, hadv]
  · intro v' ws hadv
    simp [loopSteps, exec, loopStep, answerCommit, answer, hadv]

/-- **A round is what the process does**: when every statement succeeds, the steps from the
loop head to the pause check, or to where the loop ends, leave the tables and the session as
the round does. -/
theorem loopSteps_planRound
    (w : World) {db : Db P} (p : P) (k r : ℕ) (plan : IncrementalPlan) (v : LoopVars)
    {s : Session P} (hstore : s.store = db.store) (hclean : s.pending = []) :
    ∃ n a, loopSteps w p k r (plan.loop w p) ⟨db, [], .loop k r (plan.loop w p) (.fetch v)⟩
        (List.replicate n .ok) = some a ∧
      a.stage = stageAfter w k r (plan.loop w p) v (planRound w db.store.source p plan v s) ∧
      a.db.store = (sessionAfter (planRound w db.store.source p plan v s)).store ∧
      a.pending = (sessionAfter (planRound w db.store.source p plan v s)).pending := by
  rw [planRound_eq]
  dsimp only
  set s₁ := s.queried _ _ with hs₁
  have hstore₁ : s₁.store = db.store := hstore
  have hclean₁ : s₁.pending = [] := hclean
  clear_value s₁
  have hquery : (plan.loop w p).query db.store v =
      incrementalBatch w.collation db.store.source plan.base plan.inc_key plan.id_key v.cursor
        plan.limit := rfl
  cases hrows : incrementalBatch w.collation db.store.source plan.base plan.inc_key plan.id_key
      v.cursor plan.limit with
  | error exc =>
      refine ⟨1, ⟨db, [], onExecuteExc w k r exc⟩, ?_, rfl, hstore₁.symm, hclean₁.symm⟩
      simp [loopSteps, exec, loopStep, answerRead, answer, stageOf, hquery, hrows]
  | ok rows =>
      by_cases hnil : rows = []
      · simp only [hnil, if_true]
        refine ⟨1, ⟨db, [], .loop k r _ (.close .exhausted v)⟩, ?_, rfl, hstore₁.symm,
          hclean₁.symm⟩
        simp [loopSteps, exec, loopStep, answerRead, answer, stageOf, hquery, hrows, hnil]
      simp only [hnil, if_false]
      have htransform : (plan.loop w p).transform rows = plan.transform rows := rfl
      cases hres : plan.transform rows with
      | error exc =>
          refine ⟨2, ⟨db, [], onExecuteExc w k r exc⟩, ?_, rfl, hstore₁.symm, hclean₁.symm⟩
          simp [loopSteps, exec, loopStep, answerRead, answer, stageOf, hquery, hrows, hnil,
            htransform, hres, List.replicate]
      | ok res =>
          have hread := loopSteps_read w p k r (hquery.trans hrows) hnil (htransform.trans hres)
          cases hitems : (plan.loop w p).itemsOf res.rows with
          | error exc =>
              simp only [hitems]
              exact ⟨3, ⟨db, [], onExecuteExc w k r exc⟩,
                exec_append hread (loopSteps_refused w db p k r v rows hitems), rfl,
                hstore₁.symm, hclean₁.symm⟩
          | ok items =>
              simp only [hitems]
              obtain ⟨db', pending, hwrite, hdb, hpending⟩ :=
                loopSteps_send k r v rows hitems hstore₁ hclean₁
              have hadv : (plan.loop w p).advance =
                  advanceIncremental plan.inc_key plan.id_key p := rfl
              obtain ⟨hfails, hcommits⟩ :=
                loopSteps_advance w db' p k r pending v rows res.left items.length
              cases htail : tailCursor plan.inc_key plan.id_key res.left with
              | error exc =>
                  have hstep := hfails exc (by rw [hadv, advanceIncremental, htail]; rfl)
                  exact ⟨4, ⟨db', pending, onExecuteExc w k r exc⟩,
                    exec_append hread (exec_append hwrite hstep), rfl, hdb, hpending⟩
              | ok c =>
                  have hstep := hcommits _ _ (by rw [hadv, advanceIncremental, htail]; rfl)
                  refine ⟨5, _, exec_append hread (exec_append hwrite hstep), rfl, ?_, rfl⟩
                  rw [hpending, Db.commit, hdb]
                  rfl

end Rounds

end Sequential
end EtlPlatform
