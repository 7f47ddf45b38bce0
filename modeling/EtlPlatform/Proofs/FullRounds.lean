import EtlPlatform.Library.OffsetPaging
import EtlPlatform.Model.FullRuns
import EtlPlatform.Proofs.SequentialSteps

/-!
# Rounds of a full loop

Both full runners go round one loop and differ in the offset of the next query:
`run_sql_full_pipeline` continues behind the rows it has fetched,
`run_tasks_full` one batch size further on.  Apart from the offsets in its
queries, what a loop does is given by the windows it reads.
-/

namespace EtlPlatform
namespace FullRuns

open Library
open EtlPlatform.Sequential (Surroundings)

/-! ## Programs -/

section Programs

variable {α β : Type}

@[simp] theorem ofExcept_ok
    (a : α) :
    (ofExcept (.ok a) : RunnerM α) = pure a := by
  rfl

@[simp] theorem ofExcept_error
    (exc : Exc) (s : Session) :
    (ofExcept (.error exc) : RunnerM α) s = .error exc s := by
  rfl

/-- The session after a batch query. -/
def Session.queried (s : Session) (q : PageQuery) (answer : Except Exc (List Row)) : Session :=
  { s with seen := s.seen ++ [.query q answer] }

/-- The session after what a program answered. -/
def sessionAfter : EStateM.Result Exc Session α → Session
  | .ok _ s => s
  | .error _ s => s

theorem execute_of_ok
    {source : Source} {q : PageQuery} {rows : List Row} (s : Session)
    (h : _wrap_query_with_limit_offset source q.base_query q.limit q.offset = .ok rows) :
    execute source q s = .ok rows (s.queried q (.ok rows)) := by
  simp only [execute, h]
  rfl

theorem execute_of_error
    {source : Source} {q : PageQuery} {exc : Exc} (s : Session)
    (h : _wrap_query_with_limit_offset source q.base_query q.limit q.offset = .error exc) :
    execute source q s = .error exc (s.queried q (.error exc)) := by
  simp only [execute, h]
  rfl

/-- A batch query returns a window of the table it sees. -/
theorem wrap_query_eq_window
    {source : Source} {base_query : String} {table : List Row}
    (h : source (baseQuery base_query) = .ok table) (limit offset : ℕ) :
    _wrap_query_with_limit_offset source base_query limit offset =
      .ok (window limit offset table) := by
  rw [_wrap_query_with_limit_offset, h]
  rfl

end Programs

/-! ## The loop of both runners -/

/-- What a full run works with. -/
structure FullPlan where
  base : String
  limit : ℕ
  transform : List Row → Except Exc Transformed
  writer : Writer
  target : String

/-- The items a batch is written as. -/
def FullPlan.items (w : World) (plan : FullPlan) (rows : List Row) : Except Exc (List Item) := do
  let res ← plan.transform rows
  plan.writer.write w.storeRow plan.target res.rows

section Loop

variable (w : World) (env : Surroundings) (plan : FullPlan)

/-- Transform, write and commit a batch; how many items were written. -/
def serve (rows : List Row) : RunnerM ℕ := do
  let res ← ofExcept (plan.transform rows)
  let written ← if res.rows = [] then pure 0 else write w plan.writer plan.target res.rows
  commit
  return written

/-- One round of a full loop: the rows read and the number written, or none when there was
nothing to read. -/
def pageRound (source : Source) (offset : ℕ) : RunnerM (Option (List Row × ℕ)) := do
  let rows ← execute source { base_query := plan.base, limit := plan.limit, offset := offset }
  if rows = [] then
    return none
  let written ← serve w plan rows
  return some (rows, written)

/-- The loop of a plan, with the offset of the next query given by `next`. -/
def pageLoop (next : ℕ → List Row → ℕ) :
    (fuel batch_no offset total_read total_written : ℕ) → RunnerM (Option (ℕ × ℕ))
  | 0, _, _, _, _ => return none
  | fuel + 1, batch_no, offset, total_read, total_written => do
      match ← pageRound w plan (env.source batch_no) offset with
      | none => return some (total_read, total_written)
      | some (rows, written) =>
          if env.status batch_no = .PAUSE_REQUESTED then
            return some (total_read + rows.length, total_written + written)
          pageLoop next fuel (batch_no + 1) (next offset rows) (total_read + rows.length)
            (total_written + written)

/-- `offset = current_offset + fetched` -/
def behindRows (offset : ℕ) (rows : List Row) : ℕ :=
  offset + rows.length

/-- `offset += batch_size` -/
def oneBatchOn (batch_size : ℕ) (offset : ℕ) (_rows : List Row) : ℕ :=
  offset + batch_size

end Loop

section Runners

variable {w : World} {env : Surroundings} {pl : PipelineSnapshot}

/-- The plan of `run_sql_full_pipeline`. -/
def sqlPlan (w : World) (pl : PipelineSnapshot) (transformer : Transformer) : FullPlan where
  base := pl.source_query.getD ""
  limit := batchSizeOr pl.batch_size
  transform := transformer.transform w.modules
  writer := resolve_writer pl.target_table
  target := pl.target_table

/-- The plan of `run_tasks_full` with the given reader. -/
def tasksPlan (pl : PipelineSnapshot) (reader : TaskSnapshot) (fns : List TransformFn) :
    FullPlan where
  base := reader.body
  limit := batchSizeOr pl.batch_size
  transform rows := .ok (applyTransforms fns rows)
  writer := resolve_writer (finalTarget pl)
  target := finalTarget pl

/-- `run_sql_full_pipeline` runs the loop of its plan. -/
theorem sqlLoop_eq_pageLoop
    (w : World) (env : Surroundings) (pl : PipelineSnapshot) (transformer : Transformer)
    (fuel batch_no offset total_read total_written : ℕ) :
    sqlLoop w env (pl.source_query.getD "") (batchSizeOr pl.batch_size) transformer
        (resolve_writer pl.target_table) pl.target_table fuel batch_no offset total_read
        total_written =
      pageLoop w env (sqlPlan w pl transformer) behindRows fuel batch_no offset total_read
        total_written := by
  induction fuel generalizing batch_no offset total_read total_written with
  | zero =>
      rfl
  | succ fuel ih =>
      simp only [sqlLoop, pageLoop, pageRound, serve, bind_assoc, ih, List.length_eq_zero_iff]
      refine bind_congr fun rows => ?_
      by_cases hnil : rows = []
      · simp only [hnil, if_true, pure_bind]
      · simp only [hnil, if_false, sqlPlan, bind_assoc, behindRows]
        refine bind_congr fun res => ?_
        by_cases hres : res.rows = []
        · simp only [hres, if_true, bind_assoc, pure_bind, add_zero]
        · simp only [hres, if_false, bind_assoc, pure_bind, bind_map_left]

/-- `run_tasks_full` runs the loop of its plan. -/
theorem tasksLoop_eq_pageLoop
    (w : World) (env : Surroundings) (pl : PipelineSnapshot) (reader : TaskSnapshot)
    (fns : List TransformFn) (fuel batch_no offset total_read total_written : ℕ) :
    tasksLoop w env reader.body (batchSizeOr pl.batch_size) fns (resolve_writer (finalTarget pl))
        (finalTarget pl) fuel batch_no offset total_read total_written =
      pageLoop w env (tasksPlan pl reader fns) (oneBatchOn (batchSizeOr pl.batch_size)) fuel
        batch_no offset total_read total_written := by
  induction fuel generalizing batch_no offset total_read total_written with
  | zero =>
      rfl
  | succ fuel ih =>
      simp only [tasksLoop, pageLoop, pageRound, serve, bind_assoc, ih]
      refine bind_congr fun rows => ?_
      by_cases hnil : rows = []
      · simp only [hnil, if_true, pure_bind]
      · simp only [hnil, if_false, tasksPlan, ofExcept_ok, pure_bind, bind_assoc, oneBatchOn]
        by_cases hres : (applyTransforms fns rows).rows = []
        · simp only [hres, if_true, bind_assoc, pure_bind, add_zero]
        · simp only [hres, if_false, bind_assoc, pure_bind, bind_map_left]

end Runners

/-! ## A round, evaluated -/

section Rounds

variable {w : World} {env : Surroundings} {plan : FullPlan} {s : Session}
variable {rows : List Row} {items : List Item} {exc : Exc}

/-- The session after a batch is written and committed. -/
def Session.served (s : Session) (items : List Item) : Session where
  sink := applyItems s.sink items
  pending := []
  seen := s.seen ++ [.committed (applyItems s.sink items)]

theorem serve_of_error
    (h : plan.items w rows = .error exc) :
    serve w plan rows s = .error exc s := by
  unfold serve
  rw [bind_apply]
  rcases bind_eq_error_iff.mp h with hres | ⟨res, hres, hwrite⟩
  · rw [hres, ofExcept_error]
  · have hne : res.rows ≠ [] := by
      intro hnil
      rw [hnil, Writer.write_nil] at hwrite
      cases hwrite
    rw [hres, ofExcept_ok, pure_apply]
    dsimp only
    rw [if_neg hne, bind_apply, write, hwrite]
    rfl

theorem serve_of_ok
    (hclean : s.pending = []) (h : plan.items w rows = .ok items) :
    serve w plan rows s = .ok items.length (s.served items) := by
  obtain ⟨res, hres, hwrite⟩ := bind_eq_ok_iff.mp h
  obtain ⟨sink, pending, seen⟩ := s
  obtain rfl : pending = [] := hclean
  unfold serve
  rw [bind_apply, hres, ofExcept_ok, pure_apply]
  dsimp only
  by_cases hnil : res.rows = []
  · rw [hnil, Writer.write_nil] at hwrite
    obtain rfl := Except.ok.inj hwrite
    rw [if_pos hnil]
    rfl
  · rw [if_neg hnil, bind_apply, write, hwrite]
    cases plan.writer <;> rfl

/-- The batch query of a plan. -/
def pageQuery (plan : FullPlan) (offset : ℕ) : PageQuery where
  base_query := plan.base
  limit := plan.limit
  offset := offset

/-- **A round, evaluated**: its query returns a batch that is served, or it ends the loop. -/
theorem pageRound_eq
    (source : Source) (offset : ℕ) (hclean : s.pending = []) :
    pageRound w plan source offset s =
      let answer := _wrap_query_with_limit_offset source plan.base plan.limit offset
      let s := s.queried (pageQuery plan offset) answer
      match answer with
      | .error exc => .error exc s
      | .ok rows =>
          if rows = [] then .ok none s
          else
            match plan.items w rows with
            | .error exc => .error exc s
            | .ok items => .ok (some (rows, items.length)) (s.served items) := by
  change (execute source (pageQuery plan offset) >>= fun rows => _) s = _
  rw [bind_apply]
  cases hquery : _wrap_query_with_limit_offset source plan.base plan.limit offset with
  | error exc =>
      have hanswer := execute_of_error (q := pageQuery plan offset) s hquery
      rw [hanswer]
  | ok rows =>
      have hanswer := execute_of_ok (q := pageQuery plan offset) s hquery
      rw [hanswer]
      dsimp only
      by_cases hnil : rows = []
      · simp only [hnil, if_true]
        rfl
      · simp only [hnil, if_false]
        rw [bind_apply]
        cases hitems : plan.items w rows with
        | error exc =>
            rw [serve_of_error hitems]
        | ok items =>
            have hserved := serve_of_ok (s := s.queried (pageQuery plan offset) (.ok rows))
              hclean hitems
            rw [hserved]
            rfl

/-- The loop, evaluated round by round. -/
theorem pageLoop_succ
    {next : ℕ → List Row → ℕ} {batch_no : ℕ} {table : List Row}
    (hsource : env.source batch_no (baseQuery plan.base) = .ok table) (hclean : s.pending = [])
    (fuel offset total_read total_written : ℕ) :
    pageLoop w env plan next (fuel + 1) batch_no offset total_read total_written s =
      let rows := window plan.limit offset table
      let s := s.queried (pageQuery plan offset) (.ok rows)
      if rows = [] then .ok (some (total_read, total_written)) s
      else
        match plan.items w rows with
        | .error exc => .error exc s
        | .ok items =>
            if env.status batch_no = .PAUSE_REQUESTED then
              .ok (some (total_read + rows.length, total_written + items.length)) (s.served items)
            else
              pageLoop w env plan next fuel (batch_no + 1) (next offset rows)
                (total_read + rows.length) (total_written + items.length) (s.served items) := by
  rw [pageLoop, bind_apply, pageRound_eq _ _ hclean]
  simp only [wrap_query_eq_window hsource]
  by_cases hnil : window plan.limit offset table = []
  · simp only [hnil, if_true]
    rfl
  · simp only [hnil, if_false]
    cases plan.items w (window plan.limit offset table) with
    | error exc =>
        rfl
    | ok items =>
        dsimp only
        split_ifs <;> rfl

end Rounds

/-! ## Runs without their offsets -/

section Windows

/-- An event without the offset of its query. -/
def Seen.withoutOffset : Seen → Seen
  | .query q answer => .query { q with offset := 0 } answer
  | .committed sink => .committed sink

/-- A session without the offsets of its queries. -/
def Session.withoutOffsets (s : Session) : Session :=
  { s with seen := s.seen.map Seen.withoutOffset }

/-- What a run has come to, without the offsets of its queries: the totals it returned or the
exception it raised, the batches it read, the sinks it committed and what it left behind. -/
def withoutOffsets {α : Type} : EStateM.Result Exc Session α → EStateM.Result Exc Session α
  | .ok a s => .ok a s.withoutOffsets
  | .error exc s => .error exc s.withoutOffsets

variable {w : World} {env : Surroundings} {plan : FullPlan} {s : Session}

/-- A run that reads these batches, one a round. -/
def windowRun (w : World) (env : Surroundings) (plan : FullPlan) (batch : ℕ → List Row) :
    (fuel i total_read total_written : ℕ) → Session →
      EStateM.Result Exc Session (Option (ℕ × ℕ))
  | 0, _, _, _, s => .ok none s
  | fuel + 1, i, total_read, total_written, s =>
      let s := s.queried (pageQuery plan 0) (.ok (batch i))
      if batch i = [] then .ok (some (total_read, total_written)) s
      else
        match plan.items w (batch i) with
        | .error exc => .error exc s
        | .ok items =>
            if env.status (i + 1) = .PAUSE_REQUESTED then
              .ok (some (total_read + (batch i).length, total_written + items.length))
                (s.served items)
            else
              windowRun w env plan batch fuel (i + 1) (total_read + (batch i).length)
                (total_written + items.length) (s.served items)

theorem withoutOffsets_queried
    (s : Session) (offset : ℕ) (answer : Except Exc (List Row)) :
    (s.queried (pageQuery plan offset) answer).withoutOffsets =
      s.withoutOffsets.queried (pageQuery plan 0) answer := by
  simp [Session.withoutOffsets, Session.queried, Seen.withoutOffset, pageQuery]

theorem withoutOffsets_served
    (s : Session) (items : List Item) :
    (s.served items).withoutOffsets = s.withoutOffsets.served items := by
  simp [Session.withoutOffsets, Session.served, Seen.withoutOffset]

/-- **Apart from its offsets, a loop is given by the windows it reads.** -/
theorem pageLoop_eq_windowRun
    (plan : FullPlan) (next : ℕ → List Row → ℕ) (offset : ℕ → ℕ) {table : ℕ → List Row}
    (hsource : ∀ i, env.source (i + 1) (baseQuery plan.base) = .ok (table i))
    (hnext : ∀ i, offset (i + 1) = next (offset i) (window plan.limit (offset i) (table i)))
    (hclean : s.pending = []) (fuel i total_read total_written : ℕ) :
    withoutOffsets
        (pageLoop w env plan next fuel (i + 1) (offset i) total_read total_written s) =
      windowRun w env plan (fun i => window plan.limit (offset i) (table i)) fuel i total_read
        total_written s.withoutOffsets := by
  induction fuel generalizing i total_read total_written s with
  | zero =>
      rfl
  | succ fuel ih =>
      rw [pageLoop_succ (hsource i) hclean, windowRun]
      dsimp only
      by_cases hnil : window plan.limit (offset i) (table i) = []
      · simp only [hnil, if_true, withoutOffsets, withoutOffsets_queried]
      · simp only [hnil, if_false]
        cases plan.items w (window plan.limit (offset i) (table i)) with
        | error exc =>
            simp only [withoutOffsets, withoutOffsets_queried]
        | ok items =>
            dsimp only
            by_cases hpaused : env.status (i + 1) = .PAUSE_REQUESTED
            · simp only [hpaused, if_true, withoutOffsets, withoutOffsets_served,
                withoutOffsets_queried]
            · simp only [hpaused, if_false]
              rw [← hnext, ih rfl, withoutOffsets_served, withoutOffsets_queried]

end Windows

end FullRuns
end EtlPlatform
