import EtlPlatform.Proofs.FullCoverage
import EtlPlatform.Proofs.RunnerEquivalence

/-!
# The two full runners

`run_sql_full_pipeline` continues behind the rows it has fetched,
`run_tasks_full` one batch size further on.  On a source that is only appended
to they read the same batches, commit the same sinks and end in the same way,
unless a batch comes up short, rows are appended before the next query, and the
tasks runner skips some of them.
-/

namespace EtlPlatform
namespace FullRuns

open Library
open EtlPlatform.Sequential (Surroundings)

/-! ## Equal windows -/

section Windows

variable {w : World} {env : Surroundings} {plan : FullPlan} {batch batch' : ℕ → List Row}

/-- The round has read rows, they were written, and nobody asked for a pause. -/
def GoesOn (w : World) (env : Surroundings) (plan : FullPlan) (i : ℕ) (rows : List Row) : Prop :=
  rows ≠ [] ∧ env.status (i + 1) ≠ .PAUSE_REQUESTED ∧ ∃ items, plan.items w rows = .ok items

section Logs

variable (w : World) (env : Surroundings) (plan : FullPlan) (batch : ℕ → List Row)

/-- The first query of a run is behind what was seen before, if the rest of it only adds to
the log. -/
theorem windowRun_succ_extends
    {fuel : ℕ} (hrest : ∀ i total_read total_written (s : Session), s.seen <+: (sessionAfter
      (windowRun w env plan batch fuel i total_read total_written s)).seen)
    (i total_read total_written : ℕ) (s : Session) :
    (s.queried (pageQuery plan 0) (.ok (batch i))).seen <+: (sessionAfter
      (windowRun w env plan batch (fuel + 1) i total_read total_written s)).seen := by
  rw [windowRun]
  by_cases hnil : batch i = []
  · simp only [hnil, if_true]
    exact List.prefix_rfl
  · simp only [hnil, if_false]
    cases plan.items w (batch i) with
    | error exc =>
        exact List.prefix_rfl
    | ok items =>
        have hserved : (s.queried (pageQuery plan 0) (.ok (batch i))).seen <+:
            ((s.queried (pageQuery plan 0) (.ok (batch i))).served items).seen :=
          List.prefix_append _ _
        dsimp only
        split_ifs
        · exact hserved
        · exact hserved.trans (hrest _ _ _ _)

/-- A run only adds to the log. -/
theorem windowRun_extends
    (fuel i total_read total_written : ℕ) (s : Session) :
    s.seen <+: (sessionAfter
      (windowRun w env plan batch fuel i total_read total_written s)).seen := by
  induction fuel generalizing i total_read total_written s with
  | zero =>
      exact List.prefix_rfl
  | succ fuel ih =>
      have hquery : s.seen <+: (s.queried (pageQuery plan 0) (.ok (batch i))).seen :=
        List.prefix_append _ _
      exact hquery.trans (windowRun_succ_extends w env plan batch ih _ _ _ _)

/-- The first query of a run is behind what was seen before. -/
theorem windowRun_query
    (fuel i total_read total_written : ℕ) (s : Session) :
    (s.queried (pageQuery plan 0) (.ok (batch i))).seen <+: (sessionAfter
      (windowRun w env plan batch (fuel + 1) i total_read total_written s)).seen :=
  windowRun_succ_extends w env plan batch (windowRun_extends w env plan batch fuel) _ _ _ _

end Logs

/-- **Two runs come to the same exactly if they read the same batches** in every round that is
reached. -/
theorem windowRun_eq_iff
    (fuel i total_read total_written : ℕ) (s : Session) :
    windowRun w env plan batch fuel i total_read total_written s =
        windowRun w env plan batch' fuel i total_read total_written s ↔
      ∀ k < fuel, (∀ j < k, GoesOn w env plan (i + j) (batch' (i + j))) →
        batch (i + k) = batch' (i + k) := by
  induction fuel generalizing i total_read total_written s with
  | zero =>
      exact iff_of_true rfl fun k hk => absurd hk (Nat.not_lt_zero k)
  | succ fuel ih =>
      by_cases heq : batch i = batch' i
      · have hends : ¬ GoesOn w env plan i (batch' i) →
            ∀ k < fuel + 1, (∀ j < k, GoesOn w env plan (i + j) (batch' (i + j))) →
              batch (i + k) = batch' (i + k) := by
          intro hnot k _ hreached
          cases k with
          | zero =>
              exact heq
          | succ k =>
              exact absurd (hreached 0 (Nat.succ_pos k)) hnot
        rw [windowRun, windowRun, heq]
        by_cases hnil : batch' i = []
        · simp only [hnil, if_true]
          exact iff_of_true trivial (hends fun h => h.1 hnil)
        · simp only [hnil, if_false]
          cases hitems : plan.items w (batch' i) with
          | error exc =>
              refine iff_of_true rfl (hends fun h => ?_)
              obtain ⟨-, -, items, hok⟩ := h
              rw [hitems] at hok
              cases hok
          | ok items =>
              by_cases hpaused : env.status (i + 1) = .PAUSE_REQUESTED
              · simp only [hpaused, if_true]
                exact iff_of_true trivial (hends fun h => h.2.1 hpaused)
              · simp only [hpaused, if_false]
                rw [ih]
                have hgoes : GoesOn w env plan i (batch' i) := ⟨hnil, hpaused, items, hitems⟩
                constructor
                · intro hrest k hk hreached
                  cases k with
                  | zero =>
                      exact heq
                  | succ k =>
                      have hnext := hrest k (Nat.lt_of_succ_lt_succ hk) fun j hj => by
                        have hj' := hreached (j + 1) (Nat.succ_lt_succ hj)
                        rwa [← Nat.add_assoc, Nat.add_right_comm] at hj'
                      rwa [Nat.add_right_comm, Nat.add_assoc] at hnext
                · intro hall k hk hreached
                  have hnext := hall (k + 1) (Nat.succ_lt_succ hk) fun j hj => by
                    cases j with
                    | zero =>
                        exact hgoes
                    | succ j =>
                        have hj' := hreached j (Nat.lt_of_succ_lt_succ hj)
                        rwa [Nat.add_right_comm, Nat.add_assoc] at hj'
                  rwa [← Nat.add_assoc, Nat.add_right_comm] at hnext
      · refine iff_of_false (fun hsame => heq ?_) fun hall => heq ?_
        · have hbatch := windowRun_query w env plan batch fuel i total_read
            total_written s
          have hbatch' := windowRun_query w env plan batch' fuel i total_read
            total_written s
          rw [hsame] at hbatch
          have hlogs := List.prefix_of_prefix_length_le hbatch hbatch' (by simp [Session.queried])
          have hlast := hlogs.eq_of_length (by simp [Session.queried])
          have hsingle := List.append_cancel_left hlast
          simpa using hsingle
        · exact hall 0 (Nat.succ_pos fuel) fun j hj => absurd hj (Nat.not_lt_zero j)

end Windows

/-! ## The same run, described twice -/

section Runners

/-- A pipeline without tasks and one with tasks that describe the same full run: one query, one
batch size, one allowed target, and a transform that makes of a batch what the tasks make of
it. -/
structure SameRun (w : World) (pl tasks : PipelineSnapshot) (fns : List TransformFn)
    (transformer : Transformer) : Prop where
  mode : pl.mode = .full
  query : ∃ reader rest, tasks.tasks = reader :: rest ∧ pl.source_query = some reader.body
  query_set : PyText.truthy pl.source_query = true
  batch_size : tasks.batch_size = pl.batch_size
  target : finalTarget tasks = pl.target_table
  allowed : is_allowed_target pl.target_table = true
  loaded : loadTransforms w tasks = .ok fns
  resolved : resolve_transformer pl = .ok transformer
  transforms : ∀ rows, transformer.transform w.modules rows = .ok (applyTransforms fns rows)

/-- Two pipelines with one transform each, under one path. -/
theorem transforms_of_single
    {w : World} {path : String} {fn : TransformFn} (hmodule : w.modules path = .ok fn)
    (rows : List Row) :
    (Transformer.pythonCallable path).transform w.modules rows =
      .ok (applyTransforms [fn] rows) := by
  rw [Transformer.transform, hmodule, applyTransforms, applyTransforms]
  have hrows : (if (fn rows).rows = [] then [] else (fn rows).rows) = (fn rows).rows := by
    split_ifs with hnil
    · exact hnil.symm
    · rfl
  rw [hrows]
  rfl

variable {w : World} {env : Surroundings} {pl tasks : PipelineSnapshot}
variable {fns : List TransformFn} {transformer : Transformer} {table : ℕ → List Row}

/-- Both pipelines have one plan. -/
theorem SameRun.tasksPlan_eq
    (h : SameRun w pl tasks fns transformer) {reader : TaskSnapshot}
    (hquery : pl.source_query = some reader.body) :
    tasksPlan tasks reader fns = sqlPlan w pl transformer := by
  have htransform : (fun rows => .ok (applyTransforms fns rows)) =
      transformer.transform w.modules :=
    funext fun rows => (h.transforms rows).symm
  simp only [tasksPlan, sqlPlan, h.batch_size, h.target, htransform, hquery, Option.getD_some]

/-- The run with tasks is the loop of this plan. -/
theorem SameRun.run_tasks_eq
    (h : SameRun w pl tasks fns transformer) (env : Surroundings) (fuel : ℕ) :
    run_tasks_full w env tasks fuel =
      pageLoop w env (sqlPlan w pl transformer) (oneBatchOn (batchSizeOr pl.batch_size)) fuel 1 0
        0 0 := by
  obtain ⟨reader, rest, htasks, hquery⟩ := h.query
  have hloop := tasksLoop_eq_pageLoop w env tasks reader fns fuel 1 0 0 0
  rw [h.tasksPlan_eq hquery, h.target, h.batch_size] at hloop
  simp only [run_tasks_full, htasks, h.target, h.allowed, h.loaded, h.batch_size, Bool.not_true,
    Bool.false_eq_true, if_false, ofExcept_ok, pure_bind, hloop]

theorem SameRun.sqlChecks_eq
    (h : SameRun w pl tasks fns transformer) :
    sqlChecks pl = .ok transformer := by
  simp only [sqlChecks, h.mode, h.query_set, h.resolved, ne_eq, not_true_eq_false, if_false,
    Bool.not_true, Bool.false_eq_true]

/--
The tasks runner skips rows.  Batch `n + 1` comes up short, rows are appended
before the next query, and at a batch `m + 1` that is reached behind it the rows
that follow those already read are not the rows `m` batch sizes on.  Without
repeated rows this is so at the next batch.
-/
structure SkipsRows (w : World) (env : Surroundings) (pl : PipelineSnapshot)
    (transformer : Transformer) (table : ℕ → List Row) (n m : ℕ) : Prop where
  later : n < m
  reached : ∀ j < m,
    window (batchSizeOr pl.batch_size) (j * batchSizeOr pl.batch_size) (table j) ≠ [] ∧
      env.status (j + 1) ≠ .PAUSE_REQUESTED ∧
      ∃ items res, transformer.transform w.modules
          (window (batchSizeOr pl.batch_size) (j * batchSizeOr pl.batch_size) (table j)) =
            .ok res ∧
        (resolve_writer pl.target_table).write w.storeRow pl.target_table res.rows = .ok items
  short : (table n).length < (n + 1) * batchSizeOr pl.batch_size
  grown : (table n).length < (table (n + 1)).length
  differ :
    window (batchSizeOr pl.batch_size)
        ((table n).length + (m - (n + 1)) * batchSizeOr pl.batch_size) (table m) ≠
      window (batchSizeOr pl.batch_size) (m * batchSizeOr pl.batch_size) (table m)

/-- The two loops over one source come to the same exactly if no rows are skipped. -/
theorem pageLoops_agree_iff
    {plan : FullPlan} (hlimit : 0 < plan.limit)
    (hsource : ∀ i, env.source (i + 1) (baseQuery plan.base) = .ok (table i)) (sink : Sink) :
    (∀ fuel,
      withoutOffsets (pageLoop w env plan (oneBatchOn plan.limit) fuel 1 0 0 0
          (Session.opened sink)) =
        withoutOffsets (pageLoop w env plan behindRows fuel 1 0 0 0 (Session.opened sink))) ↔
      ¬ ∃ n m, n < m ∧
        (∀ j < m, GoesOn w env plan j (window plan.limit (j * plan.limit) (table j))) ∧
        (table n).length < (n + 1) * plan.limit ∧ (table n).length < (table (n + 1)).length ∧
        window plan.limit ((table n).length + (m - (n + 1)) * plan.limit) (table m) ≠
          window plan.limit (m * plan.limit) (table m) := by
  have hsql : ∀ fuel, withoutOffsets
      (pageLoop w env plan behindRows fuel 1 0 0 0 (Session.opened sink)) =
        windowRun w env plan (fun i => window plan.limit (followed plan.limit table i) (table i))
          fuel 0 0 0 (Session.opened sink) := fun fuel =>
    pageLoop_eq_windowRun plan behindRows (followed plan.limit table) hsource (fun _ => rfl) rfl
      fuel 0 0 0
  have htasks : ∀ fuel, withoutOffsets
      (pageLoop w env plan (oneBatchOn plan.limit) fuel 1 0 0 0 (Session.opened sink)) =
        windowRun w env plan (fun i => window plan.limit (i * plan.limit) (table i))
          fuel 0 0 0 (Session.opened sink) := by
    intro fuel
    have hclean : (Session.opened sink).pending = [] := rfl
    have hloop := pageLoop_eq_windowRun (w := w) plan (oneBatchOn plan.limit)
      (fun i => i * plan.limit) hsource (fun i => Nat.succ_mul i plan.limit) hclean fuel 0 0 0
    simp only [Nat.zero_mul, Nat.zero_add] at hloop
    exact hloop
  rw [← alike_iff table hlimit fun j hj => hj.1]
  simp only [hsql, htasks, eq_comm (a := windowRun w env plan
    (fun i => window plan.limit (i * plan.limit) (table i)) _ _ _ _ _), windowRun_eq_iff,
    Nat.zero_add]
  exact ⟨fun h i hreached => h (i + 1) i (Nat.lt_succ_self i) hreached,
    fun h _ k _ hreached => h k hreached⟩

/-- Rows are skipped when the loop of the plan skips them. -/
theorem exists_skipsRows_iff
    {plan : FullPlan} (hplan : plan = sqlPlan w pl transformer)
    (hlimit : plan.limit = batchSizeOr pl.batch_size) {n m : ℕ} :
    SkipsRows w env pl transformer table n m ↔
      n < m ∧ (∀ j < m, GoesOn w env plan j (window plan.limit (j * plan.limit) (table j))) ∧
        (table n).length < (n + 1) * plan.limit ∧ (table n).length < (table (n + 1)).length ∧
        window plan.limit ((table n).length + (m - (n + 1)) * plan.limit) (table m) ≠
          window plan.limit (m * plan.limit) (table m) := by
  have hgoes : ∀ j rows, GoesOn w env plan j rows ↔
      rows ≠ [] ∧ env.status (j + 1) ≠ .PAUSE_REQUESTED ∧
        ∃ items res, transformer.transform w.modules rows = .ok res ∧
          (resolve_writer pl.target_table).write w.storeRow pl.target_table res.rows =
            .ok items := by
    intro j rows
    rw [GoesOn, hplan]
    simp only [sqlPlan_items_eq_ok_iff]
  simp only [hgoes, hlimit]
  exact ⟨fun ⟨hlater, hreached, hshort, hgrown, hdiffer⟩ =>
      ⟨hlater, hreached, hshort, hgrown, hdiffer⟩,
    fun ⟨hlater, hreached, hshort, hgrown, hdiffer⟩ =>
      ⟨hlater, hreached, hshort, hgrown, hdiffer⟩⟩

/--
**The two full runners agree exactly if no rows are skipped.**  Whatever one
source holds at each query, they read the same batches, commit the same sinks
and return or raise the same, unless a short batch is followed by rows that are
appended before the next query.
-/
theorem full_runners_agree_iff
    (w : World) (pl tasks : PipelineSnapshot) (fns : List TransformFn) (transformer : Transformer)
    (h : SameRun w pl tasks fns transformer) (env : Surroundings) (table : ℕ → List Row)
    (sink : Sink)
    (hsource : ∀ i, env.source (i + 1) (baseQuery (pl.source_query.getD "")) = .ok (table i)) :
    (∀ fuel, withoutOffsets (run_tasks_full w env tasks fuel (Session.opened sink)) =
        withoutOffsets (run_sql_full_pipeline w env pl fuel (Session.opened sink))) ↔
      ¬ ∃ n m, SkipsRows w env pl transformer table n m := by
  obtain ⟨plan, hplan, hbase, hlimit⟩ : ∃ plan, plan = sqlPlan w pl transformer ∧
      plan.base = pl.source_query.getD "" ∧ plan.limit = batchSizeOr pl.batch_size :=
    ⟨_, rfl, rfl, rfl⟩
  have htasks : ∀ fuel, run_tasks_full w env tasks fuel =
      pageLoop w env plan (oneBatchOn plan.limit) fuel 1 0 0 0 := by
    intro fuel
    rw [h.run_tasks_eq, hplan, ← hlimit, hplan]
  have hsql : ∀ fuel, run_sql_full_pipeline w env pl fuel =
      pageLoop w env plan behindRows fuel 1 0 0 0 := by
    intro fuel
    rw [run_sql_eq_checks, h.sqlChecks_eq, ofExcept_ok, pure_bind, hplan]
  have hpos : 0 < plan.limit := hlimit ▸ batchSizeOr_pos _
  rw [← hbase] at hsource
  simp only [exists_skipsRows_iff hplan hlimit, htasks, hsql]
  exact pageLoops_agree_iff hpos hsource sink

/-! ### A film that is skipped -/

/-- The film pipeline with a transform, as its module or as its second task. -/
def titledFilms : PipelineSnapshot :=
  { snapshot_pipeline (filmPipeline .full 2 .RUNNING) with
    type := .PYTHON
    python_module := some "tasks.without_alien" }

def titledFilmsTasks : PipelineSnapshot :=
  { snapshot_pipeline (filmPipeline .full 2 .RUNNING) with
    tasks := [⟨1, "SQL", filmQuery, none⟩, ⟨2, "PYTHON", "tasks.without_alien", none⟩] }

theorem titledFilms_sameRun :
    SameRun Sequential.filmWorld titledFilms titledFilmsTasks [Sequential.withoutAlien]
      (.pythonCallable "tasks.without_alien") where
  mode := rfl
  query := ⟨_, _, rfl, rfl⟩
  query_set := by decide +kernel
  batch_size := rfl
  target := by decide +kernel
  allowed := by decide +kernel
  loaded := rfl
  resolved := by decide +kernel
  transforms := transforms_of_single rfl

/-- Two films, and a third one behind them from the second query on. -/
def laterFilms : ℕ → List Row
  | 0 => twoFilms
  | _ + 1 => twoFilms ++ [filmRow "f3" "Solaris" (january 6 (by decide))]

/-- Nobody pauses while the film comes. -/
def whileFilmsCome : Surroundings where
  source n := filmSource (laterFilms (n - 1))
  status _ := .RUNNING

/-- The film comes behind a full batch: both runners read it. -/
theorem full_runners_agree_on_later_films :
    withoutOffsets (run_tasks_full Sequential.filmWorld whileFilmsCome titledFilmsTasks 4
        (Session.opened fun _ => none)) =
      withoutOffsets (run_sql_full_pipeline Sequential.filmWorld whileFilmsCome titledFilms 4
        (Session.opened fun _ => none)) := by
  have hquery : baseQuery (titledFilms.source_query.getD "") = filmQuery := by decide +kernel
  refine (full_runners_agree_iff Sequential.filmWorld titledFilms titledFilmsTasks _ _
    titledFilms_sameRun whileFilmsCome laterFilms (fun _ => none) (fun i => ?_)).mpr ?_ 4
  · rw [hquery]
    rfl
  · rintro ⟨n, m, hskips⟩
    cases n with
    | zero =>
        exact absurd hskips.short (by decide)
    | succ n =>
        exact absurd hskips.grown (lt_irrefl _)

/-- The film comes behind a short batch: the tasks runner never reads it. -/
theorem full_runners_differ_on_growing_films :
    (∀ i, growingFilms i <+: growingFilms (i + 1)) ∧
      (∃ s', run_sql_full_pipeline Sequential.filmWorld whileFilmsGrow titledFilms 3
        (Session.opened fun _ => none) = .ok (some (2, 1)) s') ∧
      (∃ s', run_tasks_full Sequential.filmWorld whileFilmsGrow titledFilmsTasks 3
        (Session.opened fun _ => none) = .ok (some (1, 0)) s') ∧
      ¬ ∀ fuel, withoutOffsets (run_tasks_full Sequential.filmWorld whileFilmsGrow
          titledFilmsTasks fuel (Session.opened fun _ => none)) =
        withoutOffsets (run_sql_full_pipeline Sequential.filmWorld whileFilmsGrow titledFilms
          fuel (Session.opened fun _ => none)) := by
  have hsql : ∃ s', run_sql_full_pipeline Sequential.filmWorld whileFilmsGrow titledFilms 3
      (Session.opened fun _ => none) = .ok (some (2, 1)) s' := ⟨_, rfl⟩
  have htasks : ∃ s', run_tasks_full Sequential.filmWorld whileFilmsGrow titledFilmsTasks 3
      (Session.opened fun _ => none) = .ok (some (1, 0)) s' := ⟨_, rfl⟩
  refine ⟨growingFilms_appended, hsql, htasks, fun hsame => ?_⟩
  obtain ⟨s, hs⟩ := hsql
  obtain ⟨s', hs'⟩ := htasks
  have hthree := hsame 3
  rw [hs, hs'] at hthree
  cases (EStateM.Result.ok.inj hthree).1

end Runners

end FullRuns
end EtlPlatform
