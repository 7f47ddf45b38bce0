import EtlPlatform.Proofs.LoopProgress
import EtlPlatform.Proofs.PipelineProjection
import EtlPlatform.Proofs.RunHistory

/-!
# A dispatch on the tables of its pipeline

A dispatch reads the source, the row, the tasks and the checkpoint of its
pipeline, and writes the run rows and the checkpoint of its pipeline.  On the
tables of this pipeline alone it therefore takes the same steps, statement by
statement; in the tables of another pipeline it is not seen.
-/

namespace EtlPlatform

open Library

/-! ## Batch loops -/

section Loops

variable {P : Type} [DecidableEq P]

/-- The tables of `p` among those of a platform that has stored nothing else. -/
def Store.within (p : P) (st : Store Unit) : Store P where
  source := st.source
  etl_state q := if q = p then st.etl_state () else none
  sink := st.sink

/-- The batch loop of `p` on the tables of `p`. -/
def BatchLoop.only (p : P) (bl : BatchLoop P) : BatchLoop Unit where
  setup st := bl.setup (st.within p)
  query st v := bl.query (st.within p) v
  transform := bl.transform
  write := bl.write
  transactional := bl.transactional
  advance v fetched left written :=
    (bl.advance v fetched left written).map (fun x => (x.1, x.2.map Write.only))

/-- The loop reads the source and the checkpoint of `p`, and stores no other checkpoint. -/
structure BatchLoop.WorksFor (p : P) (bl : BatchLoop P) : Prop where
  setup : ∀ sink st, bl.setup ((Store.only p sink st).within p) = bl.setup st
  query : ∀ sink st v, bl.query ((Store.only p sink st).within p) v = bl.query st v
  advance : ∀ v fetched left n v' ws,
    bl.advance v fetched left n = .ok (v', ws) → SessionOf p ws

omit [DecidableEq P] in
theorem advanceIncremental_only
    (inc_key id_key : String) (p : P) (v : LoopVars) (fetched left : List Row) (n : ℕ) :
    (advanceIncremental inc_key id_key p v fetched left n).map
        (fun x => (x.1, x.2.map Write.only)) =
      advanceIncremental inc_key id_key () v fetched left n := by
  unfold advanceIncremental
  cases tailCursor inc_key id_key left <;> rfl

theorem run_sql_full_pipeline_only
    (w : World) (p : P) (pl : PipelineSnapshot) :
    run_sql_full_pipeline w pl = BatchLoop.only p <$> run_sql_full_pipeline w pl := by
  simp only [run_sql_full_pipeline, map_bind, map_pure,
    apply_ite (fun x => BatchLoop.only p <$> x), BatchLoop.only, advanceFull, Store.within,
    Except.map, List.map_nil]

theorem run_sql_incremental_pipeline_only
    (w : World) (p : P) (pl : PipelineSnapshot) :
    run_sql_incremental_pipeline w () pl =
      BatchLoop.only p <$> run_sql_incremental_pipeline w p pl := by
  simp only [run_sql_incremental_pipeline, map_bind, map_pure,
    apply_ite (fun x => BatchLoop.only p <$> x), BatchLoop.only, advanceIncremental_only,
    Store.within, if_true]

theorem run_tasks_full_only
    (w : World) (p : P) (pl : PipelineSnapshot) :
    run_tasks_full w pl = BatchLoop.only p <$> run_tasks_full w pl := by
  unfold run_tasks_full
  cases pl.tasks with
  | nil =>
      rfl
  | cons reader rest =>
      simp only [map_bind, map_pure, apply_ite (fun x => BatchLoop.only p <$> x),
        BatchLoop.only, advanceFull, Store.within, Except.map, List.map_nil]

theorem run_tasks_incremental_only
    (w : World) (p : P) (pl : PipelineSnapshot) :
    run_tasks_incremental w () pl = BatchLoop.only p <$> run_tasks_incremental w p pl := by
  unfold run_tasks_incremental
  cases pl.tasks with
  | nil =>
      rfl
  | cons reader rest =>
      simp only [map_bind, map_pure, apply_ite (fun x => BatchLoop.only p <$> x),
        BatchLoop.only, advanceIncremental_only, Store.within, if_true]

/-- **The executor picks the same runner** for a pipeline that has the platform to itself. -/
theorem _run_body_only
    (w : World) (p : P) (pl : PipelineSnapshot) :
    _run_body w () pl = BatchLoop.only p <$> _run_body w p pl := by
  unfold _run_body
  split_ifs
  · rw [map_bind]
    refine congrArg _ (funext fun snap => ?_)
    cases snap.mode with
    | full =>
        exact run_tasks_full_only w p snap
    | incremental =>
        exact run_tasks_incremental_only w p snap
  · cases pl.mode with
    | full =>
        exact run_sql_full_pipeline_only w p pl
    | incremental =>
        exact run_sql_incremental_pipeline_only w p pl

theorem IncrementalPlan.loop_worksFor
    (w : World) (p : P) (plan : IncrementalPlan) :
    (plan.loop w p).WorksFor p where
  setup sink st := by simp [IncrementalPlan.loop, Store.within, Store.only]
  query sink st v := rfl
  advance v fetched left n v' ws h := by
    obtain ⟨c, -, -, rfl⟩ := IncrementalPlan.advanceIncremental_eq_ok h
    intro q s hmem
    exact (Write.state.inj (List.mem_singleton.mp hmem)).1

theorem FullRuns.FullPlan.loop_worksFor
    (w : World) (p : P) (plan : FullRuns.FullPlan) (next : ℕ → List Row → ℕ) :
    (plan.loop w next : BatchLoop P).WorksFor p where
  setup sink st := rfl
  query sink st v := rfl
  advance v fetched left n v' ws h := by
    obtain ⟨-, rfl⟩ := Prod.mk.inj (Except.ok.inj h)
    exact sessionOf_nil p

/-- Every runner works for its pipeline. -/
theorem worksFor_of_run_body
    {w : World} {p : P} {pl : PipelineSnapshot} {bl : BatchLoop P}
    (h : _run_body w p pl = .ok bl) :
    bl.WorksFor p := by
  obtain ⟨snap, h | h | h | h⟩ := runnerLoop_of_run_body h
  · obtain ⟨tr, -, rfl⟩ := FullRuns.run_sql_full_pipeline_eq_ok h
    exact FullRuns.FullPlan.loop_worksFor w p _ _
  · obtain ⟨tr, -, rfl⟩ := run_sql_incremental_pipeline_eq_ok h
    exact IncrementalPlan.loop_worksFor w p _
  · obtain ⟨reader, rest, fns, -, -, rfl⟩ := FullRuns.run_tasks_full_eq_ok h
    exact FullRuns.FullPlan.loop_worksFor w p _ _
  · obtain ⟨reader, rest, fns, -, -, rfl⟩ := run_tasks_incremental_eq_ok h
    exact IncrementalPlan.loop_worksFor w p _

end Loops

/-! ## Await points -/

section Stages

variable {P : Type} [DecidableEq P]

/-- A stage of a dispatch of `p`, its run rows renamed. -/
def Stage.only (p : P) (index : ℕ → ℕ) : Stage P → Stage Unit
  | .snapshot => .snapshot
  | .startRun k => .startRun k
  | .runBody k r => .runBody k (index r)
  | .loop k r bl pc => .loop k (index r) (bl.only p) pc
  | .finishSuccess k r exit v => .finishSuccess k (index r) exit v
  | .getStatus k exit => .getStatus k exit
  | .finishIdle k exit => .finishIdle k exit
  | .rollback k r exc => .rollback k (index r) exc
  | .finishFailed k r exc => .finishFailed k (index r) exc
  | .sleep k delay => .sleep k delay
  | .failIfActive exc => .failIfActive exc
  | .returning res => .returning res

theorem Stage.only_congr
    {p : P} {index index' : ℕ → ℕ} {st : Stage P}
    (h : ∀ r, st.openRun = some r → index r = index' r) :
    st.only p index = st.only p index' := by
  cases st <;> simp_all [Stage.only, Stage.openRun]

theorem onDispatchExc_only
    (w : World) (p : P) (index : ℕ → ℕ) (k : ℕ) (exc : Exc) :
    (onDispatchExc w k exc : Stage P).only p index = onDispatchExc w k exc := by
  unfold onDispatchExc
  split_ifs
  · rfl
  · cases backoffDelay w.backoff_seconds k <;> rfl
  · rfl

theorem onExecuteExc_only
    (w : World) (p : P) (index : ℕ → ℕ) (k r : ℕ) (exc : Exc) :
    (onExecuteExc w k r exc : Stage P).only p index = onExecuteExc w k (index r) exc := by
  unfold onExecuteExc
  split_ifs
  · exact onDispatchExc_only w p index k exc
  · rfl

theorem stageOf_only
    {α : Type} (p : P) (index : ℕ → ℕ) (onExc : Exc → Stage P) (next : α → Stage P)
    (res : Except Exc α) :
    (stageOf onExc next res).only p index =
      stageOf (fun exc => (onExc exc).only p index) (fun x => (next x).only p index) res := by
  cases res <;> rfl

/-- On the cells of `K` two sinks hold the same. -/
def AgreeOn (K : Set Cell) (sink sink' : Sink) : Prop :=
  ∀ c ∈ K, sink c = sink' c

omit [DecidableEq P] in
theorem AgreeOn.applyItems
    {K : Set Cell} {sink sink' : Sink} (h : AgreeOn K sink sink') (items : List Item) :
    AgreeOn K (applyItems sink items) (applyItems sink' items) :=
  fun c hc => assignAll_congr _ (h c hc)

/-- Database and session of the platform of `p` next to those of the whole platform. -/
structure Shows (p : P) (K : Set Cell) (x : Db P × List (Write P))
    (y : Db Unit × List (Write Unit)) : Prop where
  db : ∃ sink, y.1 = x.1.only p sink ∧ AgreeOn K sink x.1.store.sink
  session : y.2 = x.2.map Write.only

/-- A step of the platform of `p` that answers a step of a dispatch. -/
def Follows (p : P) (K : Set Cell) (index : ℕ → ℕ) (a : After P) (o : Option (After Unit)) :
    Prop :=
  ∃ a', o = some a' ∧ Shows p K (a.db, a.pending) (a'.db, a'.pending) ∧
    a'.stage = a.stage.only p index

section Statements

variable {w : World} {p : P} {K : Set Cell} {index : ℕ → ℕ} {c : Choice}
variable {kept done : Db P × List (Write P)} {kept' done' : Db Unit × List (Write Unit)}
variable {next : Stage P} {next' : Stage Unit} {onExc : Exc → Stage P}
variable {onExc' : Exc → Stage Unit} {a : After P}

theorem Shows.lost
    {x : Db P × List (Write P)} {y : Db Unit × List (Write Unit)} (h : Shows p K x y) :
    Shows p K (x.1, []) (y.1, []) :=
  ⟨h.db, rfl⟩

/-- Both databases do the same, and the sink is left alone. -/
theorem Shows.of_update
    {x : Db P × List (Write P)} {y : Db Unit × List (Write Unit)} {db : Db P} {db' : Db Unit}
    (h : Shows p K x y) (hdb : ∀ sink, y.1 = x.1.only p sink → db' = db.only p sink)
    (hsink : db.store.sink = x.1.store.sink) :
    Shows p K (db, x.2) (db', y.2) := by
  obtain ⟨sink, hy, hK⟩ := h.db
  exact ⟨⟨sink, hdb sink hy, hsink ▸ hK⟩, h.session⟩

theorem Shows.commit
    {x : Db P × List (Write P)} {y : Db Unit × List (Write Unit)}
    (h : Shows p K x y) (hws : SessionOf p x.2) :
    Shows p K (x.1.commit x.2, []) (y.1.commit y.2, []) := by
  obtain ⟨sink, hy, hK⟩ := h.db
  refine ⟨⟨applyItems sink (upsertsOf x.2), ?_, ?_⟩, rfl⟩
  · rw [hy, h.session]
    exact (commit_only hws sink x.1).symm
  · have hsink : (x.1.commit x.2).store.sink = applyItems x.1.store.sink (upsertsOf x.2) :=
      Store.commit_sink x.1.store x.2
    rw [hsink]
    exact hK.applyItems _

theorem Shows.applySink
    {x : Db P × List (Write P)} {y : Db Unit × List (Write Unit)}
    (h : Shows p K x y) (items : List Item) :
    Shows p K (x.1.applySink items, x.2) (y.1.applySink items, y.2) := by
  obtain ⟨sink, hy, hK⟩ := h.db
  refine ⟨⟨EtlPlatform.applyItems sink items, ?_, hK.applyItems items⟩, h.session⟩
  rw [hy]
  rfl

omit [DecidableEq P] in
theorem Shows.status
    [DecidableEq P] {x : Db P × List (Write P)} {y : Db Unit × List (Write Unit)}
    (h : Shows p K x y) :
    y.1.status () = x.1.status p := by
  obtain ⟨sink, hy, -⟩ := h.db
  rw [hy]
  rfl

/-- **One statement.** -/
theorem answer_only
    (h : answer c kept done next onExc = some a)
    (hkept : Shows p K kept kept') (hdone : Shows p K done done')
    (hnext : next' = next.only p index) (hexc : ∀ exc, onExc' exc = (onExc exc).only p index) :
    Follows p K index a (answer c kept' done' next' onExc') := by
  rcases answer_cases h with ⟨rfl, rfl⟩ | ⟨exc, rfl, rfl⟩ | ⟨rfl, rfl⟩
  · exact ⟨_, rfl, hdone, hnext⟩
  · exact ⟨_, rfl, hkept, hexc exc⟩
  · exact ⟨_, rfl, hdone.lost, hexc connectionLost⟩

theorem answerRead_only
    (h : answerRead c kept next onExc = some a) (hkept : Shows p K kept kept')
    (hnext : next' = next.only p index) (hexc : ∀ exc, onExc' exc = (onExc exc).only p index) :
    Follows p K index a (answerRead c kept' next' onExc') :=
  answer_only h hkept hkept hnext hexc

/-- A statement that is committed with the session. -/
theorem answerCommit_only
    {db : Db P} {db' : Db Unit}
    (h : answerCommit c kept db next onExc = some a) (hkept : Shows p K kept kept')
    (hws : SessionOf p kept.2)
    (hdb : ∀ sink, kept'.1 = kept.1.only p sink → db' = db.only p sink)
    (hsink : db.store.sink = kept.1.store.sink)
    (hnext : next' = next.only p index) (hexc : ∀ exc, onExc' exc = (onExc exc).only p index) :
    Follows p K index a (answerCommit c kept' db' next' onExc') :=
  answer_only h hkept ((hkept.of_update hdb hsink).commit hws) hnext hexc

/-- A status update. -/
theorem answerUpdate_only
    {allowed : List PipelineStatus} {new : PipelineStatus}
    (h : answerUpdate c kept p allowed (Db.updateStatus allowed new) next onExc = some a)
    (hkept : Shows p K kept kept') (hws : SessionOf p kept.2)
    (hnext : next' = next.only p index) (hexc : ∀ exc, onExc' exc = (onExc exc).only p index) :
    Follows p K index a
      (answerUpdate c kept' () allowed (Db.updateStatus allowed new) next' onExc') := by
  unfold answerUpdate at h ⊢
  rw [hkept.status]
  by_cases hmem : kept.1.status p ∈ allowed
  · rw [if_pos hmem] at h ⊢
    refine answerCommit_only h hkept hws (fun sink hy => ?_) ?_ hnext hexc
    · rw [hy, updateStatus_only]
    · rw [Db.store_updateStatus]
  · rw [if_neg hmem] at h ⊢
    exact answerRead_only h hkept hnext hexc

variable {k r : ℕ} {bl : BatchLoop P}

theorem setup_only
    (hbl : bl.WorksFor p) (hkept : Shows p K kept kept') :
    (bl.only p).setup kept'.1.store = bl.setup kept.1.store := by
  obtain ⟨sink, hy, -⟩ := hkept.db
  rw [hy]
  exact hbl.setup sink kept.1.store

theorem query_only
    (hbl : bl.WorksFor p) (hkept : Shows p K kept kept') (v : LoopVars) :
    (bl.only p).query kept'.1.store v = bl.query kept.1.store v := by
  obtain ⟨sink, hy, -⟩ := hkept.db
  rw [hy]
  exact hbl.query sink kept.1.store v

/-- The write of a batch. -/
theorem writeStep_only
    {items : List Item}
    (h : writeStep kept bl items next onExc c = some a) (hkept : Shows p K kept kept')
    (hnext : next' = next.only p index) (hexc : ∀ exc, onExc' exc = (onExc exc).only p index) :
    Follows p K index a (writeStep kept' (bl.only p) items next' onExc' c) := by
  rcases writeStep_cases h with ⟨htx, hans⟩ | ⟨htx, hans | ⟨applied, exc, rfl, rfl⟩⟩
  · have hdone : Shows p K (kept.1, kept.2 ++ items.map .upsert)
        (kept'.1, kept'.2 ++ items.map .upsert) := by
      refine ⟨hkept.db, ?_⟩
      rw [List.map_append, map_only_upserts, hkept.session]
    unfold writeStep
    rw [if_pos (show (bl.only p).transactional = true from htx)]
    exact answer_only hans hkept hdone hnext hexc
  · have hfollows := answer_only hans hkept (hkept.applySink items) hnext hexc
    unfold writeStep
    rw [if_neg (show ¬ (bl.only p).transactional = true by simp [BatchLoop.only, htx])]
    cases c with
    | partialBulk applied exc =>
        cases hans
    | _ =>
        exact hfollows
  · unfold writeStep
    rw [if_neg (show ¬ (bl.only p).transactional = true by simp [BatchLoop.only, htx])]
    exact ⟨_, rfl, hkept.applySink (maskItems applied items), hexc exc⟩

/-- **One step of a batch loop.** -/
theorem loopStep_only
    {pc : LoopPc} (h : loopStep w kept p k r bl pc c = some a)
    (hbl : bl.WorksFor p) (hws : SessionOf p kept.2) (hkept : Shows p K kept kept') :
    Follows p K index a (loopStep w kept' () k (index r) (bl.only p) pc c) := by
  have hexc : ∀ exc, onExecuteExc w k (index r) exc =
      (onExecuteExc w k r exc : Stage P).only p index :=
    fun exc => (onExecuteExc_only w p index k r exc).symm
  cases pc with
  | setup =>
      refine answerRead_only h hkept ?_ hexc
      rw [setup_only hbl hkept, stageOf_only]
      simp only [← hexc]
      rfl
  | fetch v =>
      refine answerRead_only h hkept ?_ hexc
      rw [query_only hbl hkept, stageOf_only]
      simp only [← hexc, apply_ite (Stage.only p index)]
      rfl
  | transform v rows =>
      refine answerRead_only h hkept ?_ hexc
      rw [stageOf_only]
      simp only [← hexc]
      rfl
  | write v rows res =>
      rcases loopStep_write_cases h with ⟨hnil, h⟩ | ⟨exc, hne, hwrite, h⟩ |
        ⟨items, hne, hwrite, h⟩
      · simp only [loopStep, if_pos hnil]
        exact answerRead_only h hkept rfl hexc
      · simp only [loopStep, if_neg hne, show (bl.only p).write = bl.write from rfl, hwrite]
        exact answerRead_only h hkept (hexc exc) hexc
      · simp only [loopStep, if_neg hne, show (bl.only p).write = bl.write from rfl, hwrite]
        exact writeStep_only h hkept rfl hexc
  | advance v rows left n =>
      rcases loopStep_advance_cases h with ⟨exc, hadv, h⟩ | ⟨v', ws, hadv, h⟩
      · have hadv' : (bl.only p).advance v rows left n = .error exc := by
          simp [BatchLoop.only, hadv, Except.map]
        simp only [loopStep, hadv']
        exact answerRead_only h hkept (hexc exc) hexc
      · have hadv' : (bl.only p).advance v rows left n = .ok (v', ws.map Write.only) := by
          simp [BatchLoop.only, hadv, Except.map]
        simp only [loopStep, hadv']
        refine answer_only h hkept ⟨hkept.db, ?_⟩ rfl hexc
        rw [List.map_append, hkept.session]
  | commit v =>
      exact answerCommit_only h hkept hws (fun _ hy => hy) rfl rfl hexc
  | pauseRead v =>
      refine answerRead_only h hkept ?_ hexc
      rw [hkept.status, apply_ite (Stage.only p index)]
      rfl
  | pauseApply v =>
      exact answerUpdate_only h hkept hws rfl hexc
  | close exit v =>
      exact answerRead_only h hkept rfl hexc

/-- What a stage of a dispatch of `p` holds: its run row is one of `p`, its loop works for `p`. -/
structure Stage.WorksFor (p : P) (owners : List P) (st : Stage P) : Prop where
  owns : ∀ r, st.openRun = some r → owners[r]? = some p
  loop : ∀ k r bl pc, st = .loop k r bl pc → bl.WorksFor p

/-- **One step of a dispatch.** -/
theorem stageStep_only
    {snap : PipelineSnapshot} {st : Stage P} (h : stageStep w kept p snap st c = some a)
    (hst : st.WorksFor p kept.1.runOwners) (hws : SessionOf p kept.2)
    (hkept : Shows p K kept kept') :
    Follows p K (kept.1.runIndex p) a
      (stageStep w kept' () snap (st.only p (kept.1.runIndex p)) c) := by
  have hdis : ∀ k exc, onDispatchExc w k exc =
      (onDispatchExc w k exc : Stage P).only p (kept.1.runIndex p) :=
    fun k exc => (onDispatchExc_only w p _ k exc).symm
  have hexe : ∀ k r exc, onExecuteExc w k (kept.1.runIndex p r) exc =
      (onExecuteExc w k r exc : Stage P).only p (kept.1.runIndex p) :=
    fun k r exc => (onExecuteExc_only w p _ k r exc).symm
  cases st with
  | snapshot =>
      refine answerRead_only h hkept ?_ (fun _ => rfl)
      rw [apply_ite (Stage.only p _)]
      rfl
  | startRun k =>
      refine answerCommit_only h hkept hws (fun sink hy => ?_) rfl ?_ (hdis k)
      · rw [hy, start_run_only]
      · obtain ⟨sink, hy, -⟩ := hkept.db
        rw [Stage.only, runIndex_nextRun p sink, hy]
  | runBody k r =>
      refine answerRead_only h hkept ?_ (hexe k r)
      rw [stageOf_only, _run_body_only w p snap]
      cases hbody : (_run_body w p snap : Except Exc (BatchLoop P)) with
      | error exc =>
          exact hexe k r exc
      | ok bl =>
          rfl
  | loop k r bl pc =>
      exact loopStep_only h (hst.loop k r bl pc rfl) hws hkept
  | finishSuccess k r exit v =>
      refine answerCommit_only h hkept hws (fun sink hy => ?_) rfl rfl (hexe k r)
      rw [hy, finish_success_only (hst.owns r rfl)]
  | getStatus k exit =>
      refine answerRead_only h hkept ?_ (hdis k)
      rw [hkept.status, apply_ite (Stage.only p _)]
      rfl
  | finishIdle k exit =>
      exact answerUpdate_only h hkept hws rfl (hdis k)
  | rollback k r exc =>
      have hans : answer c (kept.1, []) (kept.1, []) (.finishFailed k r exc)
          (onDispatchExc w k) = some a := h
      exact answer_only hans hkept.lost hkept.lost rfl (hdis k)
  | finishFailed k r exc =>
      refine answerCommit_only h hkept hws (fun sink hy => ?_) rfl (hdis k exc) (hdis k)
      rw [hy, finish_failed_only (hst.owns r rfl)]
  | sleep k delay =>
      cases c with
      | ok =>
          obtain rfl := Option.some.inj h
          exact ⟨_, rfl, hkept, rfl⟩
      | _ =>
          cases h
  | failIfActive exc =>
      exact answerUpdate_only h hkept hws rfl (fun _ => rfl)
  | returning res =>
      cases h

end Statements

/-! ## What a dispatch keeps -/

section Keeping

variable {w : World} {p : P} {snap : PipelineSnapshot} {st : Stage P} {c : Choice}
variable {kept done : Db P × List (Write P)} {next : Stage P} {onExc : Exc → Stage P} {a : After P}

omit [DecidableEq P] in
theorem answer_sessionOf
    (h : answer c kept done next onExc = some a)
    (hkept : SessionOf p kept.2) (hdone : SessionOf p done.2) :
    SessionOf p a.pending := by
  rcases answer_cases h with ⟨-, rfl⟩ | ⟨exc, -, rfl⟩ | ⟨-, rfl⟩
  · exact hdone
  · exact hkept
  · exact sessionOf_nil p

theorem answerUpdate_sessionOf
    {q : P} {allowed : List PipelineStatus} {update : Db P → P → Db P}
    (h : answerUpdate c kept q allowed update next onExc = some a)
    (hkept : SessionOf p kept.2) :
    SessionOf p a.pending := by
  unfold answerUpdate at h
  split_ifs at h
  · exact answer_sessionOf h hkept (sessionOf_nil p)
  · exact answer_sessionOf h hkept hkept

/-- A loop that works for `p` adds its upserts and its checkpoint to the session. -/
theorem loopStep_sessionOf
    {k r : ℕ} {bl : BatchLoop P} {pc : LoopPc} (h : loopStep w kept p k r bl pc c = some a)
    (hbl : bl.WorksFor p) (hws : SessionOf p kept.2) :
    SessionOf p a.pending := by
  cases pc with
  | write v rows res =>
      rcases loopStep_write_cases h with ⟨-, h⟩ | ⟨exc, -, -, h⟩ | ⟨items, -, -, h⟩
      · exact answer_sessionOf h hws hws
      · exact answer_sessionOf h hws hws
      · rcases writeStep_cases h with ⟨-, hans⟩ | ⟨-, hans | ⟨applied, exc, -, rfl⟩⟩
        · exact answer_sessionOf hans hws (sessionOf_append hws (sessionOf_upserts p items))
        · exact answer_sessionOf hans hws hws
        · exact hws
  | advance v rows left n =>
      rcases loopStep_advance_cases h with ⟨exc, -, h⟩ | ⟨v', ws, hadv, h⟩
      · exact answer_sessionOf h hws hws
      · exact answer_sessionOf h hws (sessionOf_append hws (hbl.advance _ _ _ _ _ _ hadv))
  | commit v =>
      exact answer_sessionOf h hws (sessionOf_nil p)
  | pauseApply v =>
      exact answerUpdate_sessionOf h hws
  | _ =>
      exact answer_sessionOf h hws hws

theorem stageStep_sessionOf
    (h : stageStep w kept p snap st c = some a)
    (hst : st.WorksFor p kept.1.runOwners) (hws : SessionOf p kept.2) :
    SessionOf p a.pending := by
  cases st with
  | loop k r bl pc =>
      exact loopStep_sessionOf h (hst.loop k r bl pc rfl) hws
  | finishIdle k exit =>
      exact answerUpdate_sessionOf h hws
  | failIfActive exc =>
      exact answerUpdate_sessionOf h hws
  | rollback k r exc =>
      have hans : answer c (kept.1, []) (kept.1, []) (.finishFailed k r exc)
          (onDispatchExc w k) = some a := h
      exact answer_sessionOf hans (sessionOf_nil p) (sessionOf_nil p)
  | sleep k delay =>
      cases c with
      | ok =>
          obtain rfl := Option.some.inj h
          exact hws
      | _ =>
          cases h
  | returning res =>
      cases h
  | snapshot =>
      exact answer_sessionOf h hws hws
  | runBody k r =>
      exact answer_sessionOf h hws hws
  | getStatus k exit =>
      exact answer_sessionOf h hws hws
  | _ =>
      exact answer_sessionOf h hws (sessionOf_nil p)

/-- Run rows are only added. -/
theorem stageStep_owners_grow
    (h : stageStep w kept p snap st c = some a) :
    kept.1.runOwners <+: a.db.runOwners := by
  rcases stageStep_owners h with howners | ⟨-, howners⟩ <;> rw [howners]
  exact List.prefix_append _ _

omit [DecidableEq P] in
theorem getElem?_of_grown
    {l l' : List P} (h : l <+: l') {r : ℕ} {q : P} (hr : l[r]? = some q) :
    l'[r]? = some q := by
  obtain ⟨more, rfl⟩ := h
  rw [List.getElem?_append_left (List.getElem?_eq_some_iff.mp hr).1]
  exact hr

theorem Stage.WorksFor.of_grown
    {owners owners' : List P} (h : st.WorksFor p owners) (hgrown : owners <+: owners') :
    st.WorksFor p owners' :=
  ⟨fun r hr => getElem?_of_grown hgrown (h.owns r hr), h.loop⟩

/-- **A dispatch works for its pipeline**, step by step. -/
theorem stageStep_worksFor
    (h : stageStep w kept p snap st c = some a) (hst : st.WorksFor p kept.1.runOwners) :
    a.stage.WorksFor p a.db.runOwners := by
  have hgrown := stageStep_owners_grow h
  refine ⟨fun r hr => ?_, fun k r bl pc heq => ?_⟩
  · cases stageStep_runs h with
    | same _ hown =>
        rcases hown with hnone | hsame
        · rw [hnone] at hr
          cases hr
        · exact getElem?_of_grown hgrown (hst.owns r (hsame ▸ hr))
    | opened row hruns _ hown =>
        rcases hown with hnone | hlast
        · rw [hnone] at hr
          cases hr
        · obtain rfl := Option.some.inj (hlast.symm.trans hr)
          have hlen : a.db.runOwners.length = kept.1.runOwners.length + 1 := by
            simp [Db.runOwners, hruns]
          rcases stageStep_owners h with howners | ⟨-, howners⟩
          · rw [howners] at hlen
            omega
          · rw [howners]
            simp [Db.runOwners]
    | closed q f _ _ _ hnone =>
        rw [hnone] at hr
        cases hr
  · have hedge := stageStep_edge h
    rw [heq] at hedge
    cases hedge with
    | plans hbody =>
        exact worksFor_of_run_body hbody
    | loops _ =>
        exact hst.loop _ _ _ _ rfl
    | handled _ hhandles =>
        cases hhandles

/-! ### Another pipeline -/

variable {q : P}

theorem answer_only_of_ne
    (h : answer c kept done next onExc = some a) {sink : Sink}
    (hdone : done.1.only p sink = kept.1.only p sink) :
    a.db.only p sink = kept.1.only p sink := by
  rw [answer_db h]
  split_ifs
  · exact hdone
  · rfl

theorem answerCommit_only_of_ne
    {db : Db P} (h : answerCommit c kept db next onExc = some a) (hq : q ≠ p)
    (hws : SessionOf q kept.2) {sink : Sink} (hdb : db.only p sink = kept.1.only p sink) :
    a.db.only p sink = kept.1.only p sink :=
  answer_only_of_ne h ((commit_only_of_ne hws hq sink db).trans hdb)

theorem answerUpdate_only_of_ne
    {allowed : List PipelineStatus} {new : PipelineStatus}
    (h : answerUpdate c kept q allowed (Db.updateStatus allowed new) next onExc = some a)
    (hq : q ≠ p) (hws : SessionOf q kept.2) (sink : Sink) :
    a.db.only p sink = kept.1.only p sink := by
  unfold answerUpdate at h
  split_ifs at h
  · exact answerCommit_only_of_ne h hq hws (updateStatus_only_of_ne allowed new hq sink kept.1)
  · exact answer_only_of_ne h rfl

theorem loopStep_only_of_ne
    {k r : ℕ} {bl : BatchLoop P} {pc : LoopPc} (h : loopStep w kept q k r bl pc c = some a)
    (hq : q ≠ p) (hws : SessionOf q kept.2) (sink : Sink) :
    a.db.only p sink = kept.1.only p sink := by
  cases pc with
  | write v rows res =>
      rcases loopStep_write_cases h with ⟨-, h⟩ | ⟨exc, -, -, h⟩ | ⟨items, -, -, h⟩
      · exact answer_only_of_ne h rfl
      · exact answer_only_of_ne h rfl
      · rcases writeStep_cases h with ⟨-, hans⟩ | ⟨-, hans | ⟨applied, exc, -, rfl⟩⟩
        · exact answer_only_of_ne hans rfl
        · exact answer_only_of_ne hans rfl
        · rfl
  | advance v rows left n =>
      rcases loopStep_advance_cases h with ⟨exc, -, h⟩ | ⟨v', ws, -, h⟩ <;>
        exact answer_only_of_ne h rfl
  | commit v =>
      exact answerCommit_only_of_ne h hq hws rfl
  | pauseApply v =>
      exact answerUpdate_only_of_ne h hq hws sink
  | _ =>
      exact answer_only_of_ne h rfl

/-- **A dispatch of another pipeline** is not seen in the tables of `p`. -/
theorem stageStep_only_of_ne
    (h : stageStep w kept q snap st c = some a) (hq : q ≠ p)
    (hst : st.WorksFor q kept.1.runOwners) (hws : SessionOf q kept.2) (sink : Sink) :
    a.db.only p sink = kept.1.only p sink := by
  have hmodify : ∀ (db : Db P) (r : ℕ) (f : EtlRun P → EtlRun P), st.openRun = some r →
      db = { kept.1 with runs := kept.1.runs.modify r f } →
      (∀ row, (f row).pipeline_id = row.pipeline_id) →
      db.only p sink = kept.1.only p sink := by
    rintro db r f hr rfl hf
    exact only_eq_of_same sink rfl rfl rfl (modify_only_of_ne (hst.owns r hr) hq rfl hf) rfl rfl
  cases st with
  | startRun k =>
      exact answerCommit_only_of_ne h hq hws (start_run_only_of_ne hq sink kept.1)
  | loop k r bl pc =>
      exact loopStep_only_of_ne h hq hws sink
  | finishSuccess k r exit v =>
      exact answerCommit_only_of_ne h hq hws (hmodify _ r _ rfl rfl (fun _ => rfl))
  | finishFailed k r exc =>
      exact answerCommit_only_of_ne h hq hws (hmodify _ r _ rfl rfl (fun _ => rfl))
  | finishIdle k exit =>
      exact answerUpdate_only_of_ne h hq hws sink
  | failIfActive exc =>
      exact answerUpdate_only_of_ne h hq hws sink
  | rollback k r exc =>
      have hans : answer c (kept.1, []) (kept.1, []) (.finishFailed k r exc)
          (onDispatchExc w k) = some a := h
      have hdb : a.db.only p sink = kept.1.only p sink := answer_only_of_ne hans rfl
      exact hdb
  | sleep k delay =>
      cases c with
      | ok =>
          obtain rfl := Option.some.inj h
          rfl
      | _ =>
          cases h
  | returning res =>
      cases h
  | _ =>
      exact answer_only_of_ne h rfl

end Keeping

end Stages

end EtlPlatform
