import EtlPlatform.Library.PartialView
import EtlPlatform.Proofs.AttemptBudget
import EtlPlatform.Proofs.Deliveries
import EtlPlatform.Proofs.SoundCheckpoints
import EtlPlatform.Proofs.TickService

/-!
# One pipeline alone

The tables of the platform as far as they belong to one pipeline: its row, its
tasks, its run rows, its checkpoint, next to the source and some sink.  They are
the tables of a platform that has this pipeline and no other.

Every statement commutes with this projection.  A statement for the pipeline is
the same statement on the smaller tables, except that run rows are counted among
those of the pipeline; a statement for another pipeline is not seen.
-/

namespace EtlPlatform

open Library

section Tables

variable {P : Type} [DecidableEq P]

/-- A run row of `p`. -/
def EtlRun.only (p : P) (row : EtlRun P) : Option (EtlRun Unit) :=
  if row.pipeline_id = p then
    some
      { pipeline_id := ()
        status := row.status
        rows_read := row.rows_read
        rows_written := row.rows_written
        error_message := row.error_message }
  else none

/-- The entries of `p` in a list of ids. -/
def idsOnly (p : P) (ids : List P) : List Unit :=
  ids.filterMap (fun q => if q = p then some () else none)

/-- The entries of `p` in a list of candidates. -/
def todoOnly (p : P) (todo : List (P × PipelineStatus)) : List (Unit × PipelineStatus) :=
  todo.filterMap (fun x => if x.1 = p then some ((), x.2) else none)

/-- The source and the checkpoint of `p`, over another sink. -/
def Store.only (p : P) (sink : Sink) (st : Store P) : Store Unit where
  source := st.source
  etl_state _ := st.etl_state p
  sink := sink

@[simp] theorem mem_idsOnly
    (p : P) (ids : List P) (u : Unit) :
    u ∈ idsOnly p ids ↔ p ∈ ids := by
  simp [idsOnly]

theorem nodup_idsOnly
    (p : P) {ids : List P} (h : ids.Nodup) :
    (idsOnly p ids).Nodup := by
  refine h.filterMap ?_
  intro q q' u hq hq'
  simp only [Option.mem_def, Option.ite_none_right_eq_some] at hq hq'
  rw [hq.1, hq'.1]

/-- The tables of `p`, over another sink. -/
def Db.only (p : P) (sink : Sink) (db : Db P) : Db Unit where
  ids := idsOnly p db.ids
  nodup := nodup_idsOnly p db.nodup
  complete u := (mem_idsOnly p db.ids u).mpr (db.complete p)
  pipelines _ := db.pipelines p
  tasks _ := db.tasks p
  runs := db.runs.filterMap (EtlRun.only p)
  store := db.store.only p sink

/-- The position of run row `r` among the run rows of `p`. -/
def Db.runIndex (p : P) (db : Db P) (r : ℕ) : ℕ :=
  viewIndex (EtlRun.only p) db.runs r

@[simp] theorem status_only
    (p : P) (sink : Sink) (db : Db P) (u : Unit) :
    (db.only p sink).status u = db.status p := by
  rfl

@[simp] theorem pipelines_only
    (p : P) (sink : Sink) (db : Db P) (u : Unit) :
    (db.only p sink).pipelines u = db.pipelines p := by
  rfl

@[simp] theorem ids_only
    (p : P) (sink : Sink) (db : Db P) :
    (db.only p sink).ids = idsOnly p db.ids := by
  rfl

/-! ## Run rows -/

theorem EtlRun.only_of_owner
    {p : P} {row : EtlRun P} (h : row.pipeline_id = p) :
    row.only p = some
      { pipeline_id := ()
        status := row.status
        rows_read := row.rows_read
        rows_written := row.rows_written
        error_message := row.error_message } :=
  if_pos h

theorem EtlRun.only_of_ne
    {p : P} {row : EtlRun P} (h : row.pipeline_id ≠ p) :
    row.only p = none :=
  if_neg h

/-- The position of a row depends on the pipelines of the rows before it. -/
theorem runIndex_eq
    (p : P) (db : Db P) (r : ℕ) :
    db.runIndex p r = (db.runOwners.take r).count p := by
  have hsome : (fun row : EtlRun P => (row.only p).isSome) =
      (fun q => q == p) ∘ EtlRun.pipeline_id := by
    funext row
    by_cases h : row.pipeline_id = p <;> simp [EtlRun.only, h]
  rw [Db.runIndex, viewIndex, hsome, ← List.countP_map, Db.runOwners, List.map_take]
  rfl

/-- New run rows and updates of old ones move no position. -/
theorem runIndex_of_grown
    {p : P} {db db' : Db P} {r : ℕ}
    (howners : db.runOwners <+: db'.runOwners) (hr : r ≤ db.runOwners.length) :
    db'.runIndex p r = db.runIndex p r := by
  obtain ⟨more, hmore⟩ := howners
  rw [runIndex_eq, runIndex_eq, ← hmore, List.take_append_of_le_length hr]

theorem start_run_only
    (p : P) (sink : Sink) (db : Db P) :
    (db.start_run p).only p sink = (db.only p sink).start_run () := by
  simp [Db.only, Db.start_run, EtlRun.only]

theorem start_run_only_of_ne
    {p q : P} (h : q ≠ p) (sink : Sink) (db : Db P) :
    (db.start_run q).only p sink = db.only p sink := by
  simp [Db.only, Db.start_run, EtlRun.only, h]

/-- The id of the next run is the number of run rows. -/
theorem runIndex_nextRun
    (p : P) (sink : Sink) (db : Db P) :
    db.runIndex p db.nextRun = (db.only p sink).nextRun :=
  viewIndex_length (EtlRun.only p) db.runs

/-- The run row belongs to the pipeline. -/
def Db.Owns (db : Db P) (p : P) (r : ℕ) : Prop :=
  db.runOwners[r]? = some p

omit [DecidableEq P] in
theorem owner_of_owns
    {db : Db P} {p : P} {r : ℕ} (h : db.Owns p r) {row : EtlRun P}
    (hrow : db.runs[r]? = some row) :
    row.pipeline_id = p := by
  rw [Db.Owns, Db.runOwners, List.getElem?_map, hrow] at h
  exact Option.some.inj h

theorem finish_success_only
    {p : P} {db : Db P} {r : ℕ} (h : db.Owns p r) (sink : Sink) (rows_read rows_written : ℕ) :
    (db.finish_success r rows_read rows_written).only p sink =
      (db.only p sink).finish_success (db.runIndex p r) rows_read rows_written := by
  have hruns : (db.finish_success r rows_read rows_written).runs.filterMap (EtlRun.only p) =
      ((db.only p sink).finish_success (db.runIndex p r) rows_read rows_written).runs := by
    refine filterMap_modify_of_shown (fun row hrow => ?_)
    have howner := owner_of_owns h hrow
    exact ⟨_, EtlRun.only_of_owner howner, EtlRun.only_of_owner howner⟩
  exact congrArg (fun runs => { db.only p sink with runs := runs }) hruns

theorem finish_failed_only
    {p : P} {db : Db P} {r : ℕ} (h : db.Owns p r) (sink : Sink) (msg : String) :
    (db.finish_failed r msg).only p sink =
      (db.only p sink).finish_failed (db.runIndex p r) msg := by
  have hruns : (db.finish_failed r msg).runs.filterMap (EtlRun.only p) =
      ((db.only p sink).finish_failed (db.runIndex p r) msg).runs := by
    refine filterMap_modify_of_shown (fun row hrow => ?_)
    have howner := owner_of_owns h hrow
    exact ⟨_, EtlRun.only_of_owner howner, EtlRun.only_of_owner howner⟩
  exact congrArg (fun runs => { db.only p sink with runs := runs }) hruns

/-- An update of a run row of another pipeline is not seen. -/
theorem modify_only_of_ne
    {p q : P} {db db' : Db P} {r : ℕ} {f : EtlRun P → EtlRun P}
    (h : db.Owns q r) (hq : q ≠ p) (hruns : db'.runs = db.runs.modify r f)
    (hf : ∀ row, (f row).pipeline_id = row.pipeline_id) :
    db'.runs.filterMap (EtlRun.only p) = db.runs.filterMap (EtlRun.only p) := by
  rw [hruns]
  refine filterMap_modify_of_hidden (fun row hrow => ?_)
  have hne : row.pipeline_id ≠ p := owner_of_owns h hrow ▸ hq
  exact ⟨EtlRun.only_of_ne hne, EtlRun.only_of_ne (by rw [hf]; exact hne)⟩

/-! ## Statuses and configuration -/

/-- What `only` looks at. -/
theorem only_eq_of_same
    {p : P} {db db' : Db P} (sink : Sink)
    (hids : db'.ids = db.ids) (hrow : db'.pipelines p = db.pipelines p)
    (htasks : db'.tasks p = db.tasks p)
    (hruns : db'.runs.filterMap (EtlRun.only p) = db.runs.filterMap (EtlRun.only p))
    (hsource : db'.store.source = db.store.source)
    (hstate : db'.store.etl_state p = db.store.etl_state p) :
    db'.only p sink = db.only p sink := by
  simp only [Db.only, Store.only, hids, hrow, htasks, hruns, hsource, hstate]

theorem setPipeline_only
    (p : P) (sink : Sink) (db : Db P) (row : EtlPipeline) :
    (db.setPipeline p row).only p sink = (db.only p sink).setPipeline () row := by
  have hrow : (db.setPipeline p row).pipelines p = row := by
    simp [Db.setPipeline]
  have hself : ((db.only p sink).setPipeline () row).pipelines = fun _ => row := by
    funext u
    simp [Db.setPipeline]
  simp only [Db.only, hrow]
  exact congrArg (fun rows => { db.only p sink with pipelines := rows }) hself.symm

theorem setPipeline_only_of_ne
    {p q : P} (h : q ≠ p) (sink : Sink) (db : Db P) (row : EtlPipeline) :
    (db.setPipeline q row).only p sink = db.only p sink :=
  only_eq_of_same sink rfl (by simp [Db.setPipeline, h.symm]) rfl rfl rfl rfl

theorem updateStatus_only
    (allowed : List PipelineStatus) (new : PipelineStatus) (p : P) (sink : Sink) (db : Db P) :
    (db.updateStatus allowed new p).only p sink =
      (db.only p sink).updateStatus allowed new () := by
  unfold Db.updateStatus
  rw [status_only]
  by_cases h : db.status p ∈ allowed
  · rw [if_pos h, if_pos h]
    exact setPipeline_only p sink db _
  · rw [if_neg h, if_neg h]

theorem updateStatus_only_of_ne
    (allowed : List PipelineStatus) (new : PipelineStatus) {p q : P} (h : q ≠ p) (sink : Sink)
    (db : Db P) :
    (db.updateStatus allowed new q).only p sink = db.only p sink := by
  unfold Db.updateStatus
  split_ifs
  · exact setPipeline_only_of_ne h sink db _
  · rfl

theorem run_pipeline_only
    (p q : P) (sink : Sink) (db : Db P) :
    (db.run_pipeline q).only p sink =
      if q = p then (db.only p sink).run_pipeline () else db.only p sink := by
  rw [Db.run_pipeline_eq, Db.run_pipeline_eq]
  split_ifs with h
  · subst h
    exact updateStatus_only _ _ q sink db
  · exact updateStatus_only_of_ne _ _ h sink db

theorem pause_pipeline_only
    (p q : P) (sink : Sink) (db : Db P) :
    (db.pause_pipeline q).only p sink =
      if q = p then (db.only p sink).pause_pipeline () else db.only p sink := by
  rw [Db.pause_pipeline_eq, Db.pause_pipeline_eq]
  split_ifs with h
  · subst h
    exact updateStatus_only _ _ q sink db
  · exact updateStatus_only_of_ne _ _ h sink db

theorem patchConfig_only
    (p q : P) (sink : Sink) (db : Db P) (row : EtlPipeline) :
    (db.patchConfig q row).only p sink =
      if q = p then (db.only p sink).patchConfig () row else db.only p sink := by
  split_ifs with h
  · subst h
    exact setPipeline_only q sink db _
  · exact setPipeline_only_of_ne h sink db _

/-! ## Recovery -/

theorem list_stuck_only
    (p : P) (sink : Sink) (db : Db P) :
    (db.only p sink).list_stuck_running_ids = idsOnly p db.list_stuck_running_ids := by
  simp only [Db.list_stuck_running_ids, idsOnly, List.filterMap_filter, Db.only,
    List.filter_filterMap]
  refine List.filterMap_congr (fun q _ => ?_)
  by_cases hq : q = p
  · subst hq
    by_cases hstuck : (db.pipelines q).status = .RUNNING <;>
      simp [Db.status, Option.filter, hstuck]
  · simp [hq]

theorem recovered_only
    {p : P} {ids : List P} (h : p ∈ ids) (sink : Sink) (db : Db P) :
    ((db.recover_running_failed_bulk ids).mark_run_requested_bulk ids).only p sink =
      (((db.only p sink).recover_running_failed_bulk (idsOnly p ids)).mark_run_requested_bulk
        (idsOnly p ids)) := by
  have hruns : (db.recover_running_failed_bulk ids).runs.filterMap (EtlRun.only p) =
      ((db.only p sink).recover_running_failed_bulk (idsOnly p ids)).runs := by
    simp only [Db.recover_running_failed_bulk, Db.only, List.filterMap_map, List.map_filterMap]
    refine List.filterMap_congr (fun row _ => ?_)
    by_cases howner : row.pipeline_id = p
    · by_cases hopen : row.status = .RUNNING <;> simp [EtlRun.only, howner, hopen, h]
    · by_cases hrec : row.pipeline_id ∈ ids ∧ row.status = .RUNNING <;>
        simp [EtlRun.only, howner, hrec]
  have hrows : ((db.recover_running_failed_bulk ids).mark_run_requested_bulk ids).pipelines p =
      (((db.only p sink).recover_running_failed_bulk (idsOnly p ids)).mark_run_requested_bulk
        (idsOnly p ids)).pipelines () := by
    simp [Db.mark_run_requested_bulk, Db.recover_running_failed_bulk, Db.only, h, Db.status]
  exact congrArg₂ (fun rows runs => { db.only p sink with pipelines := rows, runs := runs })
    (funext fun _ => hrows) hruns

/-- A recovery of other pipelines is not seen. -/
theorem recovered_only_of_not_mem
    {p : P} {ids : List P} (h : p ∉ ids) (sink : Sink) (db : Db P) :
    ((db.recover_running_failed_bulk ids).mark_run_requested_bulk ids).only p sink =
      db.only p sink := by
  refine only_eq_of_same sink rfl ?_ rfl ?_ rfl rfl
  · simp [Db.mark_run_requested_bulk, Db.recover_running_failed_bulk, h]
  · simp only [Db.mark_run_requested_bulk, Db.recover_running_failed_bulk, List.filterMap_map]
    refine List.filterMap_congr (fun row _ => ?_)
    by_cases howner : row.pipeline_id = p
    · simp [howner, h]
    · by_cases hrec : row.pipeline_id ∈ ids ∧ row.status = .RUNNING <;>
        simp [EtlRun.only, howner, hrec]

/-! ## Candidates -/

/-- The candidates of `p` are those of its platform. -/
theorem get_active_only
    (p : P) (sink : Sink) (db : Db P) :
    (db.only p sink).get_active = todoOnly p db.get_active := by
  have hconst : ∀ x ∈ todoOnly p db.get_active, x = ((), db.status p) := by
    intro x hx
    obtain ⟨y, hy, hxy⟩ := List.mem_filterMap.mp hx
    obtain ⟨-, hstatus⟩ := mem_get_active_iff.mp hy
    by_cases hq : y.1 = p
    · rw [if_pos hq] at hxy
      rw [← Option.some.inj hxy, hstatus, hq]
    · rw [if_neg hq] at hxy
      cases hxy
  have hlisted : ((db.only p sink).ids.filter (fun u => ((db.only p sink).pipelines u).enabled &&
        ((db.only p sink).status u = .RUN_REQUESTED ||
          (db.only p sink).status u = .PAUSE_REQUESTED))).map
            (fun u => (u, (db.only p sink).status u)) =
      todoOnly p ((db.ids.filter (fun q => (db.pipelines q).enabled &&
        (db.status q = .RUN_REQUESTED || db.status q = .PAUSE_REQUESTED))).map
          (fun q => (q, db.status q))) := by
    simp only [ids_only, pipelines_only, status_only, idsOnly, todoOnly, List.filter_filterMap,
      List.map_filterMap, List.filterMap_map, List.filterMap_filter]
    refine List.filterMap_congr (fun q _ => ?_)
    by_cases hq : q = p
    · subst hq
      by_cases hact : ((db.pipelines q).enabled && (db.status q = .RUN_REQUESTED ||
          db.status q = .PAUSE_REQUESTED)) = true <;>
        simp [Option.filter, hact]
    · simp [hq]
  have hperm : ((db.only p sink).get_active).Perm (todoOnly p db.get_active) :=
    ((List.perm_insertionSort _ _).map _).trans
      (hlisted ▸ (((List.perm_insertionSort _ _).map _).filterMap _).symm)
  rw [List.eq_replicate_of_mem hconst] at hperm ⊢
  exact List.perm_replicate.mp hperm

/-! ## Sessions -/

/-- A write of a session of `p`. -/
def Write.only : Write P → Write Unit
  | .upsert item => .upsert item
  | .state _ s => .state () s

/-- The session stores checkpoints of `p` and of no other pipeline. -/
def SessionOf (p : P) (ws : List (Write P)) : Prop :=
  ∀ q s, .state q s ∈ ws → q = p

omit [DecidableEq P] in
theorem sessionOf_nil
    (p : P) :
    SessionOf p [] := by
  simp [SessionOf]

omit [DecidableEq P] in
theorem sessionOf_append
    {p : P} {ws ws' : List (Write P)} (h : SessionOf p ws) (h' : SessionOf p ws') :
    SessionOf p (ws ++ ws') := by
  intro q s hmem
  exact (List.mem_append.mp hmem).elim (h q s) (h' q s)

omit [DecidableEq P] in
theorem sessionOf_upserts
    (p : P) (items : List Item) :
    SessionOf p (items.map .upsert) := by
  intro q s hmem
  obtain ⟨item, -, hitem⟩ := List.mem_map.mp hmem
  cases hitem

omit [DecidableEq P] in
theorem map_only_upserts
    (items : List Item) :
    (items.map (Write.upsert (P := P))).map Write.only = items.map .upsert := by
  simp [Function.comp_def, Write.only]

theorem Store.commit_only
    {p : P} {ws : List (Write P)} (h : SessionOf p ws) (sink : Sink) (st : Store P) :
    (st.only p sink).commit (ws.map Write.only) =
      (st.commit ws).only p (applyItems sink (upsertsOf ws)) := by
  induction ws generalizing st sink with
  | nil =>
      rfl
  | cons wr ws ih =>
      have htail : SessionOf p ws := fun q s hmem => h q s (List.mem_cons_of_mem _ hmem)
      cases wr with
      | upsert item =>
          have hhead : (st.only p sink).write (.upsert item) =
              (st.write (.upsert item)).only p (assignAll sink item) := by
            rfl
          have hsink : applyItems sink (upsertsOf (.upsert item :: ws)) =
              applyItems (assignAll sink item) (upsertsOf ws) := by
            simp [upsertsOf, applyItems, assignAll_append]
          rw [hsink]
          exact (congrArg (Store.commit · (ws.map Write.only)) hhead).trans (ih htail _ _)
      | state q s =>
          obtain rfl := h q s List.mem_cons_self
          have hhead : (st.only q sink).write (.state () s) =
              (st.write (.state q s)).only q sink := by
            simp only [Store.only, Store.write, Function.update_self]
            congr 1
          exact (congrArg (Store.commit · (ws.map Write.only)) hhead).trans (ih htail _ _)

/-- A commit of `p` is a commit on its tables. -/
theorem commit_only
    {p : P} {ws : List (Write P)} (h : SessionOf p ws) (sink : Sink) (db : Db P) :
    (db.commit ws).only p (applyItems sink (upsertsOf ws)) =
      (db.only p sink).commit (ws.map Write.only) :=
  congrArg (fun st => { db.only p sink with store := st }) (Store.commit_only h sink db.store).symm

/-- A commit of another pipeline is not seen. -/
theorem commit_only_of_ne
    {p q : P} {ws : List (Write P)} (h : SessionOf q ws) (hq : q ≠ p) (sink : Sink) (db : Db P) :
    (db.commit ws).only p sink = db.only p sink := by
  refine only_eq_of_same sink rfl rfl rfl rfl (Store.commit_source db.store ws) ?_
  exact Store.commit_etl_state_of_spared (fun e hmem => hq (h p e hmem).symm)

end Tables

end EtlPlatform
