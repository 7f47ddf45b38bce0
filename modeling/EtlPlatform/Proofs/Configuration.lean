import EtlPlatform.Model.System
import EtlPlatform.Proofs.StatusProtocol

/-!
# The configuration of a pipeline

A dispatch works on a snapshot of the pipeline row and its tasks.  Only a
`PATCH` changes what such a snapshot holds: the statements of the processes
touch no column but the status.
-/

namespace EtlPlatform

section Configuration

variable {P : Type}

/-- The snapshot a dispatch of `p` works on when nothing is reconfigured meanwhile. -/
def Db.config (db : Db P) (p : P) : PipelineSnapshot :=
  snapshot_pipeline_with_tasks (snapshot_pipeline (db.pipelines p)) (db.tasks p)

/-- The two databases hold the same configuration. -/
def SameConfig (db db' : Db P) : Prop :=
  db'.tasks = db.tasks ∧
    ∀ p, snapshot_pipeline (db'.pipelines p) = snapshot_pipeline (db.pipelines p)

theorem SameConfig.refl
    (db : Db P) :
    SameConfig db db :=
  ⟨rfl, fun _ => rfl⟩

theorem SameConfig.config_eq
    {db db' : Db P} (h : SameConfig db db') (p : P) :
    db'.config p = db.config p := by
  rw [Db.config, Db.config, h.1, h.2 p]

/-- A statement leaves the configuration alone if its effect does. -/
theorem answer_sameConfig
    {c : Choice} {db db' : Db P} {ws ws' : List (Write P)} {next : Stage P}
    {onExc : Exc → Stage P} {a : After P}
    (h : answer c (db, ws) (db', ws') next onExc = some a)
    (hdb : SameConfig db db') :
    SameConfig db a.db := by
  rcases answer_cases h with ⟨-, rfl⟩ | ⟨exc, -, rfl⟩ | ⟨-, rfl⟩
  · exact hdb
  · exact SameConfig.refl db
  · exact hdb

variable [DecidableEq P]

theorem sameConfig_updateStatus
    (allowed : List PipelineStatus) (new : PipelineStatus) (db : Db P) (p : P) :
    SameConfig db (db.updateStatus allowed new p) := by
  unfold Db.updateStatus
  split_ifs
  · refine ⟨rfl, fun q => ?_⟩
    by_cases hq : q = p
    · subst hq
      simp [Db.setStatus, Db.setPipeline, snapshot_pipeline]
    · simp [Db.setStatus, Db.setPipeline, hq]
  · exact SameConfig.refl db

theorem sameConfig_run_pipeline
    (db : Db P) (p : P) :
    SameConfig db (db.run_pipeline p) := by
  rw [Db.run_pipeline_eq]
  exact sameConfig_updateStatus _ _ db p

theorem sameConfig_pause_pipeline
    (db : Db P) (p : P) :
    SameConfig db (db.pause_pipeline p) := by
  rw [Db.pause_pipeline_eq]
  exact sameConfig_updateStatus _ _ db p

theorem sameConfig_recovered
    (db : Db P) (ids : List P) :
    SameConfig db ((db.recover_running_failed_bulk ids).mark_run_requested_bulk ids) := by
  refine ⟨rfl, fun p => ?_⟩
  simp only [Db.mark_run_requested_bulk]
  split_ifs <;> rfl

theorem answerUpdate_sameConfig
    {c : Choice} {db : Db P} {ws : List (Write P)} {p : P} {allowed : List PipelineStatus}
    {new : PipelineStatus} {next : Stage P} {onExc : Exc → Stage P} {a : After P}
    (h : answerUpdate c (db, ws) p allowed (Db.updateStatus allowed new) next onExc = some a) :
    SameConfig db a.db := by
  unfold answerUpdate at h
  split_ifs at h
  · exact answer_sameConfig h (sameConfig_updateStatus allowed new db p)
  · exact answer_sameConfig h (SameConfig.refl db)

theorem loopStep_sameConfig
    {w : World} {db : Db P} {pending : List (Write P)} {p : P} {k r : ℕ}
    {bl : BatchLoop P} {pc : LoopPc} {c : Choice} {a : After P}
    (h : loopStep w (db, pending) p k r bl pc c = some a) :
    SameConfig db a.db := by
  have hrefl := SameConfig.refl db
  cases pc with
  | write v rows res =>
      rcases loopStep_write_cases h with ⟨-, h⟩ | ⟨exc, -, -, h⟩ | ⟨items, -, -, h⟩
      · exact answer_sameConfig h hrefl
      · exact answer_sameConfig h hrefl
      · rcases writeStep_cases h with ⟨-, hans⟩ | ⟨-, hans | ⟨applied, exc, -, rfl⟩⟩
        · exact answer_sameConfig hans hrefl
        · exact answer_sameConfig hans hrefl
        · exact hrefl
  | advance v rows left written =>
      rcases loopStep_advance_cases h with ⟨exc, -, h⟩ | ⟨v', ws, -, h⟩
      · exact answer_sameConfig h hrefl
      · exact answer_sameConfig h hrefl
  | pauseApply v =>
      exact answerUpdate_sameConfig h
  | _ =>
      exact answer_sameConfig h hrefl

theorem stageStep_sameConfig
    {w : World} {db : Db P} {pending : List (Write P)} {p : P} {snap : PipelineSnapshot}
    {st : Stage P} {c : Choice} {a : After P}
    (h : stageStep w (db, pending) p snap st c = some a) :
    SameConfig db a.db := by
  have hrefl := SameConfig.refl db
  cases st with
  | loop k r bl pc =>
      exact loopStep_sameConfig h
  | finishIdle k exit =>
      exact answerUpdate_sameConfig h
  | failIfActive exc =>
      exact answerUpdate_sameConfig h
  | sleep k delay =>
      cases c with
      | ok =>
          obtain rfl := Option.some.inj h
          exact hrefl
      | _ =>
          cases h
  | returning res =>
      cases h
  | _ =>
      exact answer_sameConfig h hrefl

/-- Processes never touch the configuration. -/
theorem procStep_sameConfig
    {w : World} {db db' : Db P} {pr pr' : Proc P} {c : Choice}
    (h : procStep w db pr c = some (db', pr')) :
    SameConfig db db' := by
  have hrefl := SameConfig.refl db
  cases procStep_effect h with
  | recovered _ =>
      exact sameConfig_recovered db _
  | offered hdb _ =>
      rcases hdb with rfl | rfl
      · exact hrefl
      · exact sameConfig_updateStatus _ _ db _
  | unclaimed hdb _ =>
      rcases hdb with rfl | rfl
      · exact hrefl
      · exact sameConfig_updateStatus _ _ db _
  | claimed _ =>
      exact sameConfig_updateStatus _ _ db _
  | stepped hst =>
      exact stageStep_sameConfig hst
  | _ =>
      exact hrefl

/-- **Nothing but a `PATCH` touches the configuration.** -/
theorem step_sameConfig
    {ι : Type} [DecidableEq ι] {w : World} {s s' : Sys ι P} {e : Event ι P}
    (h : s.step w e = some s') (he : ∀ p row, e ≠ .patch p row) :
    SameConfig s.db s'.db := by
  cases e with
  | run q =>
      obtain rfl := Option.some.inj h
      exact sameConfig_run_pipeline s.db q
  | pause q =>
      obtain rfl := Option.some.inj h
      exact sameConfig_pause_pipeline s.db q
  | patch q row =>
      exact absurd rfl (he q row)
  | source src =>
      obtain rfl := Option.some.inj h
      exact SameConfig.refl s.db
  | kill i =>
      obtain rfl := Option.some.inj h
      exact SameConfig.refl s.db
  | spawn i =>
      obtain ⟨-, rfl⟩ := Sys.step_spawn_iff.mp h
      exact SameConfig.refl s.db
  | runner i c =>
      obtain ⟨db, pr, hproc, rfl⟩ := Sys.step_runner_iff.mp h
      exact procStep_sameConfig hproc

end Configuration

end EtlPlatform
