import EtlPlatform.Proofs.StatusView

/-!
# The statements that move a status

Seven statements of the platform write `etl_pipelines.status`, each a
conditional update from some statuses to one.  `Sys.statement` says which of
them, if any, an event commits for a pipeline, and `step_status` that the status
after the event is what this statement makes of it: nothing else moves a status,
and a statement that commits on a status it allows always does.
-/

namespace EtlPlatform

open Library

/-- The statements that write `etl_pipelines.status`. -/
inductive StatusStatement where
  | request_run
  | request_pause
  | claim_run_requested
  | apply_pause_requested
  | finish_running_to_idle
  | fail_if_active
  | mark_run_requested_bulk
deriving DecidableEq

namespace StatusStatement

/-- The statuses in the `WHERE` clause. -/
def allowed_from : StatusStatement → List PipelineStatus
  | request_run => runAccepted
  | request_pause => pauseAccepted
  | claim_run_requested => [.RUN_REQUESTED]
  | apply_pause_requested => [.PAUSE_REQUESTED]
  | finish_running_to_idle => [.RUNNING]
  | fail_if_active => [.RUNNING, .PAUSE_REQUESTED]
  | mark_run_requested_bulk => [.RUNNING]

/-- The status in the `SET` clause. -/
def sets : StatusStatement → PipelineStatus
  | request_run => .RUN_REQUESTED
  | request_pause => .PAUSE_REQUESTED
  | claim_run_requested => .RUNNING
  | apply_pause_requested => .PAUSED
  | finish_running_to_idle => .IDLE
  | fail_if_active => .FAILED
  | mark_run_requested_bulk => .RUN_REQUESTED

/-- What the statement makes of a status. -/
def apply (x : StatusStatement) (s : PipelineStatus) : PipelineStatus :=
  moveStatus x.allowed_from x.sets s

end StatusStatement

/-- What a statement, if there is one, makes of a status. -/
def afterStatement (x : Option StatusStatement) (s : PipelineStatus) : PipelineStatus :=
  (x.map (fun x => x.apply s)).getD s

section Process

variable {P : Type} [DecidableEq P]

/-- The answer with which a statement commits. -/
def Choice.commits (c : Choice) : Prop :=
  c = .ok ∨ c = .lost

instance : DecidablePred Choice.commits :=
  fun _ => inferInstanceAs (Decidable (_ ∨ _))

/-- The status statement at a stage of a dispatch. -/
def Stage.statement : Stage P → Option StatusStatement
  | .loop _ _ _ (.pauseApply _) => some .apply_pause_requested
  | .finishIdle _ _ => some .finish_running_to_idle
  | .failIfActive _ => some .fail_if_active
  | _ => none

/-- The status statement about `p` at an await point of a process. -/
def Pc.statement (p : P) : Pc P → Option StatusStatement
  | .recovering ids => if p ∈ ids then some .mark_run_requested_bulk else none
  | .tick ((q, .PAUSE_REQUESTED) :: _) => if q = p then some .apply_pause_requested else none
  | .tick ((q, .RUN_REQUESTED) :: _) => if q = p then some .claim_run_requested else none
  | .dispatch q _ st _ => if q = p then st.statement else none
  | _ => none

omit [DecidableEq P] in
/-- A dispatch does not claim. -/
theorem Stage.statement_ne_claim
    (st : Stage P) :
    st.statement ≠ some .claim_run_requested := by
  cases st with
  | loop k r bl pc =>
      cases pc <;> simp [statement]
  | _ =>
      simp [statement]

/-- A conditional update of a dispatch. -/
theorem answerUpdate_status
    {c : Choice} {kept : Db P × List (Write P)} {p : P}
    {allowed : List PipelineStatus} {new : PipelineStatus}
    {next : Stage P} {onExc : Exc → Stage P} {a : After P}
    (h : answerUpdate c kept p allowed (Db.updateStatus allowed new) next onExc = some a) :
    a.db.status p =
      if c.commits then moveStatus allowed new (kept.1.status p) else kept.1.status p := by
  unfold answerUpdate at h
  split_ifs at h with hmem
  · rcases answer_cases h with ⟨rfl, rfl⟩ | ⟨exc, rfl, rfl⟩ | ⟨rfl, rfl⟩ <;>
      simp [Choice.commits, Db.status_updateStatus, moveStatus, hmem]
  · rcases answer_cases h with ⟨rfl, rfl⟩ | ⟨exc, rfl, rfl⟩ | ⟨rfl, rfl⟩ <;>
      simp [moveStatus, hmem]

/-- A stage without a status statement leaves the status alone. -/
theorem stageStep_status_quiet
    {w : World} {kept : Db P × List (Write P)} {p : P} {snap : PipelineSnapshot}
    {st : Stage P} {c : Choice} {a : After P}
    (h : stageStep w kept p snap st c = some a) (hst : st.statement = none) :
    a.db.status p = kept.1.status p := by
  have hmoves := (stageStep_moves h).2
  rcases hmoves.status_cases with heq | ⟨hact, -, -⟩ | ⟨exit, hact, -, -⟩ | ⟨hact, -, -⟩
  · exact heq
  · cases st with
    | loop k r bl pc =>
        cases pc <;> simp_all [Stage.activity, LoopPc.activity, Stage.statement]
    | _ =>
        simp [Stage.activity] at hact
  · cases st with
    | finishIdle k exit =>
        cases hst
    | loop k r bl pc =>
        cases pc <;> simp [Stage.activity, LoopPc.activity] at hact
    | _ =>
        simp [Stage.activity] at hact
  · cases st with
    | failIfActive exc =>
        cases hst
    | loop k r bl pc =>
        cases pc <;> simp [Stage.activity, LoopPc.activity] at hact
    | _ =>
        simp [Stage.activity] at hact

/-- **The status after a step of a dispatch.** -/
theorem stageStep_status
    {w : World} {kept : Db P × List (Write P)} {p : P} {snap : PipelineSnapshot}
    {st : Stage P} {c : Choice} {a : After P}
    (h : stageStep w kept p snap st c = some a) :
    a.db.status p =
      if c.commits then afterStatement st.statement (kept.1.status p) else kept.1.status p := by
  cases hst : st.statement with
  | none =>
      rw [stageStep_status_quiet h hst]
      simp [afterStatement]
  | some x =>
      cases st with
      | loop k r bl pc =>
          cases pc with
          | pauseApply v =>
              obtain rfl := Option.some.inj hst
              exact answerUpdate_status h
          | _ =>
              cases hst
      | finishIdle k exit =>
          obtain rfl := Option.some.inj hst
          exact answerUpdate_status h
      | failIfActive exc =>
          obtain rfl := Option.some.inj hst
          exact answerUpdate_status h
      | _ =>
          cases hst

/-- The status after a conditional update of one pipeline in a tick. -/
theorem status_tick_update
    {x : StatusStatement} {db db' : Db P} {q p : P} {c : Choice}
    (hdb : db' = if c.commits then db.updateStatus x.allowed_from x.sets q else db) :
    db'.status p =
      if c.commits then afterStatement (if q = p then some x else none) (db.status p)
      else db.status p := by
  subst hdb
  by_cases hc : c.commits
  · rw [if_pos hc, if_pos hc, Db.status_updateStatus]
    by_cases hq : q = p
    · subst hq
      simp [afterStatement, StatusStatement.apply, moveStatus]
    · simp [afterStatement, hq, Ne.symm hq]
  · rw [if_neg hc, if_neg hc]

theorem dispatchPause_db
    {db db' : Db P} {q : P} {todo : List (P × PipelineStatus)} {c : Choice} {pr' : Proc P}
    (h : dispatchPause db q todo c = some (db', pr')) :
    db' = if c.commits then db.apply_pause_requested q else db := by
  cases c with
  | partialBulk applied exc =>
      cases h
  | _ =>
      obtain ⟨rfl, -⟩ := Prod.mk.inj (Option.some.inj h)
      simp [Choice.commits]

theorem dispatchClaim_db
    {db db' : Db P} {q : P} {todo : List (P × PipelineStatus)} {c : Choice} {pr' : Proc P}
    (h : dispatchClaim db q todo c = some (db', pr')) :
    db' = if c.commits then db.claim_run_requested q else db := by
  cases c with
  | partialBulk applied exc =>
      cases h
  | ok =>
      simp only [dispatchClaim] at h
      split_ifs at h with hreq
      · obtain ⟨rfl, -⟩ := Prod.mk.inj (Option.some.inj h)
        simp [Choice.commits]
      · obtain ⟨rfl, -⟩ := Prod.mk.inj (Option.some.inj h)
        simp [Choice.commits, Db.claim_run_requested, Db.updateStatus, hreq]
  | _ =>
      obtain ⟨rfl, -⟩ := Prod.mk.inj (Option.some.inj h)
      simp [Choice.commits]

/-- **The status after a step of a process**, for every pipeline. -/
theorem procStep_status
    {w : World} {db db' : Db P} {pr pr' : Proc P} {c : Choice}
    (h : procStep w db pr c = some (db', pr')) (p : P) :
    db'.status p =
      if c.commits then afterStatement (pr.pc.statement p) (db.status p) else db.status p := by
  obtain ⟨pc, pending⟩ := pr
  cases pc with
  | down =>
      cases h
  | recovery =>
      cases c <;> obtain ⟨rfl, rfl⟩ := Prod.mk.inj (Option.some.inj h) <;>
        simp [Pc.statement, afterStatement]
  | recovering ids =>
      cases c <;> obtain ⟨rfl, rfl⟩ := Prod.mk.inj (Option.some.inj h) <;>
        by_cases hids : p ∈ ids <;>
        simp [Choice.commits, Pc.statement, afterStatement, hids, StatusStatement.apply,
          moveStatus, StatusStatement.allowed_from, StatusStatement.sets]
  | started =>
      cases c <;> obtain ⟨rfl, rfl⟩ := Prod.mk.inj (Option.some.inj h) <;>
        simp [Pc.statement, afterStatement]
  | polling =>
      cases c <;> obtain ⟨rfl, rfl⟩ := Prod.mk.inj (Option.some.inj h) <;>
        simp [Pc.statement, afterStatement]
  | tick todo =>
      rcases todo with _ | ⟨⟨q, s⟩, todo⟩
      · obtain ⟨rfl, rfl⟩ := Prod.mk.inj (Option.some.inj h)
        simp [Pc.statement, afterStatement]
      · cases s with
        | PAUSE_REQUESTED =>
            exact status_tick_update (x := .apply_pause_requested) (dispatchPause_db h)
        | RUN_REQUESTED =>
            exact status_tick_update (x := .claim_run_requested) (dispatchClaim_db h)
        | _ =>
            obtain ⟨rfl, rfl⟩ := Prod.mk.inj (Option.some.inj h)
            simp [Pc.statement, afterStatement]
  | dispatch q snap st todo =>
      rcases procStep_dispatch h with ⟨res, rfl, rfl, rfl⟩ | ⟨a, hst, rfl, rfl⟩
      · simp [Pc.statement, Stage.statement, afterStatement]
      · by_cases hq : q = p
        · subst hq
          simpa [Pc.statement] using stageStep_status hst
        · simp [Pc.statement, hq, afterStatement, (stageStep_moves hst).1 p (Ne.symm hq)]

end Process

section Platform

variable {ι P : Type} [DecidableEq ι] [DecidableEq P]

/-- The status statement about `p` that an event commits. -/
def Sys.statement (p : P) (s : Sys ι P) : Event ι P → Option StatusStatement
  | .run q => if q = p then some .request_run else none
  | .pause q => if q = p then some .request_pause else none
  | .runner i c => if c.commits then (s.procs i).pc.statement p else none
  | _ => none

/-- **What moves a status.**  The status of a pipeline after an event is what the statement
the event commits for it makes of the status before. -/
theorem step_status
    {w : World} {s s' : Sys ι P} {e : Event ι P}
    (h : s.step w e = some s') (p : P) :
    s'.db.status p = afterStatement (s.statement p e) (s.db.status p) := by
  have hrequest : ∀ (x : StatusStatement) (q : P),
      (s.db.updateStatus x.allowed_from x.sets q).status p =
        afterStatement (if q = p then some x else none) (s.db.status p) := by
    intro x q
    rw [Db.status_updateStatus]
    by_cases hq : q = p
    · subst hq
      simp [afterStatement, StatusStatement.apply, moveStatus]
    · simp [afterStatement, hq, Ne.symm hq]
  cases e with
  | run q =>
      obtain rfl := Option.some.inj h
      rw [Db.run_pipeline_eq]
      exact hrequest .request_run q
  | pause q =>
      obtain rfl := Option.some.inj h
      rw [Db.pause_pipeline_eq]
      exact hrequest .request_pause q
  | patch q row =>
      obtain rfl := Option.some.inj h
      simp [Sys.statement, afterStatement]
  | source src =>
      obtain rfl := Option.some.inj h
      rfl
  | kill i =>
      obtain rfl := Option.some.inj h
      rfl
  | spawn i =>
      obtain ⟨-, rfl⟩ := Sys.step_spawn_iff.mp h
      rfl
  | runner i c =>
      obtain ⟨db, pr, hproc, rfl⟩ := Sys.step_runner_iff.mp h
      rw [procStep_status hproc p, Sys.statement]
      by_cases hc : c.commits
      · rw [if_pos hc, if_pos hc]
      · rw [if_neg hc, if_neg hc]
        rfl

end Platform

end EtlPlatform
