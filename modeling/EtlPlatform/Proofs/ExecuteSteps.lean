import EtlPlatform.Proofs.StatusProtocol

/-!
# One call of `execute`

A dispatch calls `execute` and learns how the call ended: it returned, or it
raised.  `Stage.executeEnd` reads that off the statement that ends the call, and
`execute_step` says how a call goes on: statement by statement inside `execute`,
to the finalization after a return, to the handler of the dispatcher after an
exception.
-/

namespace EtlPlatform

/-- How a call of `execute` ended. -/
inductive ExecuteEnd where
  | returned
  | raised (exc : Exc)
deriving DecidableEq

/-- The call raised an error that is no disconnect. -/
def ExecuteEnd.Failed : ExecuteEnd → Prop
  | .returned => False
  | .raised exc => is_db_disconnect exc = false

instance : DecidablePred ExecuteEnd.Failed
  | .returned => inferInstanceAs (Decidable False)
  | .raised exc => inferInstanceAs (Decidable (is_db_disconnect exc = false))

section Observed

variable {P : Type}

/-- The error of a computation. -/
def errorOf {α : Type} : Except Exc α → Option Exc
  | .ok _ => none
  | .error exc => some exc

/-- The exception the loop body itself raises at a position. -/
def BatchLoop.raised (bl : BatchLoop P) (st : Store P) : LoopPc → Option Exc
  | .setup => errorOf (bl.setup st)
  | .fetch v => errorOf (bl.query st v)
  | .transform _ rows => errorOf (bl.transform rows)
  | .write _ _ res => if res.rows = [] then none else errorOf (bl.write res.rows)
  | .advance v rows left written => errorOf (bl.advance v rows left written)
  | _ => none

/-- The exception a step of a dispatch ends in, from the environment or from the code. -/
def Stage.raised [DecidableEq P] (w : World) (db : Db P) (p : P) (snap : PipelineSnapshot)
    (st : Stage P) (c : Choice) : Option Exc :=
  match c with
  | .raise exc => some exc
  | .partialBulk _ exc => some exc
  | .lost => some connectionLost
  | .ok =>
      match st with
      | .runBody _ _ => errorOf (_run_body w p snap : Except Exc (BatchLoop P))
      | .loop _ _ bl pc => bl.raised db.store pc
      | _ => none

variable [DecidableEq P]

/--
The end of `execute`, if this step ends it.  An exception of `start_run` leaves
it at once, and so does a disconnect in its `try`; any other exception there is
handled first, and leaves it after `finish_failed` unless the handler raises.
-/
def Stage.executeEnd (w : World) (db : Db P) (p : P) (snap : PipelineSnapshot)
    (st : Stage P) (c : Choice) : Option ExecuteEnd :=
  match st, st.raised w db p snap c with
  | .startRun _, some exc | .rollback _ _ _, some exc => some (.raised exc)
  | .runBody _ _, some exc | .loop _ _ _ _, some exc | .finishSuccess _ _ _ _, some exc =>
      if is_db_disconnect exc then some (.raised exc) else none
  | .finishSuccess _ _ _ _, none => some .returned
  | .finishFailed _ _ exc, exc' => some (.raised (exc'.getD exc))
  | _, _ => none

end Observed

section Execute

variable {P : Type}

/-- `execute` has been called for the attempt and has not ended; it handles no disconnect. -/
def Stage.InExecute (k : ℕ) : Stage P → Prop
  | .runBody j _ | .loop j _ _ _ | .finishSuccess j _ _ _ => j = k
  | .rollback j _ exc | .finishFailed j _ exc => j = k ∧ is_db_disconnect exc = false
  | _ => False

theorem activity_of_execute
    {k : ℕ} {st : Stage P} (hst : st = .startRun k ∨ st.InExecute k) :
    st.activity ≠ .claimed ∧ st.activity ≠ .failing ∧ ∀ exit, st.activity ≠ .finishing exit := by
  rcases hst with rfl | hin
  · simp [Stage.activity]
  · cases st with
    | loop j r bl pc =>
        cases pc <;> simp [Stage.activity, LoopPc.activity]
    | runBody j r =>
        simp [Stage.activity]
    | finishSuccess j r exit v =>
        simp [Stage.activity]
    | rollback j r exc =>
        simp [Stage.activity]
    | finishFailed j r exc =>
        simp [Stage.activity]
    | _ =>
        exact hin.elim

/-- A step of `execute`: it goes on, or returns, or raises. -/
inductive ExecuteStep (w : World) (k : ℕ) : Option ExecuteEnd → Stage P → Prop
  | goesOn {st : Stage P} :
      st.InExecute k → ExecuteStep w k none st
  | returned (exit : Exit) :
      ExecuteStep w k (some .returned) (.getStatus k exit)
  | raised (exc : Exc) :
      ExecuteStep w k (some (.raised exc)) (onDispatchExc w k exc)

/-- An exception in the `try` of `execute`. -/
theorem executeStep_of_exc
    {w : World} {k r : ℕ} (exc : Exc) :
    ExecuteStep w k (if is_db_disconnect exc then some (.raised exc) else none)
      (onExecuteExc w k r exc : Stage P) := by
  by_cases hdis : is_db_disconnect exc = true
  · simp only [onExecuteExc, if_pos hdis]
    exact .raised exc
  · simp only [onExecuteExc, if_neg hdis]
    exact .goesOn ⟨rfl, by simpa using hdis⟩

variable [DecidableEq P]
variable {w : World} {db done : Db P} {pending pending' : List (Write P)} {p : P}
variable {snap : PipelineSnapshot} {k r : ℕ} {bl : BatchLoop P} {pc : LoopPc} {c : Choice}
variable {next : Stage P} {a : After P}

/-- A statement of the batch loop. -/
theorem loop_step_of_answer
    (h : answer c (db, pending) (done, pending') next (onExecuteExc w k r) = some a)
    (hnext : c = .ok → ExecuteStep w k ((Stage.loop k r bl pc).executeEnd w db p snap c) next) :
    ExecuteStep w k ((Stage.loop k r bl pc).executeEnd w db p snap c) a.stage := by
  rcases answer_cases h with ⟨rfl, rfl⟩ | ⟨exc, rfl, rfl⟩ | ⟨rfl, rfl⟩
  · exact hnext rfl
  · exact executeStep_of_exc exc
  · exact executeStep_of_exc (r := r) connectionLost

/-- The loop goes on if the code raises nothing. -/
theorem loop_goes_on
    (hraised : bl.raised db.store pc = none) (hnext : next.InExecute k) :
    ExecuteStep w k ((Stage.loop k r bl pc).executeEnd w db p snap .ok) next := by
  simp only [Stage.executeEnd, Stage.raised, hraised]
  exact .goesOn hnext

/-- An exception the code raises in the loop. -/
theorem loop_raises
    {exc : Exc} (hraised : bl.raised db.store pc = some exc) :
    ExecuteStep w k ((Stage.loop k r bl pc).executeEnd w db p snap .ok)
      (onExecuteExc w k r exc : Stage P) := by
  simp only [Stage.executeEnd, Stage.raised, hraised]
  exact executeStep_of_exc exc

/-- A computed continuation of the loop. -/
theorem loop_step_of_stageOf
    {α : Type} {after : α → Stage P} {res : Except Exc α}
    (hraised : bl.raised db.store pc = errorOf res) (hafter : ∀ x, (after x).InExecute k) :
    ExecuteStep w k ((Stage.loop k r bl pc).executeEnd w db p snap .ok)
      (stageOf (onExecuteExc w k r) after res) := by
  cases res with
  | ok x =>
      exact loop_goes_on hraised (hafter x)
  | error exc =>
      exact loop_raises hraised

/-- A step of the batch loop. -/
theorem loopStep_execute
    (h : loopStep w (db, pending) p k r bl pc c = some a) :
    ExecuteStep w k ((Stage.loop k r bl pc).executeEnd w db p snap c) a.stage := by
  cases pc with
  | setup =>
      refine loop_step_of_answer h ?_
      rintro rfl
      exact loop_step_of_stageOf rfl (fun _ => rfl)
  | fetch v =>
      refine loop_step_of_answer h ?_
      rintro rfl
      refine loop_step_of_stageOf rfl (fun rows => ?_)
      split_ifs <;> rfl
  | transform v rows =>
      refine loop_step_of_answer h ?_
      rintro rfl
      exact loop_step_of_stageOf rfl (fun _ => rfl)
  | write v rows res =>
      rcases loopStep_write_cases h with ⟨hnil, h⟩ | ⟨exc, hnil, hw, h⟩ | ⟨items, hnil, hw, h⟩
      · refine loop_step_of_answer h ?_
        rintro rfl
        exact loop_goes_on (by simp [BatchLoop.raised, hnil]) rfl
      · refine loop_step_of_answer h ?_
        rintro rfl
        exact loop_raises (by simp [BatchLoop.raised, hnil, hw, errorOf])
      · have hquiet : bl.raised db.store (.write v rows res) = none := by
          simp [BatchLoop.raised, hnil, hw, errorOf]
        rcases writeStep_cases h with ⟨-, hans⟩ | ⟨-, hans | ⟨applied, exc, rfl, rfl⟩⟩
        · refine loop_step_of_answer hans ?_
          rintro rfl
          exact loop_goes_on hquiet rfl
        · refine loop_step_of_answer hans ?_
          rintro rfl
          exact loop_goes_on hquiet rfl
        · exact executeStep_of_exc exc
  | advance v rows left written =>
      rcases loopStep_advance_cases h with ⟨exc, hadv, h⟩ | ⟨v', ws, hadv, h⟩
      · refine loop_step_of_answer h ?_
        rintro rfl
        exact loop_raises (by simp [BatchLoop.raised, hadv, errorOf])
      · refine loop_step_of_answer h ?_
        rintro rfl
        exact loop_goes_on (by simp [BatchLoop.raised, hadv, errorOf]) rfl
  | commit v =>
      refine loop_step_of_answer h ?_
      rintro rfl
      exact loop_goes_on rfl rfl
  | pauseRead v =>
      refine loop_step_of_answer h ?_
      rintro rfl
      refine loop_goes_on rfl ?_
      split_ifs <;> rfl
  | pauseApply v =>
      simp only [loopStep, answerUpdate] at h
      split_ifs at h with hmem <;> refine loop_step_of_answer h ?_ <;> rintro rfl <;>
        exact loop_goes_on rfl rfl
  | close exit v =>
      refine loop_step_of_answer h ?_
      rintro rfl
      exact loop_goes_on rfl rfl

/-- **A step of `execute`**, from its call to its end. -/
theorem execute_step
    {st : Stage P} (h : stageStep w (db, pending) p snap st c = some a)
    (hst : st = .startRun k ∨ st.InExecute k) :
    ExecuteStep w k (st.executeEnd w db p snap c) a.stage := by
  cases st with
  | startRun j =>
      obtain rfl : j = k := by simpa [Stage.InExecute] using hst
      rcases answer_cases h with ⟨rfl, rfl⟩ | ⟨exc, rfl, rfl⟩ | ⟨rfl, rfl⟩
      · exact .goesOn rfl
      · exact .raised exc
      · exact .raised connectionLost
  | runBody j r =>
      obtain rfl : j = k := by simpa [Stage.InExecute] using hst
      rcases answer_cases h with ⟨rfl, rfl⟩ | ⟨exc, rfl, rfl⟩ | ⟨rfl, rfl⟩
      · simp only [Stage.executeEnd, Stage.raised]
        cases hbody : (_run_body w p snap : Except Exc (BatchLoop P)) with
        | ok bl =>
            exact .goesOn rfl
        | error exc =>
            exact executeStep_of_exc exc
      · exact executeStep_of_exc exc
      · exact executeStep_of_exc (r := r) connectionLost
  | loop j r bl pc =>
      obtain rfl : j = k := by simpa [Stage.InExecute] using hst
      exact loopStep_execute h
  | finishSuccess j r exit v =>
      obtain rfl : j = k := by simpa [Stage.InExecute] using hst
      rcases answer_cases h with ⟨rfl, rfl⟩ | ⟨exc, rfl, rfl⟩ | ⟨rfl, rfl⟩
      · exact .returned exit
      · exact executeStep_of_exc exc
      · exact executeStep_of_exc (r := r) connectionLost
  | rollback j r exc =>
      obtain ⟨rfl, hexc⟩ : j = k ∧ is_db_disconnect exc = false := by
        simpa [Stage.InExecute] using hst
      rcases answer_cases h with ⟨rfl, rfl⟩ | ⟨exc', rfl, rfl⟩ | ⟨rfl, rfl⟩
      · exact .goesOn ⟨rfl, hexc⟩
      · exact .raised exc'
      · exact .raised connectionLost
  | finishFailed j r exc =>
      obtain ⟨rfl, -⟩ : j = k ∧ is_db_disconnect exc = false := by
        simpa [Stage.InExecute] using hst
      rcases answer_cases h with ⟨rfl, rfl⟩ | ⟨exc', rfl, rfl⟩ | ⟨rfl, rfl⟩
      · exact .raised exc
      · exact .raised exc'
      · exact .raised connectionLost
  | _ =>
      simp [Stage.InExecute] at hst

/-- An exception ends the call, or is handled in it first. -/
theorem executeEnd_of_raised
    {st : Stage P} {exc : Exc} (hst : st = .startRun k ∨ st.InExecute k)
    (hraised : st.raised w db p snap c = some exc) :
    st.executeEnd w db p snap c = some (.raised exc) ∨
      (st.executeEnd w db p snap c = none ∧ is_db_disconnect exc = false) := by
  rcases hst with rfl | hin
  · simp [Stage.executeEnd, hraised]
  · cases st with
    | runBody j r =>
        simp only [Stage.executeEnd, hraised]
        by_cases hdis : is_db_disconnect exc = true <;> simp [hdis]
    | loop j r bl pc =>
        simp only [Stage.executeEnd, hraised]
        by_cases hdis : is_db_disconnect exc = true <;> simp [hdis]
    | finishSuccess j r exit v =>
        simp only [Stage.executeEnd, hraised]
        by_cases hdis : is_db_disconnect exc = true <;> simp [hdis]
    | rollback j r exc' =>
        simp [Stage.executeEnd, hraised]
    | finishFailed j r exc' =>
        simp [Stage.executeEnd, hraised]
    | _ =>
        exact hin.elim

/-- A statement that raises nothing ends the call in no disconnect. -/
theorem executeEnd_of_quiet
    {st : Stage P} {exc : Exc} (hst : st = .startRun k ∨ st.InExecute k)
    (hraised : st.raised w db p snap c = none)
    (hend : st.executeEnd w db p snap c = some (.raised exc)) :
    is_db_disconnect exc = false := by
  rcases hst with rfl | hin
  · simp [Stage.executeEnd, hraised] at hend
  · cases st with
    | finishFailed j r exc' =>
        obtain rfl : exc' = exc := by simpa [Stage.executeEnd, hraised] using hend
        exact hin.2
    | _ =>
        simp [Stage.executeEnd, hraised] at hend

/-- `execute` writes no status over `RUNNING`. -/
theorem running_of_execute
    {st : Stage P} (h : stageStep w (db, pending) p snap st c = some a)
    (hst : st = .startRun k ∨ st.InExecute k) (hs : db.status p = .RUNNING) :
    a.db.status p = .RUNNING := by
  obtain ⟨-, hfailing, hfinishing⟩ := activity_of_execute hst
  rcases (stageStep_moves h).2.status_cases with
    hsame | ⟨-, hpause, -⟩ | ⟨exit, hfin, -⟩ | ⟨hfail, -⟩
  · exact hsame.trans hs
  · rw [hs] at hpause
    cases hpause
  · exact absurd hfin (hfinishing exit)
  · exact absurd hfail hfailing

end Execute

end EtlPlatform
