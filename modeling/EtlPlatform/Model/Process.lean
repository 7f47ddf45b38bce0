import EtlPlatform.Model.BatchLoop
import EtlPlatform.Model.Repos

/-!
# The runner process

One runner process is a state machine over its await points: `main_loop` with
the startup recovery, `PipelineManager.tick`, `PipelineDispatcher.dispatch`,
`PipelineExecutor.execute` and the batch loop of the runner it picks.  A step
executes one statement (or one call of user code) against the database and
moves on to the next await point.

The environment answers every statement: it succeeds, it raises, or the
connection is lost.  A lost connection raises `connectionLost`; a commit may
have been applied all the same when its answer is lost, and anything the
session had not committed is gone.
-/

namespace EtlPlatform

/-- How a batch loop was left. -/
inductive Exit where
  /-- a batch query returned no rows -/
  | exhausted
  /-- `_pause_if_requested` returned true -/
  | paused
deriving DecidableEq

/-- Await points of a batch loop. -/
inductive LoopPc where
  | setup
  | fetch (v : LoopVars)
  | transform (v : LoopVars) (rows : List Row)
  | write (v : LoopVars) (rows : List Row) (res : Transformed)
  | advance (v : LoopVars) (rows left : List Row) (written : ℕ)
  | commit (v : LoopVars)
  /-- `_pause_if_requested`, before `get_status` -/
  | pauseRead (v : LoopVars)
  /-- `_pause_if_requested`, before `apply_pause_requested` -/
  | pauseApply (v : LoopVars)
  /-- `finally: await writer.close()` -/
  | close (exit : Exit) (v : LoopVars)

/-- Await points of a dispatch that has claimed its pipeline. -/
inductive Stage (P : Type) where
  /-- the claim is committed, the tasks have not been read -/
  | snapshot
  | startRun (attempt : ℕ)
  | runBody (attempt run : ℕ)
  | loop (attempt run : ℕ) (bl : BatchLoop P) (pc : LoopPc)
  | finishSuccess (attempt run : ℕ) (exit : Exit) (v : LoopVars)
  | getStatus (attempt : ℕ) (exit : Exit)
  | finishIdle (attempt : ℕ) (exit : Exit)
  /-- the executor's handler, before `session.rollback()` -/
  | rollback (attempt run : ℕ) (exc : Exc)
  | finishFailed (attempt run : ℕ) (exc : Exc)
  | sleep (attempt : ℕ) (delay : ℚ)
  | failIfActive (exc : Exc)
  /-- the last statement is done; the coroutine has not returned or raised yet -/
  | returning (res : Except Exc Unit)

/-- Await points of a runner process. -/
inductive Pc (P : Type) where
  | down
  /-- `main_loop`, before `list_stuck_running_ids` -/
  | recovery
  | recovering (ids : List P)
  /-- the startup recovery is over, the first tick has not begun -/
  | started
  | polling
  | tick (todo : List (P × PipelineStatus))
  | dispatch (p : P) (snap : PipelineSnapshot) (st : Stage P) (todo : List (P × PipelineStatus))

/-- A process: where it stands and what its session has not committed. -/
structure Proc (P : Type) where
  pc : Pc P
  pending : List (Write P)

/-- The environment's answer to one statement or call. -/
inductive Choice where
  | ok
  /-- it raises; a `SystemExit`, `KeyboardInterrupt` or `CancelledError`, which no handler
  catches, ends the process instead, as `kill` does -/
  | raise (exc : Exc)
  | lost
  /-- a bulk request that applied the items marked `true` and then failed -/
  | partialBulk (applied : List Bool) (exc : Exc)
deriving DecidableEq

section Handlers

variable {P : Type}

/-- `self._backoff_seconds[min(attempt - 1, len(self._backoff_seconds) - 1)]` -/
def backoffDelay (backoff_seconds : List ℚ) (attempt : ℕ) : Except Exc ℚ :=
  match backoff_seconds[min (attempt - 1) (backoff_seconds.length - 1)]? with
  | some delay => .ok delay
  | none => .error (indexError "tuple")

/-- `except Exception` in `PipelineDispatcher.dispatch` -/
def onDispatchExc (w : World) (attempt : ℕ) (exc : Exc) : Stage P :=
  if is_db_disconnect exc then .returning (.ok ())
  else if attempt < w.max_attempts then
    match backoffDelay w.backoff_seconds attempt with
    | .ok delay => .sleep attempt delay
    | .error exc' => .returning (.error exc')
  else .failIfActive exc

/-- `except Exception` in `PipelineExecutor.execute` -/
def onExecuteExc (w : World) (attempt run : ℕ) (exc : Exc) : Stage P :=
  if is_db_disconnect exc then onDispatchExc w attempt exc
  else .rollback attempt run exc

/-- Continue with a computed value, or with the handler of the error it raised. -/
def stageOf {α : Type} (onExc : Exc → Stage P) (next : α → Stage P) :
    Except Exc α → Stage P
  | .ok a => next a
  | .error exc => onExc exc

/-- The database, the session and the next await point after a step. -/
structure After (P : Type) where
  db : Db P
  pending : List (Write P)
  stage : Stage P

/--
One statement.  `kept` and `done` are the database and the session without and
with its effect.
-/
def answer (c : Choice) (kept done : Db P × List (Write P))
    (next : Stage P) (onExc : Exc → Stage P) : Option (After P) :=
  match c with
  | .ok => some ⟨done.1, done.2, next⟩
  | .raise exc => some ⟨kept.1, kept.2, onExc exc⟩
  | .lost => some ⟨done.1, [], onExc connectionLost⟩
  | .partialBulk _ _ => none

/-- A statement that only reads. -/
def answerRead (c : Choice) (kept : Db P × List (Write P))
    (next : Stage P) (onExc : Exc → Stage P) : Option (After P) :=
  answer c kept kept next onExc

/-- A statement followed by `session.commit()`, which commits the whole session. -/
def answerCommit [DecidableEq P] (c : Choice) (kept : Db P × List (Write P)) (db : Db P)
    (next : Stage P) (onExc : Exc → Stage P) : Option (After P) :=
  answer c kept (db.commit kept.2, []) next onExc

/-- A conditional update followed by `session.commit()` if it matched. -/
def answerUpdate [DecidableEq P] (c : Choice) (kept : Db P × List (Write P)) (p : P)
    (allowed : List PipelineStatus) (update : Db P → P → Db P)
    (next : Stage P) (onExc : Exc → Stage P) : Option (After P) :=
  if kept.1.status p ∈ allowed then answerCommit c kept (update kept.1 p) next onExc
  else answerRead c kept next onExc

/-- Keep the items whose mark is `true`. -/
def maskItems : List Bool → List Item → List Item
  | true :: marks, item :: items => item :: maskItems marks items
  | false :: marks, _ :: items => maskItems marks items
  | _, _ => []

/-- A bulk that fails half way has applied a part of its items, in order. -/
theorem maskItems_sublist
    (marks : List Bool) (items : List Item) :
    (maskItems marks items).Sublist items := by
  induction marks generalizing items with
  | nil =>
      exact List.nil_sublist items
  | cons mark marks ih =>
      cases items with
      | nil =>
          cases mark <;> exact List.nil_sublist []
      | cons item items =>
          cases mark with
          | true =>
              exact (ih items).cons_cons item
          | false =>
              exact (ih items).cons item

end Handlers

section Steps

variable {P : Type} [DecidableEq P]

/-- `writer.write(session, pipeline, rows)` -/
def writeStep (kept : Db P × List (Write P)) (bl : BatchLoop P) (items : List Item)
    (next : Stage P) (onExc : Exc → Stage P) (c : Choice) : Option (After P) :=
  if bl.transactional then
    answer c kept (kept.1, kept.2 ++ items.map .upsert) next onExc
  else
    match c with
    | .partialBulk applied exc =>
        some ⟨kept.1.applySink (maskItems applied items), kept.2, onExc exc⟩
    | c => answer c kept (kept.1.applySink items, kept.2) next onExc

/-- One step of the batch loop. -/
def loopStep (w : World) (kept : Db P × List (Write P)) (p : P)
    (attempt run : ℕ) (bl : BatchLoop P) (pc : LoopPc) (c : Choice) : Option (After P) :=
  let goto := fun pc' => Stage.loop attempt run bl pc'
  let onExc := onExecuteExc w attempt run
  match pc with
  | .setup =>
      answerRead c kept
        (stageOf onExc (fun v => goto (.fetch v)) (bl.setup kept.1.store)) onExc
  | .fetch v =>
      answerRead c kept
        (stageOf onExc
          (fun rows => if rows = [] then goto (.close .exhausted v) else goto (.transform v rows))
          (bl.query kept.1.store v)) onExc
  | .transform v rows =>
      answerRead c kept
        (stageOf onExc (fun res => goto (.write v rows res)) (bl.transform rows)) onExc
  | .write v rows res =>
      if res.rows = [] then answerRead c kept (goto (.advance v rows res.left 0)) onExc
      else
        match bl.write res.rows with
        | .error exc => answerRead c kept (onExc exc) onExc
        | .ok items =>
            writeStep kept bl items (goto (.advance v rows res.left items.length)) onExc c
  | .advance v rows left written =>
      match bl.advance v rows left written with
      | .error exc => answerRead c kept (onExc exc) onExc
      | .ok (v', ws) => answer c kept (kept.1, kept.2 ++ ws) (goto (.commit v')) onExc
  | .commit v => answerCommit c kept kept.1 (goto (.pauseRead v)) onExc
  | .pauseRead v =>
      answerRead c kept
        (if kept.1.status p = .PAUSE_REQUESTED then goto (.pauseApply v) else goto (.fetch v))
        onExc
  | .pauseApply v =>
      answerUpdate c kept p [.PAUSE_REQUESTED] Db.apply_pause_requested
        (goto (.close .paused v)) onExc
  | .close exit v => answerRead c kept (.finishSuccess attempt run exit v) onExc

/-- One step of a dispatch between the snapshot and the return. -/
def stageStep (w : World) (kept : Db P × List (Write P)) (p : P) (snap : PipelineSnapshot)
    (st : Stage P) (c : Choice) : Option (After P) :=
  match st with
  | .snapshot =>
      answerRead c kept
        (if 1 ≤ w.max_attempts then .startRun 1 else .returning (.ok ()))
        (fun exc => .returning (.error exc))
  | .startRun k =>
      answerCommit c kept (kept.1.start_run p) (.runBody k kept.1.nextRun) (onDispatchExc w k)
  | .runBody k r =>
      answerRead c kept
        (stageOf (onExecuteExc w k r) (fun bl => .loop k r bl .setup) (_run_body w p snap))
        (onExecuteExc w k r)
  | .loop k r bl pc => loopStep w kept p k r bl pc c
  | .finishSuccess k r exit v =>
      answerCommit c kept (kept.1.finish_success r v.total_read v.total_written)
        (.getStatus k exit) (onExecuteExc w k r)
  | .getStatus k exit =>
      answerRead c kept
        (if kept.1.status p = .PAUSED then .returning (.ok ()) else .finishIdle k exit)
        (onDispatchExc w k)
  | .finishIdle k _ =>
      answerUpdate c kept p [.RUNNING] Db.finish_running_to_idle
        (.returning (.ok ())) (onDispatchExc w k)
  | .rollback k r exc =>
      answer c (kept.1, []) (kept.1, []) (.finishFailed k r exc) (onDispatchExc w k)
  | .finishFailed k r exc =>
      answerCommit c kept (kept.1.finish_failed r (errText exc))
        (onDispatchExc w k exc) (onDispatchExc w k)
  | .sleep k _ =>
      match c with
      | .ok => some ⟨kept.1, kept.2, .startRun (k + 1)⟩
      | _ => none
  | .failIfActive exc =>
      answerUpdate c kept p [.RUNNING, .PAUSE_REQUESTED] Db.fail_if_active
        (.returning (.error exc)) (fun exc' => .returning (.error exc'))
  | .returning _ => none

/-- Where a tick goes on after a dispatch returned or raised. -/
def afterDispatch (todo : List (P × PipelineStatus)) : Except Exc Unit → Pc P
  | .ok () => .tick todo
  | .error exc => if is_db_disconnect exc then .polling else .tick todo

/-- `dispatch` of a candidate that was read with status `PAUSE_REQUESTED`. -/
def dispatchPause (db : Db P) (p : P) (todo : List (P × PipelineStatus)) (c : Choice) :
    Option (Db P × Proc P) :=
  match c with
  | .ok => some (db.apply_pause_requested p, ⟨.tick todo, []⟩)
  | .raise exc => some (db, ⟨afterDispatch todo (.error exc), []⟩)
  | .lost => some (db.apply_pause_requested p, ⟨afterDispatch todo (.error connectionLost), []⟩)
  | .partialBulk _ _ => none

/-- `dispatch` of a candidate that was read with status `RUN_REQUESTED`, up to the claim. -/
def dispatchClaim (db : Db P) (p : P) (todo : List (P × PipelineStatus)) (c : Choice) :
    Option (Db P × Proc P) :=
  match c with
  | .ok =>
      if db.status p = .RUN_REQUESTED then
        some (db.claim_run_requested p,
          ⟨.dispatch p (snapshot_pipeline (db.pipelines p)) .snapshot todo, []⟩)
      else some (db, ⟨.tick todo, []⟩)
  | .raise exc => some (db, ⟨afterDispatch todo (.error exc), []⟩)
  | .lost => some (db.claim_run_requested p, ⟨afterDispatch todo (.error connectionLost), []⟩)
  | .partialBulk _ _ => none

/-- The snapshot a dispatch continues with: the tasks join it when they are read. -/
def nextSnapshot (db : Db P) (p : P) (snap : PipelineSnapshot) (st : Stage P) (c : Choice) :
    PipelineSnapshot :=
  match st, c with
  | .snapshot, .ok => snapshot_pipeline_with_tasks snap (db.tasks p)
  | _, _ => snap

/-- One step of a runner process. -/
def procStep (w : World) (db : Db P) (pr : Proc P) (c : Choice) : Option (Db P × Proc P) :=
  match pr.pc with
  | .down => none
  | .recovery =>
      match c with
      | .ok =>
          let ids := db.list_stuck_running_ids
          some (db, ⟨if ids = [] then .started else .recovering ids, []⟩)
      | _ => some (db, ⟨.down, []⟩)
  | .recovering ids =>
      let recovered := (db.recover_running_failed_bulk ids).mark_run_requested_bulk ids
      match c with
      | .ok => some (recovered, ⟨.started, []⟩)
      | .lost => some (recovered, ⟨.down, []⟩)
      | _ => some (db, ⟨.down, []⟩)
  | .started | .polling =>
      match c with
      | .ok => some (db, ⟨.tick db.get_active, []⟩)
      | _ => some (db, ⟨.polling, []⟩)
  | .tick [] => some (db, ⟨.polling, []⟩)
  | .tick ((p, .PAUSE_REQUESTED) :: todo) => dispatchPause db p todo c
  | .tick ((p, .RUN_REQUESTED) :: todo) => dispatchClaim db p todo c
  | .tick (_ :: todo) => some (db, ⟨.tick todo, []⟩)
  | .dispatch _ _ (.returning res) todo => some (db, ⟨afterDispatch todo res, []⟩)
  | .dispatch p snap st todo =>
      (stageStep w (db, pr.pending) p snap st c).map (fun a =>
        (a.db, ⟨.dispatch p (nextSnapshot db p snap st c) a.stage todo, a.pending⟩))

end Steps

end EtlPlatform
