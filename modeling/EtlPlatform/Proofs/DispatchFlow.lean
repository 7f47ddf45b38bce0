import EtlPlatform.Proofs.StepCases

/-!
# The control flow of a dispatch

From which await point a dispatch can go where, in one step.  `LoopEdge` lists
the edges inside a batch loop, with what the loop has computed on them;
`StageEdge` those of the whole dispatch.  Measures of progress, counts and what
a dispatch works with are followed along these edges, without the statements
that are executed on them.
-/

namespace EtlPlatform

section Edges

variable {P : Type}

/-- Edges of a batch loop that reads the store. -/
inductive LoopEdge (bl : BatchLoop P) (store : Store P) : LoopPc → LoopPc → Prop
  | start {v : LoopVars} :
      bl.setup store = .ok v → LoopEdge bl store .setup (.fetch v)
  | exhausted {v : LoopVars} :
      bl.query store v = .ok [] → LoopEdge bl store (.fetch v) (.close .exhausted v)
  | fetched {v : LoopVars} {rows : List Row} :
      bl.query store v = .ok rows → rows ≠ [] →
      LoopEdge bl store (.fetch v) (.transform v rows)
  | transformed {v : LoopVars} {rows : List Row} {res : Transformed} :
      bl.transform rows = .ok res →
      LoopEdge bl store (.transform v rows) (.write v rows res)
  | skipped {v : LoopVars} {rows : List Row} {res : Transformed} :
      res.rows = [] →
      LoopEdge bl store (.write v rows res) (.advance v rows res.left 0)
  | written {v : LoopVars} {rows : List Row} {res : Transformed} {items : List Item} :
      res.rows ≠ [] → bl.write res.rows = .ok items →
      LoopEdge bl store (.write v rows res) (.advance v rows res.left items.length)
  | advanced {v v' : LoopVars} {rows left : List Row} {n : ℕ} {ws : List (Write P)} :
      bl.advance v rows left n = .ok (v', ws) →
      LoopEdge bl store (.advance v rows left n) (.commit v')
  | committed (v : LoopVars) :
      LoopEdge bl store (.commit v) (.pauseRead v)
  | goesOn (v : LoopVars) :
      LoopEdge bl store (.pauseRead v) (.fetch v)
  | noticed (v : LoopVars) :
      LoopEdge bl store (.pauseRead v) (.pauseApply v)
  | paused (v : LoopVars) :
      LoopEdge bl store (.pauseApply v) (.close .paused v)

/-- Where the handler of the dispatcher leads in attempt `k`. -/
inductive Handles (w : World) (k : ℕ) : Stage P → Prop
  | leaves (res : Except Exc Unit) : Handles w k (.returning res)
  | waits (delay : ℚ) : k < w.max_attempts → Handles w k (.sleep k delay)
  | givesUp (exc : Exc) : Handles w k (.failIfActive exc)

/-- The attempt a stage belongs to, while the handler of the dispatcher is around it. -/
def Stage.attempt : Stage P → Option ℕ
  | .startRun k | .runBody k _ | .loop k _ _ _ | .finishSuccess k _ _ _ | .getStatus k _
  | .finishIdle k _ | .rollback k _ _ | .finishFailed k _ _ => some k
  | .snapshot | .sleep _ _ | .failIfActive _ | .returning _ => none

/-- The run of a stage inside the `try` of the executor. -/
def Stage.tries : Stage P → Option (ℕ × ℕ)
  | .runBody k r | .loop k r _ _ | .finishSuccess k r _ _ => some (k, r)
  | _ => none

theorem attempt_of_tries
    {st : Stage P} {k r : ℕ} (h : st.tries = some (k, r)) :
    st.attempt = some k := by
  cases st <;> simp_all [Stage.tries, Stage.attempt]

variable [DecidableEq P]

/-- Edges of a dispatch of `p` with a snapshot. -/
inductive StageEdge (w : World) (store : Store P) (p : P) (snap : PipelineSnapshot) :
    Stage P → Stage P → Prop
  | begins :
      1 ≤ w.max_attempts → StageEdge w store p snap .snapshot (.startRun 1)
  | leaves (res : Except Exc Unit) :
      StageEdge w store p snap .snapshot (.returning res)
  | opens (k r : ℕ) :
      StageEdge w store p snap (.startRun k) (.runBody k r)
  | plans {k r : ℕ} {bl : BatchLoop P} :
      _run_body w p snap = .ok bl →
      StageEdge w store p snap (.runBody k r) (.loop k r bl .setup)
  | loops {k r : ℕ} {bl : BatchLoop P} {pc pc' : LoopPc} :
      LoopEdge bl store pc pc' →
      StageEdge w store p snap (.loop k r bl pc) (.loop k r bl pc')
  | closes {k r : ℕ} {bl : BatchLoop P} {exit : Exit} {v : LoopVars} :
      StageEdge w store p snap (.loop k r bl (.close exit v)) (.finishSuccess k r exit v)
  | succeeds {k r : ℕ} {exit : Exit} {v : LoopVars} :
      StageEdge w store p snap (.finishSuccess k r exit v) (.getStatus k exit)
  | finds {k : ℕ} {exit : Exit} :
      StageEdge w store p snap (.getStatus k exit) (.finishIdle k exit)
  | settles {k : ℕ} {exit : Exit} {st : Stage P} :
      st = .getStatus k exit ∨ st = .finishIdle k exit →
      StageEdge w store p snap st (.returning (.ok ()))
  | fails {k r : ℕ} {st : Stage P} (exc : Exc) :
      st.tries = some (k, r) → StageEdge w store p snap st (.rollback k r exc)
  | rolledBack {k r : ℕ} {exc : Exc} :
      StageEdge w store p snap (.rollback k r exc) (.finishFailed k r exc)
  | handled {k : ℕ} {st st' : Stage P} :
      st.attempt = some k → Handles w k st' → StageEdge w store p snap st st'
  | retries {k : ℕ} {delay : ℚ} :
      StageEdge w store p snap (.sleep k delay) (.startRun (k + 1))
  | gaveUp {exc : Exc} (res : Except Exc Unit) :
      StageEdge w store p snap (.failIfActive exc) (.returning res)

omit [DecidableEq P] in
theorem onDispatchExc_handles
    (w : World) (k : ℕ) (exc : Exc) :
    Handles w k (onDispatchExc w k exc : Stage P) := by
  unfold onDispatchExc
  by_cases hdis : is_db_disconnect exc = true
  · rw [if_pos hdis]
    exact .leaves _
  · rw [if_neg hdis]
    by_cases hlt : k < w.max_attempts
    · rw [if_pos hlt]
      cases backoffDelay w.backoff_seconds k with
      | ok delay =>
          exact .waits delay hlt
      | error exc' =>
          exact .leaves _
    · rw [if_neg hlt]
      exact .givesUp exc

/-- An exception in the `try` of the executor. -/
theorem edge_onExecuteExc
    {w : World} {store : Store P} {p : P} {snap : PipelineSnapshot} {st : Stage P} {k r : ℕ}
    (h : st.tries = some (k, r)) (exc : Exc) :
    StageEdge w store p snap st (onExecuteExc w k r exc) := by
  unfold onExecuteExc
  by_cases hdis : is_db_disconnect exc = true
  · rw [if_pos hdis]
    exact .handled (attempt_of_tries h) (onDispatchExc_handles w k exc)
  · rw [if_neg hdis]
    exact .fails exc h

/-- An exception elsewhere in an attempt. -/
theorem edge_onDispatchExc
    {w : World} {store : Store P} {p : P} {snap : PipelineSnapshot} {st : Stage P} {k : ℕ}
    (h : st.attempt = some k) (exc : Exc) :
    StageEdge w store p snap st (onDispatchExc w k exc) :=
  .handled h (onDispatchExc_handles w k exc)

omit [DecidableEq P] in
/-- A statement leads on, or to the handler around it. -/
theorem answer_stage
    {Q : Stage P → Prop} {c : Choice} {kept done : Db P × List (Write P)}
    {next : Stage P} {onExc : Exc → Stage P} {a : After P}
    (h : answer c kept done next onExc = some a)
    (hnext : Q next) (hexc : ∀ exc, Q (onExc exc)) :
    Q a.stage := by
  rcases answer_cases h with ⟨-, rfl⟩ | ⟨exc, -, rfl⟩ | ⟨-, rfl⟩
  · exact hnext
  · exact hexc exc
  · exact hexc connectionLost

theorem answerUpdate_stage
    {Q : Stage P → Prop} {c : Choice} {kept : Db P × List (Write P)} {p : P}
    {allowed : List PipelineStatus} {update : Db P → P → Db P}
    {next : Stage P} {onExc : Exc → Stage P} {a : After P}
    (h : answerUpdate c kept p allowed update next onExc = some a)
    (hnext : Q next) (hexc : ∀ exc, Q (onExc exc)) :
    Q a.stage := by
  unfold answerUpdate at h
  split_ifs at h <;> exact answer_stage h hnext hexc

omit [DecidableEq P] in
/-- A computation leads on with its value, or to the handler of its error. -/
theorem stageOf_of
    {α : Type} {Q : Stage P → Prop} {onExc : Exc → Stage P} {next : α → Stage P}
    {res : Except Exc α}
    (hnext : ∀ x, res = .ok x → Q (next x)) (hexc : ∀ exc, Q (onExc exc)) :
    Q (stageOf onExc next res) := by
  cases res with
  | ok x =>
      exact hnext x rfl
  | error exc =>
      exact hexc exc

/-- **One step of a batch loop is one of its edges.** -/
theorem loopStep_edge
    {w : World} {kept : Db P × List (Write P)} {p : P} {snap : PipelineSnapshot} {k r : ℕ}
    {bl : BatchLoop P} {pc : LoopPc} {c : Choice} {a : After P}
    (h : loopStep w kept p k r bl pc c = some a) :
    StageEdge w kept.1.store p snap (.loop k r bl pc) a.stage := by
  have hexc : ∀ exc, StageEdge w kept.1.store p snap (.loop k r bl pc)
      (onExecuteExc w k r exc) :=
    fun exc => edge_onExecuteExc rfl exc
  cases pc with
  | setup =>
      exact answer_stage h (stageOf_of (fun v hv => .loops (.start hv)) hexc) hexc
  | fetch v =>
      refine answer_stage h (stageOf_of (fun rows hrows => ?_) hexc) hexc
      by_cases hnil : rows = []
      · subst hnil
        exact .loops (.exhausted hrows)
      · rw [if_neg hnil]
        exact .loops (.fetched hrows hnil)
  | transform v rows =>
      exact answer_stage h (stageOf_of (fun res hres => .loops (.transformed hres)) hexc) hexc
  | write v rows res =>
      rcases loopStep_write_cases h with ⟨hnil, h⟩ | ⟨exc, -, -, h⟩ | ⟨items, hne, hw, h⟩
      · exact answer_stage h (.loops (.skipped hnil)) hexc
      · exact answer_stage h (hexc exc) hexc
      · rcases writeStep_cases h with ⟨-, hans⟩ | ⟨-, hans | ⟨applied, exc, -, rfl⟩⟩
        · exact answer_stage hans (.loops (.written hne hw)) hexc
        · exact answer_stage hans (.loops (.written hne hw)) hexc
        · exact hexc exc
  | advance v rows left n =>
      rcases loopStep_advance_cases h with ⟨exc, -, h⟩ | ⟨v', ws, hadv, h⟩
      · exact answer_stage h (hexc exc) hexc
      · exact answer_stage h (.loops (.advanced hadv)) hexc
  | commit v =>
      exact answer_stage h (.loops (.committed v)) hexc
  | pauseRead v =>
      refine answer_stage h ?_ hexc
      split_ifs
      · exact .loops (.noticed v)
      · exact .loops (.goesOn v)
  | pauseApply v =>
      exact answerUpdate_stage h (.loops (.paused v)) hexc
  | close exit v =>
      exact answer_stage h .closes hexc

/-- **One step of a dispatch is one of its edges.** -/
theorem stageStep_edge
    {w : World} {kept : Db P × List (Write P)} {p : P} {snap : PipelineSnapshot}
    {st : Stage P} {c : Choice} {a : After P}
    (h : stageStep w kept p snap st c = some a) :
    StageEdge w kept.1.store p snap st a.stage := by
  cases st with
  | snapshot =>
      refine answer_stage h ?_ (fun exc => .leaves _)
      split_ifs with hmax
      · exact .begins hmax
      · exact .leaves _
  | startRun k =>
      exact answer_stage h (.opens k _) (edge_onDispatchExc rfl)
  | runBody k r =>
      exact answer_stage h
        (stageOf_of (fun bl hbl => .plans hbl) (edge_onExecuteExc rfl)) (edge_onExecuteExc rfl)
  | loop k r bl pc =>
      exact loopStep_edge h
  | finishSuccess k r exit v =>
      exact answer_stage h .succeeds (edge_onExecuteExc rfl)
  | getStatus k exit =>
      refine answer_stage h ?_ (edge_onDispatchExc rfl)
      split_ifs
      · exact .settles (Or.inl rfl)
      · exact .finds
  | finishIdle k exit =>
      exact answerUpdate_stage h (.settles (Or.inr rfl)) (edge_onDispatchExc rfl)
  | rollback k r exc =>
      exact answer_stage h .rolledBack (edge_onDispatchExc rfl)
  | finishFailed k r exc =>
      exact answer_stage h (edge_onDispatchExc rfl exc) (edge_onDispatchExc rfl)
  | sleep k delay =>
      cases c with
      | ok =>
          obtain rfl := Option.some.inj h
          exact .retries
      | _ =>
          cases h
  | failIfActive exc =>
      exact answerUpdate_stage h (.gaveUp _) (fun exc' => .gaveUp _)
  | returning res =>
      cases h

end Edges

end EtlPlatform
