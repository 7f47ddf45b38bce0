import EtlPlatform.Model.System
import EtlPlatform.Proofs.StepCases

/-!
# The status protocol

Seen from the status column, a runner process that has claimed a pipeline goes
through ten activities, and each step of it either leaves the status alone or
is one of four conditional updates.  `Moves` lists what a step can do to the
status of the claimed pipeline and to the activity; `Move` lifts it to a whole
process, whose other steps claim, apply a pause or recover.

`stageStep_moves` and `procStep_move` show that the runner process refines this
protocol.  The safety properties of the platform are proved from the lists
alone, without looking at the process again.
-/

namespace EtlPlatform

/-- What a dispatch is doing between its claim and its return. -/
inductive Activity where
  | claimed
  | starting
  /-- inside the batch loop, up to and including the commit of a batch -/
  | looping
  /-- about to read the status between two batches -/
  | checking
  /-- about to apply the pause it has seen -/
  | pausing
  | exited (exit : Exit)
  | finishing (exit : Exit)
  /-- handling an exception, or waiting for the next attempt -/
  | handling
  | failing
  | leaving
deriving DecidableEq

namespace Activity

/-- Where an exception leads. -/
def isHandler : Activity → Prop
  | handling | failing | leaving => True
  | _ => False

/-- Activities from which the dispatch can commit a batch without starting an attempt. -/
def inBatches : Activity → Prop
  | looping | checking => True
  | _ => False

instance : DecidablePred inBatches := fun a =>
  match a with
  | looping | checking => .isTrue trivial
  | claimed | starting | pausing | exited _ | finishing _ | handling | failing | leaving =>
      .isFalse (fun h => h)

end Activity

/-- Activity of a loop position. -/
def LoopPc.activity : LoopPc → Activity
  | .setup | .fetch _ | .transform _ _ | .write _ _ _ | .advance _ _ _ _ | .commit _ => .looping
  | .pauseRead _ => .checking
  | .pauseApply _ => .pausing
  | .close exit _ => .exited exit

/-- Activity of a stage. -/
def Stage.activity {P : Type} : Stage P → Activity
  | .snapshot => .claimed
  | .startRun _ => .starting
  | .runBody _ _ => .looping
  | .loop _ _ _ pc => pc.activity
  | .finishSuccess _ _ exit _ => .exited exit
  | .getStatus _ exit => .exited exit
  | .finishIdle _ exit => .finishing exit
  | .rollback _ _ _ => .handling
  | .finishFailed _ _ _ => .handling
  | .sleep _ _ => .handling
  | .failIfActive _ => .failing
  | .returning _ => .leaving

/-- The effect of `UPDATE ... WHERE status IN allowed` on one status. -/
def moveStatus (allowed : List PipelineStatus) (new s : PipelineStatus) : PipelineStatus :=
  if s ∈ allowed then new else s

/-- What one step of a dispatch does to the status of its pipeline and to its activity. -/
inductive Moves : PipelineStatus → Activity → PipelineStatus → Activity → Prop
  | fault (s : PipelineStatus) {a a' : Activity} :
      a ≠ .leaving → a'.isHandler → Moves s a s a'
  | prepare (s : PipelineStatus) : Moves s .claimed s .starting
  | begin (s : PipelineStatus) : Moves s .starting s .looping
  | work (s : PipelineStatus) : Moves s .looping s .looping
  | batch (s : PipelineStatus) : Moves s .looping s .checking
  | exhaust (s : PipelineStatus) : Moves s .looping s (.exited .exhausted)
  | goOn {s : PipelineStatus} :
      s ≠ .PAUSE_REQUESTED → Moves s .checking s .looping
  | notice : Moves .PAUSE_REQUESTED .checking .PAUSE_REQUESTED .pausing
  | pause (s : PipelineStatus) {a' : Activity} :
      a' = .exited .paused ∨ a'.isHandler →
      Moves s .pausing (moveStatus [.PAUSE_REQUESTED] .PAUSED s) a'
  | wind (s : PipelineStatus) (exit : Exit) : Moves s (.exited exit) s (.exited exit)
  | finish {s : PipelineStatus} (exit : Exit) :
      s ≠ .PAUSED → Moves s (.exited exit) s (.finishing exit)
  | idle (s : PipelineStatus) (exit : Exit) {a' : Activity} :
      a'.isHandler → Moves s (.finishing exit) (moveStatus [.RUNNING] .IDLE s) a'
  | retry (s : PipelineStatus) : Moves s .handling s .starting
  | fail (s : PipelineStatus) {a' : Activity} :
      a'.isHandler → Moves s .failing (moveStatus [.RUNNING, .PAUSE_REQUESTED] .FAILED s) a'

/-- The four status changes a dispatch can make, and where it makes them. -/
theorem Moves.status_cases
    {s s' : PipelineStatus} {a a' : Activity}
    (h : Moves s a s' a') :
    s' = s ∨
      (a = .pausing ∧ s = .PAUSE_REQUESTED ∧ s' = .PAUSED) ∨
      (∃ exit, a = .finishing exit ∧ s = .RUNNING ∧ s' = .IDLE) ∨
      (a = .failing ∧ (s = .RUNNING ∨ s = .PAUSE_REQUESTED) ∧ s' = .FAILED) := by
  cases h with
  | pause s _ =>
      cases s <;> simp [moveStatus]
  | idle s exit _ =>
      cases s <;> simp [moveStatus]
  | fail s _ =>
      cases s <;> simp [moveStatus]
  | _ =>
      exact Or.inl rfl

section Refinement

variable {P : Type}

theorem onDispatchExc_isHandler
    (w : World) (k : ℕ) (exc : Exc) :
    (onDispatchExc w k exc : Stage P).activity.isHandler := by
  unfold onDispatchExc
  split_ifs
  · trivial
  · cases backoffDelay w.backoff_seconds k <;> trivial
  · trivial

theorem onExecuteExc_isHandler
    (w : World) (k r : ℕ) (exc : Exc) :
    (onExecuteExc w k r exc : Stage P).activity.isHandler := by
  unfold onExecuteExc
  split_ifs
  · exact onDispatchExc_isHandler w k exc
  · trivial

/-- A statement that leaves the status of `p` alone moves to `next` or to a handler. -/
theorem answer_quiet
    {c : Choice} {kept done : Db P × List (Write P)}
    {next : Stage P} {onExc : Exc → Stage P} {a : After P}
    (h : answer c kept done next onExc = some a)
    (hdone : done.1.status = kept.1.status)
    (hexc : ∀ exc, (onExc exc).activity.isHandler) :
    a.db.status = kept.1.status ∧ (a.stage = next ∨ a.stage.activity.isHandler) := by
  rcases answer_cases h with ⟨-, rfl⟩ | ⟨exc, -, rfl⟩ | ⟨-, rfl⟩
  · exact ⟨hdone, Or.inl rfl⟩
  · exact ⟨rfl, Or.inr (hexc exc)⟩
  · exact ⟨hdone, Or.inr (hexc connectionLost)⟩

theorem answerRead_quiet
    {c : Choice} {kept : Db P × List (Write P)}
    {next : Stage P} {onExc : Exc → Stage P} {a : After P}
    (h : answerRead c kept next onExc = some a)
    (hexc : ∀ exc, (onExc exc).activity.isHandler) :
    a.db.status = kept.1.status ∧ (a.stage = next ∨ a.stage.activity.isHandler) :=
  answer_quiet h rfl hexc

/-- Writing the sink never touches the status. -/
theorem writeStep_quiet
    {kept : Db P × List (Write P)} {bl : BatchLoop P} {items : List Item}
    {next : Stage P} {onExc : Exc → Stage P} {c : Choice} {a : After P}
    (h : writeStep kept bl items next onExc c = some a)
    (hexc : ∀ exc, (onExc exc).activity.isHandler) :
    a.db.status = kept.1.status ∧ (a.stage = next ∨ a.stage.activity.isHandler) := by
  rcases writeStep_cases h with ⟨-, hans⟩ | ⟨-, hans | ⟨applied, exc, -, rfl⟩⟩
  · exact answer_quiet hans rfl hexc
  · exact answer_quiet hans rfl hexc
  · exact ⟨rfl, Or.inr (hexc exc)⟩

/-- A computed value leads on, an error leads to a handler. -/
theorem stageOf_cases
    {α : Type} {onExc : Exc → Stage P} (next : α → Stage P) (r : Except Exc α)
    (hexc : ∀ exc, (onExc exc).activity.isHandler) :
    (∃ x, r = .ok x ∧ stageOf onExc next r = next x) ∨
      (stageOf onExc next r).activity.isHandler := by
  cases r with
  | ok x =>
      exact Or.inl ⟨x, rfl, rfl⟩
  | error exc =>
      exact Or.inr (hexc exc)

/-- A step that leaves every status alone is a move as soon as its stage is accounted for. -/
theorem moves_of_quiet
    {kept : Db P × List (Write P)} {p : P} {act : Activity} {next : Stage P} {a : After P}
    (h : a.db.status = kept.1.status ∧ (a.stage = next ∨ a.stage.activity.isHandler))
    (hact : act ≠ .leaving)
    (hnext : next.activity.isHandler ∨
      Moves (kept.1.status p) act (kept.1.status p) next.activity) :
    (∀ q, q ≠ p → a.db.status q = kept.1.status q) ∧
      Moves (kept.1.status p) act (a.db.status p) a.stage.activity := by
  obtain ⟨hstatus, hstage⟩ := h
  refine ⟨fun q _ => by rw [hstatus], ?_⟩
  rw [hstatus]
  rcases hstage with hstage | hstage
  · rw [hstage]
    rcases hnext with hnext | hnext
    · exact .fault _ hact hnext
    · exact hnext
  · exact .fault _ hact hstage

variable [DecidableEq P]

theorem answerCommit_quiet
    {c : Choice} {kept : Db P × List (Write P)} {db : Db P}
    {next : Stage P} {onExc : Exc → Stage P} {a : After P}
    (h : answerCommit c kept db next onExc = some a)
    (hdb : db.status = kept.1.status)
    (hexc : ∀ exc, (onExc exc).activity.isHandler) :
    a.db.status = kept.1.status ∧ (a.stage = next ∨ a.stage.activity.isHandler) :=
  answer_quiet h hdb hexc

/-- A conditional status update either happens as `moveStatus` says, or not at all and
the step leads to a handler. -/
theorem answerUpdate_moves
    {c : Choice} {kept : Db P × List (Write P)} {p : P}
    {allowed : List PipelineStatus} {new : PipelineStatus}
    {next : Stage P} {onExc : Exc → Stage P} {a : After P}
    (h : answerUpdate c kept p allowed (Db.updateStatus allowed new) next onExc = some a)
    (hexc : ∀ exc, (onExc exc).activity.isHandler) :
    (∀ q, q ≠ p → a.db.status q = kept.1.status q) ∧
      ((a.db.status p = moveStatus allowed new (kept.1.status p) ∧
          (a.stage = next ∨ a.stage.activity.isHandler)) ∨
        (a.db.status p = kept.1.status p ∧ a.stage.activity.isHandler)) := by
  unfold answerUpdate at h
  split_ifs at h with hmem
  · rcases answer_cases h with ⟨-, rfl⟩ | ⟨exc, -, rfl⟩ | ⟨-, rfl⟩
    · refine ⟨fun q hq => by simp [Db.status_updateStatus, hq], Or.inl ⟨?_, Or.inl rfl⟩⟩
      simp [Db.status_updateStatus, moveStatus, hmem]
    · exact ⟨fun q _ => rfl, Or.inr ⟨rfl, hexc exc⟩⟩
    · refine ⟨fun q hq => by simp [Db.status_updateStatus, hq],
        Or.inl ⟨?_, Or.inr (hexc connectionLost)⟩⟩
      simp [Db.status_updateStatus, moveStatus, hmem]
  · obtain ⟨hstatus, hstage⟩ := answerRead_quiet h hexc
    refine ⟨fun q _ => by rw [hstatus], Or.inl ⟨?_, hstage⟩⟩
    rw [hstatus, moveStatus, if_neg hmem]

/-- The batch loop follows the protocol. -/
theorem loopStep_moves
    {w : World} {kept : Db P × List (Write P)} {p : P} {k r : ℕ}
    {bl : BatchLoop P} {pc : LoopPc} {c : Choice} {a : After P}
    (h : loopStep w kept p k r bl pc c = some a) :
    (∀ q, q ≠ p → a.db.status q = kept.1.status q) ∧
      Moves (kept.1.status p) pc.activity (a.db.status p) a.stage.activity := by
  have hexc : ∀ exc, (onExecuteExc w k r exc : Stage P).activity.isHandler :=
    onExecuteExc_isHandler w k r
  have hact : pc.activity ≠ .leaving := by
    cases pc <;> simp [LoopPc.activity]
  cases pc with
  | setup =>
      refine moves_of_quiet (answerRead_quiet h hexc) hact ?_
      rcases stageOf_cases (fun v => Stage.loop k r bl (.fetch v))
        (bl.setup kept.1.store) hexc with ⟨v, -, hv⟩ | hv
      · rw [hv]
        exact Or.inr (.work _)
      · exact Or.inl hv
  | fetch v =>
      refine moves_of_quiet (answerRead_quiet h hexc) hact ?_
      rcases stageOf_cases
        (fun rows => if rows = [] then Stage.loop k r bl (.close .exhausted v)
          else Stage.loop k r bl (.transform v rows))
        (bl.query kept.1.store v) hexc with ⟨rows, -, hrows⟩ | hrows
      · rw [hrows]
        by_cases hnil : rows = []
        · rw [if_pos hnil]
          exact Or.inr (.exhaust _)
        · rw [if_neg hnil]
          exact Or.inr (.work _)
      · exact Or.inl hrows
  | transform v rows =>
      refine moves_of_quiet (answerRead_quiet h hexc) hact ?_
      rcases stageOf_cases (fun res => Stage.loop k r bl (.write v rows res))
        (bl.transform rows) hexc with ⟨res, -, hres⟩ | hres
      · rw [hres]
        exact Or.inr (.work _)
      · exact Or.inl hres
  | write v rows res =>
      rcases loopStep_write_cases h with ⟨-, h⟩ | ⟨exc, -, -, h⟩ | ⟨items, -, -, h⟩
      · exact moves_of_quiet (answerRead_quiet h hexc) hact (Or.inr (.work _))
      · exact moves_of_quiet (answerRead_quiet h hexc) hact (Or.inl (hexc exc))
      · exact moves_of_quiet (writeStep_quiet h hexc) hact (Or.inr (.work _))
  | advance v rows left written =>
      rcases loopStep_advance_cases h with ⟨exc, -, h⟩ | ⟨v', ws, -, h⟩
      · exact moves_of_quiet (answerRead_quiet h hexc) hact (Or.inl (hexc exc))
      · exact moves_of_quiet (answer_quiet h rfl hexc) hact (Or.inr (.work _))
  | commit v =>
      exact moves_of_quiet (answerCommit_quiet h rfl hexc) hact (Or.inr (.batch _))
  | pauseRead v =>
      refine moves_of_quiet (answerRead_quiet h hexc) hact ?_
      by_cases hp : kept.1.status p = .PAUSE_REQUESTED
      · rw [if_pos hp, hp]
        exact Or.inr .notice
      · rw [if_neg hp]
        exact Or.inr (.goOn hp)
  | pauseApply v =>
      obtain ⟨hother, hmove⟩ := answerUpdate_moves h hexc
      refine ⟨hother, ?_⟩
      rcases hmove with ⟨hstatus, hstage⟩ | ⟨hstatus, hstage⟩
      · rw [hstatus]
        refine .pause _ ?_
        rcases hstage with hstage | hstage
        · exact Or.inl (by rw [hstage]; rfl)
        · exact Or.inr hstage
      · rw [hstatus]
        exact .fault _ hact hstage
  | close exit v =>
      exact moves_of_quiet (answerRead_quiet h hexc) hact (Or.inr (.wind _ _))

/-- **A dispatch follows the protocol.** -/
theorem stageStep_moves
    {w : World} {kept : Db P × List (Write P)} {p : P} {snap : PipelineSnapshot}
    {st : Stage P} {c : Choice} {a : After P}
    (h : stageStep w kept p snap st c = some a) :
    (∀ q, q ≠ p → a.db.status q = kept.1.status q) ∧
      Moves (kept.1.status p) st.activity (a.db.status p) a.stage.activity := by
  have hdis : ∀ k exc, (onDispatchExc w k exc : Stage P).activity.isHandler :=
    fun k => onDispatchExc_isHandler w k
  have hexe : ∀ k r exc, (onExecuteExc w k r exc : Stage P).activity.isHandler :=
    fun k r => onExecuteExc_isHandler w k r
  have hact : st.activity ≠ .leaving := by
    cases st with
    | returning res =>
        cases h
    | loop k r bl pc =>
        cases pc <;> simp [Stage.activity, LoopPc.activity]
    | _ =>
        simp [Stage.activity]
  cases st with
  | snapshot =>
      refine moves_of_quiet (answerRead_quiet h (fun _ => trivial)) hact ?_
      by_cases hmax : 1 ≤ w.max_attempts
      · rw [if_pos hmax]
        exact Or.inr (.prepare _)
      · rw [if_neg hmax]
        exact Or.inl trivial
  | startRun k =>
      exact moves_of_quiet (answerCommit_quiet h rfl (hdis k)) hact (Or.inr (.begin _))
  | runBody k r =>
      refine moves_of_quiet (answerRead_quiet h (hexe k r)) hact ?_
      rcases stageOf_cases (fun bl => Stage.loop k r bl .setup)
        (_run_body w p snap) (hexe k r) with ⟨bl, -, hbl⟩ | hbl
      · rw [hbl]
        exact Or.inr (.work _)
      · exact Or.inl hbl
  | loop k r bl pc =>
      exact loopStep_moves h
  | finishSuccess k r exit v =>
      exact moves_of_quiet (answerCommit_quiet h rfl (hexe k r)) hact (Or.inr (.wind _ _))
  | getStatus k exit =>
      refine moves_of_quiet (answerRead_quiet h (hdis k)) hact ?_
      by_cases hp : kept.1.status p = .PAUSED
      · rw [if_pos hp]
        exact Or.inl trivial
      · rw [if_neg hp]
        exact Or.inr (.finish _ hp)
  | finishIdle k exit =>
      obtain ⟨hother, hmove⟩ := answerUpdate_moves h (hdis k)
      refine ⟨hother, ?_⟩
      rcases hmove with ⟨hstatus, hstage⟩ | ⟨hstatus, hstage⟩
      · rw [hstatus]
        refine .idle _ exit ?_
        rcases hstage with hstage | hstage
        · rw [hstage]
          trivial
        · exact hstage
      · rw [hstatus]
        exact .fault _ hact hstage
  | rollback k r exc =>
      have hans : answer c (kept.1, []) (kept.1, []) (.finishFailed k r exc)
          (onDispatchExc w k) = some a := h
      have hquiet := answer_quiet hans rfl (hdis k)
      exact moves_of_quiet hquiet hact (Or.inl trivial)
  | finishFailed k r exc =>
      exact moves_of_quiet (answerCommit_quiet h rfl (hdis k)) hact (Or.inl (hdis k exc))
  | sleep k delay =>
      cases c with
      | ok =>
          obtain rfl := Option.some.inj h
          exact ⟨fun q _ => rfl, .retry _⟩
      | raise exc =>
          cases h
      | lost =>
          cases h
      | partialBulk applied exc =>
          cases h
  | failIfActive exc =>
      obtain ⟨hother, hmove⟩ := answerUpdate_moves h (fun _ => trivial)
      refine ⟨hother, ?_⟩
      rcases hmove with ⟨hstatus, hstage⟩ | ⟨hstatus, hstage⟩
      · rw [hstatus]
        refine .fail _ ?_
        rcases hstage with hstage | hstage
        · rw [hstage]
          trivial
        · exact hstage
      · rw [hstatus]
        exact .fault _ hact hstage
  | returning res =>
      cases h

end Refinement

/-! ## A whole process -/

/-- Where a process stands relative to one pipeline. -/
inductive Position where
  /-- down, polling, or busy with another pipeline -/
  | away
  /-- about to apply a pause to it, in a tick -/
  | offered
  /-- in the startup recovery -/
  | recovering
  /-- between its claim of the pipeline and the return of that dispatch -/
  | dispatching (a : Activity)
deriving DecidableEq

/-- The process neither recovers nor has the pipeline claimed. -/
def Position.idle : Position → Prop
  | away | offered => True
  | recovering | dispatching _ => False

/-- What one step of a process does to the status of a pipeline and to its position. -/
inductive Move : PipelineStatus → Position → PipelineStatus → Position → Prop
  | elsewhere (s : PipelineStatus) {o o' : Position} :
      o.idle → o'.idle → Move s o s o'
  | claim {o : Position} :
      o.idle → Move .RUN_REQUESTED o .RUNNING (.dispatching .claimed)
  /-- the claim is committed, but the answer is lost -/
  | claimLost {o o' : Position} :
      o.idle → o'.idle → Move .RUN_REQUESTED o .RUNNING o'
  | applyPause {o' : Position} :
      o'.idle → Move .PAUSE_REQUESTED .offered .PAUSED o'
  | lookUp (s : PipelineStatus) {o' : Position} :
      o' = .recovering ∨ o'.idle → Move s .recovering s o'
  | recover {o' : Position} :
      o'.idle → Move .RUNNING .recovering .RUN_REQUESTED o'
  | inside {s s' : PipelineStatus} {a a' : Activity} :
      Moves s a s' a' → Move s (.dispatching a) s' (.dispatching a')
  | leave (s : PipelineStatus) {o' : Position} :
      o'.idle → Move s (.dispatching .leaving) s o'

theorem away_stays
    (s : PipelineStatus) :
    Move s .away s .away :=
  .elsewhere s trivial trivial

section Process

variable {P : Type} [DecidableEq P]

/-- Position of a process relative to `p`. -/
def Pc.position (p : P) : Pc P → Position
  | .down | .started | .polling => .away
  | .tick ((q, .PAUSE_REQUESTED) :: _) => if q = p then .offered else .away
  | .tick _ => .away
  | .recovery | .recovering _ => .recovering
  | .dispatch q _ st _ => if q = p then .dispatching st.activity else .away

theorem position_tick_idle
    (p : P) (todo : List (P × PipelineStatus)) :
    ((Pc.tick todo).position p).idle := by
  rcases todo with _ | ⟨⟨q, st⟩, todo⟩
  · trivial
  · cases st <;> by_cases hq : q = p <;> simp [Pc.position, Position.idle, hq]

theorem position_afterDispatch_idle
    (p : P) (todo : List (P × PipelineStatus)) (res : Except Exc Unit) :
    ((afterDispatch todo res).position p).idle := by
  rcases afterDispatch_cases todo res with h | h <;> rw [h]
  · trivial
  · exact position_tick_idle p todo

/-- Where a tick goes on, its process has no pipeline. -/
theorem position_idle_of_tick
    {pr : Proc P} {todo : List (P × PipelineStatus)}
    (h : pr = ⟨.polling, []⟩ ∨ pr = ⟨.tick todo, []⟩) (p : P) :
    (pr.pc.position p).idle := by
  rcases h with rfl | rfl
  · trivial
  · exact position_tick_idle p todo

theorem executing_iff_position
    (p : P) (pc : Pc P) :
    pc.executing p ↔ ∃ a, pc.position p = .dispatching a := by
  cases pc with
  | dispatch q snap st todo =>
      by_cases hq : q = p <;> simp [Pc.executing, Pc.position, hq]
  | tick todo =>
      have hidle := position_tick_idle p todo
      constructor
      · intro h
        exact h.elim
      · rintro ⟨a, ha⟩
        rw [ha] at hidle
        exact hidle.elim
  | _ =>
      simp [Pc.executing, Pc.position]

theorem position_of_resting
    (p : P) {pc : Pc P} (h : pc.resting) :
    pc.position p = .recovering ∨ (pc.position p).idle := by
  cases pc with
  | recovery =>
      exact Or.inl rfl
  | down =>
      exact Or.inr trivial
  | started =>
      exact Or.inr trivial
  | polling =>
      exact Or.inr trivial
  | _ =>
      exact h.elim

theorem offered_move
    {db db' : Db P} {q : P} {todo : List (P × PipelineStatus)} {pr : Proc P}
    (hdb : db' = db ∨ db' = db.apply_pause_requested q)
    (hpr : pr = ⟨.polling, []⟩ ∨ pr = ⟨.tick todo, []⟩) (p : P) :
    Move (db.status p) (if q = p then .offered else .away)
      (db'.status p) (pr.pc.position p) := by
  have hidle := position_idle_of_tick hpr p
  by_cases hq : q = p
  · subst hq
    rw [if_pos rfl]
    rcases hdb with rfl | rfl
    · exact .elsewhere _ trivial hidle
    · rw [Db.apply_pause_requested, Db.status_updateStatus]
      by_cases hs : db.status q = .PAUSE_REQUESTED
      · simpa [hs] using Move.applyPause hidle
      · simpa [hs] using Move.elsewhere (o := .offered) (db.status q) trivial hidle
  · rw [if_neg hq]
    rcases hdb with rfl | rfl
    · exact .elsewhere _ trivial hidle
    · rw [Db.apply_pause_requested, Db.status_updateStatus, if_neg (fun h => hq h.1.symm)]
      exact .elsewhere _ trivial hidle

theorem status_claim_run_requested
    (db : Db P) (q p : P) :
    (db.claim_run_requested q).status p =
      if p = q ∧ db.status q = .RUN_REQUESTED then .RUNNING else db.status p := by
  rw [Db.claim_run_requested, Db.status_updateStatus]
  simp only [List.mem_singleton]

theorem unclaimed_move
    {db db' : Db P} {q : P} {todo : List (P × PipelineStatus)} {pr : Proc P}
    (hdb : db' = db ∨ db' = db.claim_run_requested q)
    (hpr : pr = ⟨.polling, []⟩ ∨ pr = ⟨.tick todo, []⟩) (p : P) :
    Move (db.status p) .away (db'.status p) (pr.pc.position p) := by
  have hidle := position_idle_of_tick hpr p
  rcases hdb with rfl | rfl
  · exact .elsewhere _ trivial hidle
  · rw [status_claim_run_requested]
    by_cases hq : p = q ∧ db.status q = .RUN_REQUESTED
    · obtain ⟨rfl, hreq⟩ := hq
      simpa [hreq] using Move.claimLost (o := .away) trivial hidle
    · rw [if_neg hq]
      exact .elsewhere _ trivial hidle

theorem claimed_move
    {db : Db P} {q : P} {snap : PipelineSnapshot} {todo : List (P × PipelineStatus)}
    (hreq : db.status q = .RUN_REQUESTED) (p : P) :
    Move (db.status p) .away ((db.claim_run_requested q).status p)
      ((Pc.dispatch q snap .snapshot todo).position p) := by
  rw [status_claim_run_requested]
  by_cases hq : p = q
  · subst hq
    simpa [hreq, Pc.position, Stage.activity] using Move.claim (o := .away) trivial
  · simpa [hq, Ne.symm hq, Pc.position] using away_stays (db.status p)

/-- The bulk update of the recovery either re-queues `p` or leaves its status alone. -/
theorem recovered_move
    (db : Db P) (ids : List P) (p : P) :
    Move (db.status p) .recovering
      (((db.recover_running_failed_bulk ids).mark_run_requested_bulk ids).status p) .away := by
  rw [Db.status_mark_run_requested_bulk, Db.status_recover_running_failed_bulk]
  by_cases hp : p ∈ ids ∧ db.status p = .RUNNING
  · rw [if_pos hp, hp.2]
    exact .recover trivial
  · rw [if_neg hp]
    exact .lookUp _ (Or.inr trivial)

/-- **Every step of a process follows the protocol, for every pipeline.** -/
theorem procStep_move
    {w : World} {db db' : Db P} {pr pr' : Proc P} {c : Choice}
    (h : procStep w db pr c = some (db', pr')) (p : P) :
    Move (db.status p) (pr.pc.position p) (db'.status p) (pr'.pc.position p) := by
  cases procStep_effect h with
  | listed =>
      refine .lookUp _ ?_
      by_cases hnil : db.list_stuck_running_ids = []
      · exact Or.inr (by simp [hnil, Pc.position, Position.idle])
      · exact Or.inl (by simp [hnil, Pc.position])
  | @recovered ids ws c pc hpc =>
      have hmove := recovered_move db ids p
      rcases hpc with ⟨-, rfl⟩ | ⟨-, rfl⟩ <;> exact hmove
  | died hpc =>
      rcases hpc with rfl | ⟨ids, rfl⟩ <;> exact .lookUp _ (Or.inr trivial)
  | began hpc =>
      rcases hpc with rfl | rfl <;> exact .elsewhere _ trivial (position_tick_idle p _)
  | waits hpc =>
      rcases hpc with rfl | rfl | rfl <;> exact .elsewhere _ trivial trivial
  | @skipped q s todo ws c hs hs' =>
      exact .elsewhere _ (position_tick_idle p _) (position_tick_idle p todo)
  | offered hdb hpr =>
      exact offered_move hdb hpr p
  | unclaimed hdb hpr =>
      exact unclaimed_move hdb hpr p
  | claimed hreq =>
      exact claimed_move hreq p
  | @returned q snap res todo ws c pr' hpr =>
      have hidle := position_idle_of_tick hpr p
      by_cases hq : q = p
      · simpa [Pc.position, hq, Stage.activity] using Move.leave (db.status p) hidle
      · simpa [Pc.position, hq] using Move.elsewhere (o := .away) (db.status p) trivial hidle
  | @stepped q snap st todo ws c a hst =>
      obtain ⟨hother, hmoves⟩ := stageStep_moves hst
      by_cases hq : q = p
      · subst hq
        simpa [Pc.position] using Move.inside hmoves
      · simpa [Pc.position, hq, hother p (Ne.symm hq)] using away_stays (db.status p)

end Process

end EtlPlatform
