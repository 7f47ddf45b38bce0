import EtlPlatform.Proofs.Configuration
import EtlPlatform.Proofs.Sessions

/-!
# An invariant rule for batch loops

One runner process works on pipelines whose configuration stays as it is.  What
its steps do to the source, the checkpoints and the sink is then determined by
the parts of the batch loops alone, so an invariant of the store is a matter of
these parts: `BatchInvariant` lists, statement by statement of the batch body,
what has to be checked.

Everything around the body is discharged here once: claims, retries, rollbacks,
the commits of the run rows, pauses, crashes and the recovery, and the answers
that lose the connection between any two statements.
-/

namespace EtlPlatform

open Library

section BatchRule

variable {P : Type} [DecidableEq P]

/--
An invariant of the store under the batch loops that `runs` names for each
pipeline, while the source changes as `changes` allows.  `idle` is what holds
between any two steps, and `holds p st ws pc` what the loop of `p` relies on at
`pc`, with the writes `ws` in its session.
-/
structure BatchInvariant
    (runs : P → BatchLoop P → Prop)
    (changes : Source → Source → Prop) where
  idle : Store P → Prop
  holds : P → Store P → List (Write P) → LoopPc → Prop
  idle_of_holds : ∀ p st ws pc, holds p st ws pc → idle st
  idle_source : ∀ st src, idle st → changes st.source src → idle { st with source := src }
  holds_source : ∀ p st ws pc src, holds p st ws pc → changes st.source src →
    holds p { st with source := src } ws pc
  setup : ∀ p bl st v, runs p bl → idle st → bl.setup st = .ok v → holds p st [] (.fetch v)
  query : ∀ p bl st v rows, runs p bl → holds p st [] (.fetch v) → bl.query st v = .ok rows →
    rows ≠ [] → holds p st [] (.transform v rows)
  transform : ∀ p bl st v rows res, runs p bl → holds p st [] (.transform v rows) →
    bl.transform rows = .ok res → holds p st [] (.write v rows res)
  skip : ∀ p st v rows res, holds p st [] (.write v rows res) → res.rows = [] →
    holds p st [] (.advance v rows res.left 0)
  /-- the items stay in the session -/
  session : ∀ p bl st v rows res items, runs p bl → holds p st [] (.write v rows res) →
    res.rows ≠ [] → bl.write res.rows = .ok items → bl.transactional = true →
    holds p st (items.map .upsert) (.advance v rows res.left items.length)
  /-- the items go to the sink at once -/
  direct : ∀ p bl st v rows res items, runs p bl → holds p st [] (.write v rows res) →
    res.rows ≠ [] → bl.write res.rows = .ok items → bl.transactional = false →
    holds p { st with sink := applyItems st.sink items } [] (.advance v rows res.left items.length)
  /-- a request to the sink that fails after some of its items -/
  interrupted : ∀ p bl st v rows res items part, runs p bl → holds p st [] (.write v rows res) →
    res.rows ≠ [] → bl.write res.rows = .ok items → bl.transactional = false →
    part.Sublist items → idle { st with sink := applyItems st.sink part }
  advance : ∀ p bl st ws v v' rows left n ws', runs p bl → holds p st ws (.advance v rows left n) →
    bl.advance v rows left n = .ok (v', ws') → holds p st (ws ++ ws') (.commit v')
  commit : ∀ p st ws v, holds p st ws (.commit v) → holds p (st.commit ws) [] (.fetch v)

namespace BatchInvariant

variable {runs : P → BatchLoop P → Prop} {changes : Source → Source → Prop}

/-- What the loop of `p` relies on at each of its await points. -/
def Assert (I : BatchInvariant runs changes)
    (p : P) (st : Store P) (ws : List (Write P)) : LoopPc → Prop
  | .setup => I.idle st ∧ ws = []
  | .pauseRead v | .pauseApply v | .close _ v => I.holds p st [] (.fetch v) ∧ ws = []
  | .fetch v => I.holds p st [] (.fetch v) ∧ ws = []
  | .transform v rows => I.holds p st [] (.transform v rows) ∧ ws = []
  | .write v rows res => I.holds p st [] (.write v rows res) ∧ ws = []
  | .advance v rows left n => I.holds p st ws (.advance v rows left n)
  | .commit v => I.holds p st ws (.commit v)

/-- A stage of the dispatch of `p`: inside the loop the assertion holds, elsewhere the
session is clean. -/
def AtStage (I : BatchInvariant runs changes)
    (p : P) (st : Store P) (ws : List (Write P)) : Stage P → Prop
  | .loop _ _ bl pc => runs p bl ∧ I.Assert p st ws pc
  | stage => stage.mayHold ∨ ws = []

variable (I : BatchInvariant runs changes)

theorem idle_of_assert
    {p : P} {st : Store P} {ws : List (Write P)} {pc : LoopPc}
    (h : I.Assert p st ws pc) :
    I.idle st := by
  cases pc with
  | setup =>
      exact h.1
  | advance v rows left n =>
      exact I.idle_of_holds _ _ _ _ h
  | commit v =>
      exact I.idle_of_holds _ _ _ _ h
  | _ =>
      exact I.idle_of_holds _ _ _ _ h.1

theorem assert_source
    {p : P} {st : Store P} {ws : List (Write P)} {pc : LoopPc} {src : Source}
    (h : I.Assert p st ws pc) (hsrc : changes st.source src) :
    I.Assert p { st with source := src } ws pc := by
  cases pc with
  | setup =>
      exact ⟨I.idle_source _ _ h.1 hsrc, h.2⟩
  | advance v rows left n =>
      exact I.holds_source _ _ _ _ _ h hsrc
  | commit v =>
      exact I.holds_source _ _ _ _ _ h hsrc
  | _ =>
      exact ⟨I.holds_source _ _ _ _ _ h.1 hsrc, h.2⟩

theorem atStage_onExecuteExc
    (w : World) (p : P) (st : Store P) (ws : List (Write P)) (k r : ℕ) (exc : Exc) :
    I.AtStage p st ws (onExecuteExc w k r exc) := by
  unfold onExecuteExc
  split_ifs with hdis
  · simp [onDispatchExc, hdis, AtStage, Stage.mayHold]
  · exact Or.inl trivial

/-- A computed continuation: its error leads to the handler. -/
theorem atStage_stageOf
    {α : Type} {w : World} {p : P} {st : Store P} {ws : List (Write P)} {k r : ℕ}
    {next : α → Stage P} {res : Except Exc α}
    (h : ∀ x, res = .ok x → I.AtStage p st ws (next x)) :
    I.AtStage p st ws (stageOf (onExecuteExc w k r) next res) := by
  cases res with
  | ok x =>
      exact h x rfl
  | error exc =>
      exact I.atStage_onExecuteExc w p st ws k r exc

/-- One statement of the loop, from what holds without and with its effect. -/
theorem atStage_answer
    {w : World} {p : P} {k r : ℕ} {c : Choice} {kept done : Db P × List (Write P)}
    {next : Stage P} {a : After P}
    (h : answer c kept done next (onExecuteExc w k r) = some a)
    (hkept : I.idle kept.1.store)
    (hdone : I.idle done.1.store)
    (hnext : I.AtStage p done.1.store done.2 next) :
    I.idle a.db.store ∧ I.AtStage p a.db.store a.pending a.stage := by
  rcases answer_cases h with ⟨-, rfl⟩ | ⟨exc, -, rfl⟩ | ⟨-, rfl⟩
  · exact ⟨hdone, hnext⟩
  · exact ⟨hkept, I.atStage_onExecuteExc w p _ _ k r exc⟩
  · exact ⟨hdone, I.atStage_onExecuteExc w p _ _ k r connectionLost⟩

/-- A statement of the loop that only reads. -/
theorem atStage_answerRead
    {w : World} {p : P} {k r : ℕ} {c : Choice} {kept : Db P × List (Write P)}
    {next : Stage P} {a : After P}
    (h : answerRead c kept next (onExecuteExc w k r) = some a)
    (hidle : I.idle kept.1.store)
    (hnext : I.AtStage p kept.1.store kept.2 next) :
    I.idle a.db.store ∧ I.AtStage p a.db.store a.pending a.stage :=
  I.atStage_answer h hidle hidle hnext

/-- The write of a batch. -/
theorem atStage_writeStep
    {w : World} {db : Db P} {p : P} {k r : ℕ} {bl : BatchLoop P} {v : LoopVars}
    {rows : List Row} {res : Transformed} {items : List Item} {c : Choice} {a : After P}
    (h : writeStep (db, []) bl items
      (.loop k r bl (.advance v rows res.left items.length)) (onExecuteExc w k r) c = some a)
    (hruns : runs p bl)
    (hholds : I.holds p db.store [] (.write v rows res))
    (hne : res.rows ≠ [])
    (hwrite : bl.write res.rows = .ok items) :
    I.idle a.db.store ∧ I.AtStage p a.db.store a.pending a.stage := by
  have hidle := I.idle_of_holds _ _ _ _ hholds
  rcases writeStep_cases h with ⟨htx, hans⟩ | ⟨htx, hans | ⟨applied, exc, -, rfl⟩⟩
  · exact I.atStage_answer hans hidle hidle
      ⟨hruns, I.session _ _ _ _ _ _ _ hruns hholds hne hwrite htx⟩
  · exact I.atStage_answer hans hidle
      (I.interrupted _ _ _ _ _ _ _ _ hruns hholds hne hwrite htx (List.Sublist.refl items))
      ⟨hruns, I.direct _ _ _ _ _ _ _ hruns hholds hne hwrite htx⟩
  · exact ⟨I.interrupted _ _ _ _ _ _ _ _ hruns hholds hne hwrite htx (maskItems_sublist applied items),
      I.atStage_onExecuteExc w p _ _ k r exc⟩

/-- **One statement of the batch loop keeps the invariant.** -/
theorem loopStep_atStage
    {w : World} {db : Db P} {ws : List (Write P)} {p : P} {k r : ℕ}
    {bl : BatchLoop P} {pc : LoopPc} {c : Choice} {a : After P}
    (h : loopStep w (db, ws) p k r bl pc c = some a)
    (hruns : runs p bl)
    (hassert : I.Assert p db.store ws pc) :
    I.idle a.db.store ∧ I.AtStage p a.db.store a.pending a.stage := by
  have hidle := I.idle_of_assert hassert
  cases pc with
  | setup =>
      obtain ⟨-, rfl⟩ := hassert
      refine I.atStage_answerRead h hidle (I.atStage_stageOf (fun v hv => ?_))
      exact ⟨hruns, I.setup _ _ _ _ hruns hidle hv, rfl⟩
  | fetch v =>
      obtain ⟨hholds, rfl⟩ := hassert
      refine I.atStage_answerRead h hidle (I.atStage_stageOf (fun rows hrows => ?_))
      by_cases hnil : rows = []
      · rw [if_pos hnil]
        exact ⟨hruns, hholds, rfl⟩
      · rw [if_neg hnil]
        exact ⟨hruns, I.query _ _ _ _ _ hruns hholds hrows hnil, rfl⟩
  | transform v rows =>
      obtain ⟨hholds, rfl⟩ := hassert
      refine I.atStage_answerRead h hidle (I.atStage_stageOf (fun res hres => ?_))
      exact ⟨hruns, I.transform _ _ _ _ _ _ hruns hholds hres, rfl⟩
  | write v rows res =>
      obtain ⟨hholds, rfl⟩ := hassert
      rcases loopStep_write_cases h with ⟨hnil, h⟩ | ⟨exc, -, -, h⟩ | ⟨items, hnil, hw, h⟩
      · exact I.atStage_answerRead h hidle ⟨hruns, I.skip _ _ _ _ _ hholds hnil⟩
      · exact I.atStage_answerRead h hidle (I.atStage_onExecuteExc w p _ _ k r exc)
      · exact I.atStage_writeStep h hruns hholds hnil hw
  | advance v rows left n =>
      rcases loopStep_advance_cases h with ⟨exc, -, h⟩ | ⟨v', ws', hadv, h⟩
      · exact I.atStage_answerRead h hidle (I.atStage_onExecuteExc w p _ _ k r exc)
      · exact I.atStage_answer h hidle hidle
          ⟨hruns, I.advance _ _ _ _ _ _ _ _ _ _ hruns hassert hadv⟩
  | commit v =>
      have hdone := I.commit _ _ _ _ hassert
      exact I.atStage_answer h hidle (I.idle_of_holds _ _ _ _ hdone) ⟨hruns, hdone, rfl⟩
  | pauseRead v =>
      obtain ⟨hholds, rfl⟩ := hassert
      refine I.atStage_answerRead h hidle ?_
      split_ifs
      · exact ⟨hruns, hholds, rfl⟩
      · exact ⟨hruns, hholds, rfl⟩
  | pauseApply v =>
      obtain ⟨hholds, rfl⟩ := hassert
      simp only [loopStep, answerUpdate] at h
      split_ifs at h
      · have hstore : ((db.apply_pause_requested p).commit []).store = db.store :=
          Db.store_updateStatus _ _ db p
        refine I.atStage_answer h hidle (hstore ▸ hidle) ⟨hruns, ?_, rfl⟩
        exact hstore ▸ hholds
      · exact I.atStage_answerRead h hidle ⟨hruns, hholds, rfl⟩
  | close exit v =>
      obtain ⟨hholds, rfl⟩ := hassert
      exact I.atStage_answerRead h hidle (Or.inr rfl)

end BatchInvariant

/-! ## Around the loop -/

omit [DecidableEq P] in
theorem not_isHandler_loop
    (k r : ℕ) (bl : BatchLoop P) (pc : LoopPc) :
    ¬ (Stage.loop k r bl pc).activity.isHandler := by
  cases pc <;> exact id

/-- A batch loop is entered at its start, with the parts `_run_body` picks. -/
theorem stageStep_entersLoop
    {w : World} {kept : Db P × List (Write P)} {p : P} {snap : PipelineSnapshot}
    {st : Stage P} {c : Choice} {a : After P}
    {k r : ℕ} {bl : BatchLoop P} {pc : LoopPc}
    (h : stageStep w kept p snap st c = some a)
    (hst : ∀ k r bl pc, st ≠ .loop k r bl pc)
    (ha : a.stage = .loop k r bl pc) :
    st = .runBody k r ∧ pc = .setup ∧ _run_body w p snap = .ok bl := by
  have hdispatch := onDispatchExc_isHandler (P := P) w
  have hexecute := onExecuteExc_isHandler (P := P) w
  have hnot := not_isHandler_loop k r bl pc
  rw [← ha] at hnot
  cases st with
  | snapshot =>
      have hstage := ((answerRead_quiet h (fun _ => trivial)).2).resolve_right hnot
      split_ifs at hstage <;> rw [hstage] at ha <;> cases ha
  | startRun j =>
      have hstage := ((answerCommit_quiet h rfl (hdispatch j)).2).resolve_right hnot
      rw [hstage] at ha
      cases ha
  | runBody j q =>
      have hstage := ((answerRead_quiet h (hexecute j q)).2).resolve_right hnot
      rw [hstage] at ha hnot
      cases hbody : _run_body w p snap with
      | ok bl' =>
          rw [hbody] at ha
          cases ha
          exact ⟨rfl, rfl, rfl⟩
      | error exc =>
          rw [hbody] at hnot
          exact absurd (hexecute j q exc) hnot
  | loop j q bl' pc' =>
      exact absurd rfl (hst j q bl' pc')
  | finishSuccess j q exit v =>
      have hstage := ((answerCommit_quiet h rfl (hexecute j q)).2).resolve_right hnot
      rw [hstage] at ha
      cases ha
  | getStatus j exit =>
      have hstage := ((answerRead_quiet h (hdispatch j)).2).resolve_right hnot
      split_ifs at hstage <;> rw [hstage] at ha <;> cases ha
  | finishIdle j exit =>
      rcases (answerUpdate_moves h (hdispatch j)).2 with ⟨-, hstage⟩ | ⟨-, hhandler⟩
      · rw [hstage.resolve_right hnot] at ha
        cases ha
      · exact absurd hhandler hnot
  | rollback j q exc =>
      have hstage := ((answer_quiet h rfl (hdispatch j)).2).resolve_right hnot
      rw [hstage] at ha
      cases ha
  | finishFailed j q exc =>
      have hhandler : a.stage.activity.isHandler := by
        rcases (answerCommit_quiet h rfl (hdispatch j)).2 with hstage | hhandler
        · rw [hstage]
          exact hdispatch j exc
        · exact hhandler
      exact absurd hhandler hnot
  | sleep j delay =>
      cases c with
      | ok =>
          obtain rfl := Option.some.inj h
          cases ha
      | _ =>
          cases h
  | failIfActive exc =>
      rcases (answerUpdate_moves h (fun _ => trivial)).2 with ⟨-, hstage⟩ | ⟨-, hhandler⟩
      · rw [hstage.resolve_right hnot] at ha
        cases ha
      · exact absurd hhandler hnot
  | returning res =>
      cases h

/-- Outside the loop nothing is committed to the store. -/
theorem stageStep_outsideLoop
    {w : World} {db : Db P} {ws : List (Write P)} {p : P} {snap : PipelineSnapshot}
    {st : Stage P} {c : Choice} {a : After P}
    (h : stageStep w (db, ws) p snap st c = some a)
    (hst : ∀ k r bl pc, st ≠ .loop k r bl pc)
    (hclean : st.mayHold ∨ ws = []) :
    (a.stage.mayHold ∨ a.pending = []) ∧ a.db.store = db.store := by
  obtain ⟨hclean', hstore⟩ := stageStep_session h hclean
  refine ⟨hclean', hstore.resolve_left (fun hdel => ?_)⟩
  cases st with
  | loop k r bl pc =>
      exact hst k r bl pc rfl
  | _ =>
      exact hdel

/-- The process works on a pipeline it has claimed. -/
def Pc.inDispatch : Pc P → Prop
  | .dispatch _ _ _ _ => True
  | _ => False

omit [DecidableEq P] in
theorem Pc.inDispatch_of_delivers
    {p : P} {pc : Pc P} (h : pc.delivers p) :
    pc.inDispatch := by
  cases pc with
  | dispatch q snap st todo =>
      trivial
  | _ =>
      exact h.elim

omit [DecidableEq P] in
theorem Pc.not_inDispatch_of_resting
    {pc : Pc P} (h : pc.resting) :
    ¬ pc.inDispatch := by
  cases pc with
  | dispatch q snap st todo =>
      exact h.elim
  | _ =>
      exact id

/-- A process enters a dispatch by a claim only. -/
theorem procStep_claims
    {w : World} {db db' : Db P} {pr pr' : Proc P} {c : Choice}
    (h : procStep w db pr c = some (db', pr'))
    (hpc : ¬ pr.pc.inDispatch) :
    ¬ pr'.pc.inDispatch ∨
      ∃ p todo, pr' = ⟨.dispatch p (snapshot_pipeline (db.pipelines p)) .snapshot todo, []⟩ := by
  cases procStep_effect h with
  | listed =>
      refine Or.inl ?_
      by_cases hnil : db.list_stuck_running_ids = [] <;> simp [Pc.inDispatch, hnil]
  | recovered hpc =>
      rcases hpc with ⟨-, rfl⟩ | ⟨-, rfl⟩ <;> exact Or.inl id
  | offered _ hpr =>
      rcases hpr with rfl | rfl <;> exact Or.inl id
  | unclaimed _ hpr =>
      rcases hpr with rfl | rfl <;> exact Or.inl id
  | claimed _ =>
      exact Or.inr ⟨_, _, rfl⟩
  | returned _ =>
      exact absurd trivial hpc
  | stepped _ =>
      exact absurd trivial hpc
  | _ =>
      exact Or.inl id

/-- Outside a dispatch a process with an empty session commits nothing to the store. -/
theorem procStep_outside
    {w : World} {db db' : Db P} {pr pr' : Proc P} {c : Choice}
    (h : procStep w db pr c = some (db', pr'))
    (hpc : ¬ pr.pc.inDispatch) (hclean : pr.Clean) :
    pr'.Clean ∧ db'.store = db.store := by
  obtain ⟨hclean', hstore⟩ := procStep_session h hclean
  refine ⟨hclean', hstore.resolve_left ?_⟩
  rintro ⟨p, hdel⟩
  exact hpc (Pc.inDispatch_of_delivers hdel)

namespace BatchInvariant

variable {runs : P → BatchLoop P → Prop} {changes : Source → Source → Prop}
variable (I : BatchInvariant runs changes)

/-- Outside the loop, `AtStage` speaks about the session only. -/
theorem atStage_of_mayHold
    {p : P} {st : Store P} {ws : List (Write P)} {stage : Stage P}
    (hstage : ∀ k r bl pc, stage ≠ .loop k r bl pc)
    (h : stage.mayHold ∨ ws = []) :
    I.AtStage p st ws stage := by
  cases stage with
  | loop k r bl pc =>
      exact absurd rfl (hstage k r bl pc)
  | _ =>
      exact h

theorem mayHold_of_atStage
    {p : P} {st : Store P} {ws : List (Write P)} {stage : Stage P}
    (hstage : ∀ k r bl pc, stage ≠ .loop k r bl pc)
    (h : I.AtStage p st ws stage) :
    stage.mayHold ∨ ws = [] := by
  cases stage with
  | loop k r bl pc =>
      exact absurd rfl (hstage k r bl pc)
  | _ =>
      exact h

/-- **One step of a dispatch keeps the invariant.** -/
theorem stageStep_atStage
    {w : World} {db : Db P} {ws : List (Write P)} {p : P} {snap : PipelineSnapshot}
    {st : Stage P} {c : Choice} {a : After P}
    (h : stageStep w (db, ws) p snap st c = some a)
    (hbody : ∀ k r bl, st = .runBody k r → _run_body w p snap = .ok bl → runs p bl)
    (hidle : I.idle db.store)
    (hat : I.AtStage p db.store ws st) :
    I.idle a.db.store ∧ I.AtStage p a.db.store a.pending a.stage := by
  by_cases hloop : ∃ k r bl pc, st = .loop k r bl pc
  · obtain ⟨k, r, bl, pc, rfl⟩ := hloop
    exact I.loopStep_atStage h hat.1 hat.2
  · have hst : ∀ k r bl pc, st ≠ .loop k r bl pc := by
      rintro k r bl pc rfl
      exact hloop ⟨k, r, bl, pc, rfl⟩
    obtain ⟨hclean, hsame⟩ := stageStep_outsideLoop h hst (I.mayHold_of_atStage hst hat)
    refine ⟨hsame ▸ hidle, ?_⟩
    by_cases henter : ∃ k r bl pc, a.stage = .loop k r bl pc
    · obtain ⟨k, r, bl, pc, hstage⟩ := henter
      obtain ⟨rfl, rfl, hbl⟩ := stageStep_entersLoop h hst hstage
      rw [hstage] at hclean ⊢
      exact ⟨hbody k r bl rfl hbl, hsame ▸ hidle, hclean.resolve_left id⟩
    · refine I.atStage_of_mayHold ?_ hclean
      rintro k r bl pc hstage
      exact henter ⟨k, r, bl, pc, hstage⟩

/-- The snapshot of a dispatch is the configured one, as soon as the tasks have joined it. -/
def AtSnapshot (cfg : P → PipelineSnapshot) (db : Db P) (p : P) (snap : PipelineSnapshot) :
    Stage P → Prop
  | .snapshot => snapshot_pipeline_with_tasks snap (db.tasks p) = cfg p
  | .returning _ => True
  | _ => snap = cfg p

/-- What the rule knows about a process. -/
def AtProc (cfg : P → PipelineSnapshot) (db : Db P) (pr : Proc P) : Prop :=
  match pr.pc with
  | .dispatch p snap st _ => AtSnapshot cfg db p snap st ∧ I.AtStage p db.store pr.pending st
  | _ => pr.pending = []

/-- The invariant of the whole system with one runner. -/
structure Inv (cfg : P → PipelineSnapshot) (s : Sys Unit P) : Prop where
  config : ∀ p, s.db.config p = cfg p
  idle : I.idle s.db.store
  proc : I.AtProc cfg s.db (s.procs ())

variable {cfg : P → PipelineSnapshot}

theorem atProc_iff_clean
    {db : Db P} {pr : Proc P} (hpc : ¬ pr.pc.inDispatch) :
    I.AtProc cfg db pr ↔ pr.Clean := by
  obtain ⟨pc, pending⟩ := pr
  cases pc with
  | dispatch p snap st todo =>
      exact absurd trivial hpc
  | _ =>
      exact Iff.rfl

theorem atProc_source
    {db : Db P} {pr : Proc P} {src : Source}
    (h : I.AtProc cfg db pr) (hsrc : changes db.store.source src) :
    I.AtProc cfg { db with store := { db.store with source := src } } pr := by
  obtain ⟨pc, pending⟩ := pr
  cases pc with
  | dispatch p snap st todo =>
      refine ⟨?_, ?_⟩
      · have hsnap := h.1
        cases st <;> exact hsnap
      · have hat := h.2
        cases st with
        | loop k r bl pc =>
            exact ⟨hat.1, I.assert_source hat.2 hsrc⟩
        | _ =>
            exact hat
  | _ =>
      exact h

/-- Events that only touch the status. -/
theorem inv_of_same
    {s : Sys Unit P} {db : Db P}
    (hsame : SameConfig s.db db) (hstore : db.store = s.db.store) (h : I.Inv cfg s) :
    I.Inv cfg { s with db := db } := by
  obtain ⟨hconfig, hidle, hproc⟩ := h
  refine ⟨fun p => (hsame.config_eq p).trans (hconfig p), hstore ▸ hidle, ?_⟩
  simp only [AtProc] at hproc ⊢
  cases hpc : (s.procs ()).pc with
  | dispatch p snap st todo =>
      rw [hpc] at hproc
      refine ⟨?_, hstore ▸ hproc.2⟩
      have hsnap := hproc.1
      cases st with
      | snapshot =>
          change snapshot_pipeline_with_tasks snap (db.tasks p) = cfg p
          rw [hsame.1]
          exact hsnap
      | _ =>
          exact hsnap
  | _ =>
      rw [hpc] at hproc
      exact hproc

end BatchInvariant

/-- No step of a dispatch leads back to its claim. -/
theorem Moves.ne_claimed
    {s s' : PipelineStatus} {a a' : Activity}
    (h : Moves s a s' a') :
    a' ≠ .claimed := by
  rintro rfl
  cases h with
  | fault _ _ hhandler =>
      exact hhandler
  | pause _ hhandler =>
      rcases hhandler with h | h
      · cases h
      · exact h
  | idle _ _ hhandler =>
      exact hhandler
  | fail _ hhandler =>
      exact hhandler

/-- Nothing is reconfigured, and the source changes as `changes` allows. -/
def Event.keepsConfig {ι : Type} (changes : Source → Source → Prop) (s : Sys ι P) :
    Event ι P → Prop
  | .patch _ _ => False
  | .source src => changes s.db.store.source src
  | _ => True

instance {ι : Type} {changes : Source → Source → Prop}
    [∀ src src', Decidable (changes src src')] (s : Sys ι P) :
    DecidablePred (Event.keepsConfig changes s)
  | .patch _ _ => .isFalse id
  | .source src => inferInstanceAs (Decidable (changes s.db.store.source src))
  | .run _ | .pause _ | .kill _ | .spawn _ | .runner _ _ => .isTrue trivial

namespace BatchInvariant

variable {runs : P → BatchLoop P → Prop} {changes : Source → Source → Prop}
variable {cfg : P → PipelineSnapshot}

omit [DecidableEq P] in
theorem atSnapshot_of_eq
    {db : Db P} {p : P} {stage : Stage P}
    (hstage : stage ≠ .snapshot) :
    AtSnapshot cfg db p (cfg p) stage := by
  cases stage with
  | snapshot =>
      exact absurd rfl hstage
  | returning res =>
      trivial
  | _ =>
      rfl

/-- Between two stages the snapshot stays, and at the first one the tasks join it. -/
theorem atSnapshot_step
    {w : World} {db : Db P} {ws : List (Write P)} {p : P} {snap : PipelineSnapshot}
    {st : Stage P} {c : Choice} {a : After P}
    (h : stageStep w (db, ws) p snap st c = some a)
    (hsnap : AtSnapshot cfg db p snap st) :
    AtSnapshot cfg a.db p (nextSnapshot db p snap st c) a.stage := by
  have hne : a.stage ≠ .snapshot := by
    intro hstage
    have hmoves := (stageStep_moves h).2
    rw [hstage] at hmoves
    exact hmoves.ne_claimed rfl
  cases st with
  | snapshot =>
      rcases answer_cases h with ⟨rfl, -⟩ | ⟨exc, rfl, rfl⟩ | ⟨rfl, rfl⟩
      · rw [nextSnapshot, show snapshot_pipeline_with_tasks snap (db.tasks p) = cfg p from hsnap]
        exact atSnapshot_of_eq hne
      · trivial
      · trivial
  | returning res =>
      cases h
  | _ =>
      obtain rfl : snap = cfg p := hsnap
      exact atSnapshot_of_eq hne

variable (I : BatchInvariant runs changes)

/-- **One step of the runner keeps the invariant.** -/
theorem procStep_atProc
    {w : World} {db db' : Db P} {pr pr' : Proc P} {c : Choice}
    (h : procStep w db pr c = some (db', pr'))
    (hbody : ∀ p bl, _run_body w p (cfg p) = .ok bl → runs p bl)
    (hconfig : ∀ p, db.config p = cfg p)
    (hidle : I.idle db.store)
    (hproc : I.AtProc cfg db pr) :
    I.idle db'.store ∧ I.AtProc cfg db' pr' := by
  by_cases hpc : pr.pc.inDispatch
  · obtain ⟨pc, pending⟩ := pr
    cases pc with
    | dispatch p snap st todo =>
        obtain ⟨hsnap, hat⟩ := hproc
        rcases procStep_dispatch h with ⟨res, rfl, rfl, rfl⟩ | ⟨a, hst, rfl, rfl⟩
        · refine ⟨hidle, ?_⟩
          rcases afterDispatch_cases todo res with hafter | hafter <;> rw [hafter] <;> rfl
        · have hbody' : ∀ k r bl, st = .runBody k r → _run_body w p snap = .ok bl →
              runs p bl := by
            rintro k r bl rfl hbl
            rw [show snap = cfg p from hsnap] at hbl
            exact hbody p bl hbl
          obtain ⟨hidle', hat'⟩ := I.stageStep_atStage hst hbody' hidle hat
          exact ⟨hidle', atSnapshot_step hst hsnap, hat'⟩
    | _ =>
        exact hpc.elim
  · obtain ⟨hclean', hsame⟩ := procStep_outside h hpc ((I.atProc_iff_clean hpc).mp hproc)
    refine ⟨hsame ▸ hidle, ?_⟩
    rcases procStep_claims h hpc with hpc' | ⟨p, todo, hpr⟩
    · exact (I.atProc_iff_clean hpc').mpr hclean'
    · -- the claim takes its snapshot from the configuration of the moment
      rw [hpr]
      refine ⟨?_, Or.inr rfl⟩
      have htasks := (procStep_sameConfig h).1
      change snapshot_pipeline_with_tasks _ (db'.tasks p) = cfg p
      rw [htasks, ← hconfig p]
      rfl

/-- One event keeps the invariant, as long as nothing is reconfigured and the source
changes as allowed. -/
theorem inv_step
    {w : World} {s s' : Sys Unit P} {e : Event Unit P}
    (hbody : ∀ p bl, _run_body w p (cfg p) = .ok bl → runs p bl)
    (hI : I.Inv cfg s)
    (hallow : e.keepsConfig changes s)
    (hstep : s.step w e = some s') :
    I.Inv cfg s' := by
  obtain ⟨hconfig, hidle, hproc⟩ := hI
  cases e with
  | run p =>
      obtain rfl := Option.some.inj hstep
      exact I.inv_of_same (sameConfig_run_pipeline s.db p) (Db.store_run_pipeline s.db p)
        ⟨hconfig, hidle, hproc⟩
  | pause p =>
      obtain rfl := Option.some.inj hstep
      exact I.inv_of_same (sameConfig_pause_pipeline s.db p) (Db.store_pause_pipeline s.db p)
        ⟨hconfig, hidle, hproc⟩
  | patch p row =>
      exact hallow.elim
  | source src =>
      obtain rfl := Option.some.inj hstep
      exact ⟨hconfig, I.idle_source _ _ hidle hallow, I.atProc_source hproc hallow⟩
  | kill i =>
      obtain rfl := Option.some.inj hstep
      refine ⟨hconfig, hidle, ?_⟩
      simp [Sys.setProc, AtProc]
  | spawn i =>
      obtain ⟨-, rfl⟩ := Sys.step_spawn_iff.mp hstep
      refine ⟨hconfig, hidle, ?_⟩
      simp [Sys.setProc, AtProc]
  | runner i c =>
      obtain ⟨db, pr, hproc', rfl⟩ := Sys.step_runner_iff.mp hstep
      obtain ⟨hidle', hat⟩ := I.procStep_atProc hproc' hbody hconfig hidle hproc
      have hsame := procStep_sameConfig hproc'
      exact ⟨fun p => (hsame.config_eq p).trans (hconfig p), hidle', by simpa using hat⟩

theorem inv_of_resting
    {s : Sys Unit P}
    (hrest : s.Resting) (hidle : I.idle s.db.store) (hconfig : ∀ p, s.db.config p = cfg p) :
    I.Inv cfg s := by
  obtain ⟨hpc, hnil⟩ := hrest ()
  exact ⟨hconfig, hidle,
    (I.atProc_iff_clean (Pc.not_inDispatch_of_resting hpc)).mpr (clean_of_resting hpc hnil)⟩

/-- **The rule.**  On a run from a resting state in which the invariant holds, it holds
throughout. -/
theorem inv_of_reach
    {w : World} {s₀ s : Sys Unit P}
    (hbody : ∀ p bl, _run_body w p (s₀.db.config p) = .ok bl → runs p bl)
    (hrest : s₀.Resting)
    (hidle : I.idle s₀.db.store)
    (h : Reach (Sys.step w) (fun s => s = s₀) (fun s e => e.keepsConfig changes s) s) :
    I.Inv s₀.db.config s := by
  refine h.invariant (I := I.Inv s₀.db.config) ?_ ?_
  · rintro s rfl
    exact I.inv_of_resting hrest hidle (fun _ => rfl)
  · intro s e s' hI hallow hstep
    exact I.inv_step hbody hI hallow hstep

/-- In a given state, one invariant may stand in for another. -/
theorem inv_mono
    {I I' : BatchInvariant runs changes} {s : Sys Unit P}
    (hidle : I.idle s.db.store → I'.idle s.db.store)
    (hholds : ∀ p ws pc, I.holds p s.db.store ws pc → I'.holds p s.db.store ws pc)
    (h : I.Inv cfg s) :
    I'.Inv cfg s := by
  refine ⟨h.config, hidle h.idle, ?_⟩
  have hproc := h.proc
  simp only [AtProc] at hproc ⊢
  cases hpc : (s.procs ()).pc with
  | dispatch p snap st todo =>
      rw [hpc] at hproc
      refine ⟨hproc.1, ?_⟩
      cases st with
      | loop k r bl pc =>
          refine ⟨hproc.2.1, ?_⟩
          have hassert := hproc.2.2
          cases pc with
          | setup =>
              exact ⟨hidle hassert.1, hassert.2⟩
          | advance v rows left n =>
              exact hholds _ _ _ hassert
          | commit v =>
              exact hholds _ _ _ hassert
          | _ =>
              exact ⟨hholds _ _ _ hassert.1, hassert.2⟩
      | _ =>
          exact hproc.2
  | _ =>
      rw [hpc] at hproc
      exact hproc

/-! ## Any number of runners -/

/-- What the rule knows about a process, whatever its configuration. -/
def AtAny (st : Store P) (pr : Proc P) : Prop :=
  match pr.pc with
  | .dispatch p _ stage _ => I.AtStage p st pr.pending stage
  | _ => pr.pending = []

/-- No step of another process breaks what a loop relies on. -/
def Stable : Prop :=
  ∀ p st st' ws pc, I.holds p st ws pc → I.idle st' → I.holds p st' ws pc

variable {I}

theorem AtAny.of_stable
    (hstable : I.Stable) {st st' : Store P} {pr : Proc P}
    (h : I.AtAny st pr) (hidle : I.idle st') :
    I.AtAny st' pr := by
  obtain ⟨pc, pending⟩ := pr
  cases pc with
  | dispatch p snap stage todo =>
      cases stage with
      | loop k r bl pc =>
          obtain ⟨hruns, hassert⟩ := h
          refine ⟨hruns, ?_⟩
          cases pc with
          | setup =>
              exact ⟨hidle, hassert.2⟩
          | advance v rows left n =>
              exact hstable _ _ _ _ _ hassert hidle
          | commit v =>
              exact hstable _ _ _ _ _ hassert hidle
          | _ =>
              exact ⟨hstable _ _ _ _ _ hassert.1 hidle, hassert.2⟩
      | _ =>
          exact h
  | _ =>
      exact h

theorem atAny_iff_clean
    {st : Store P} {pr : Proc P} (hpc : ¬ pr.pc.inDispatch) :
    I.AtAny st pr ↔ pr.Clean := by
  obtain ⟨pc, pending⟩ := pr
  cases pc with
  | dispatch p snap stage todo =>
      exact absurd trivial hpc
  | _ =>
      exact Iff.rfl

/-- One step of a process keeps the invariant. -/
theorem procStep_atAny
    {w : World} {db db' : Db P} {pr pr' : Proc P} {c : Choice}
    (h : procStep w db pr c = some (db', pr'))
    (hbody : ∀ p pl bl, _run_body w p pl = .ok bl → runs p bl)
    (hidle : I.idle db.store) (hproc : I.AtAny db.store pr) :
    I.idle db'.store ∧ I.AtAny db'.store pr' := by
  by_cases hpc : pr.pc.inDispatch
  · obtain ⟨pc, pending⟩ := pr
    cases pc with
    | dispatch p snap st todo =>
        rcases procStep_dispatch h with ⟨res, rfl, rfl, rfl⟩ | ⟨a, hst, rfl, rfl⟩
        · refine ⟨hidle, ?_⟩
          rcases afterDispatch_cases todo res with hafter | hafter <;> rw [hafter] <;> rfl
        · exact I.stageStep_atStage hst (fun k r bl _ hbl => hbody p snap bl hbl) hidle hproc
    | _ =>
        exact hpc.elim
  · obtain ⟨hclean', hsame⟩ := procStep_outside h hpc ((atAny_iff_clean hpc).mp hproc)
    refine ⟨hsame ▸ hidle, ?_⟩
    rcases procStep_claims h hpc with hpc' | ⟨p, todo, rfl⟩
    · exact (atAny_iff_clean hpc').mpr hclean'
    · exact Or.inr rfl

variable {ι : Type} [DecidableEq ι]

/-- One event keeps the invariant of all processes. -/
theorem atAny_step
    {w : World} {s s' : Sys ι P} {e : Event ι P}
    (hbody : ∀ p pl bl, _run_body w p pl = .ok bl → runs p bl)
    (hstable : I.Stable) (hchanges : ∀ src src', changes src src')
    (hI : I.idle s.db.store ∧ ∀ i, I.AtAny s.db.store (s.procs i))
    (hstep : s.step w e = some s') :
    I.idle s'.db.store ∧ ∀ i, I.AtAny s'.db.store (s'.procs i) := by
  obtain ⟨hidle, hprocs⟩ := hI
  have hupdate : ∀ (st : Store P) i pr, I.AtAny st pr → (∀ j, I.AtAny st (s.procs j)) →
      ∀ j, I.AtAny st (Function.update s.procs i pr j) := by
    intro st i pr hpr hothers
    exact (Function.forall_update_iff s.procs fun _ pr => I.AtAny st pr).mpr
      ⟨hpr, fun j _ => hothers j⟩
  cases e with
  | run p =>
      obtain rfl := Option.some.inj hstep
      have hstore := Db.store_run_pipeline s.db p
      exact ⟨hstore ▸ hidle, fun i => hstore ▸ hprocs i⟩
  | pause p =>
      obtain rfl := Option.some.inj hstep
      have hstore := Db.store_pause_pipeline s.db p
      exact ⟨hstore ▸ hidle, fun i => hstore ▸ hprocs i⟩
  | patch p row =>
      obtain rfl := Option.some.inj hstep
      exact ⟨hidle, hprocs⟩
  | source src =>
      obtain rfl := Option.some.inj hstep
      have hidle' := I.idle_source _ _ hidle (hchanges _ src)
      exact ⟨hidle', fun i => (hprocs i).of_stable hstable hidle'⟩
  | kill i =>
      obtain rfl := Option.some.inj hstep
      exact ⟨hidle, hupdate _ i _ rfl hprocs⟩
  | spawn i =>
      obtain ⟨-, rfl⟩ := Sys.step_spawn_iff.mp hstep
      exact ⟨hidle, hupdate _ i _ rfl hprocs⟩
  | runner i c =>
      obtain ⟨db, pr, hproc, rfl⟩ := Sys.step_runner_iff.mp hstep
      obtain ⟨hidle', hat⟩ := procStep_atAny hproc hbody hidle (hprocs i)
      exact ⟨hidle', hupdate _ i pr hat (fun j => (hprocs j).of_stable hstable hidle')⟩

/-- **The rule for any number of runners**, under any requests and configurations, for an
invariant that no process breaks for another. -/
theorem idle_of_reach
    {w : World} {s₀ s : Sys ι P}
    (hbody : ∀ p pl bl, _run_body w p pl = .ok bl → runs p bl)
    (hstable : I.Stable) (hchanges : ∀ src src', changes src src')
    (hrest : s₀.Resting) (hidle : I.idle s₀.db.store)
    (h : Reach (Sys.step w) (fun s => s = s₀) (fun _ _ => True) s) :
    I.idle s.db.store := by
  refine (h.invariant (I := fun s => I.idle s.db.store ∧ ∀ i, I.AtAny s.db.store (s.procs i))
    ?_ (fun s e s' hI _ hstep => atAny_step hbody hstable hchanges hI hstep)).1
  rintro s rfl
  refine ⟨hidle, fun i => ?_⟩
  obtain ⟨hpc, hnil⟩ := hrest i
  exact (atAny_iff_clean (Pc.not_inDispatch_of_resting hpc)).mpr (clean_of_resting hpc hnil)

end BatchInvariant

end BatchRule

end EtlPlatform
