import EtlPlatform.Proofs.AllowedTargets
import EtlPlatform.Proofs.DeliveredRows
import EtlPlatform.Proofs.Exhaustion

/-!
# What the checkpoint of a pipeline promises

While a pipeline keeps its feed, its checkpoint is sound: every row up to it has
been delivered.  Statement by statement, an incremental run of the pipeline
keeps this promise, and a run of another pipeline or a full run does not touch
the checkpoint.
-/

namespace EtlPlatform

open Library
open IncrementalPlan

/-! ## Loops that leave the checkpoint of a pipeline alone -/

section Sparing

variable {P : Type} [DecidableEq P]

/-- The loop stores no checkpoint of `p`. -/
def SparesCheckpoint (p : P) (bl : BatchLoop P) : Prop :=
  ∀ v rows left n v' ws, bl.advance v rows left n = .ok (v', ws) → ∀ e, .state p e ∉ ws

/-- Another pipeline's run, or a full run, spares the checkpoint. -/
theorem sparesCheckpoint_of_run_body
    {w : World} {p q : P} {snap : PipelineSnapshot} {bl : BatchLoop P}
    (h : _run_body w q snap = .ok bl)
    (hsnap : q = p → snap.tasks = [] ∧ snap.mode ≠ .incremental) :
    SparesCheckpoint p bl := by
  intro v rows left n v' ws hadv e hmem
  by_cases hq : q = p
  · obtain ⟨htasks, hmode⟩ := hsnap hq
    have hfull : snap.mode = .full := by
      cases hm : snap.mode with
      | full =>
          rfl
      | incremental =>
          exact absurd hm hmode
    simp only [_run_body, htasks, hfull, ne_eq, not_true_eq_false, if_false, run_sql_full_pipeline,
      check_eq_ok_iff, bind_eq_ok_iff, pure_eq_ok_iff] at h
    obtain ⟨-, tr, -, rfl⟩ := h
    obtain ⟨-, rfl⟩ := Prod.mk.inj (Except.ok.inj hadv)
    cases hmem
  · obtain ⟨pl, hloop⟩ := runnerLoop_of_run_body h
    rcases hloop.writes.2 v rows left n v' ws hadv with rfl | ⟨e', rfl⟩
    · cases hmem
    · obtain ⟨rfl, -⟩ := Write.state.inj (List.mem_singleton.mp hmem)
      exact hq rfl

/-- A commit without a checkpoint of `p` leaves it as it is. -/
theorem Store.commit_etl_state_of_spared
    {st : Store P} {ws : List (Write P)} {p : P} (h : ∀ e, Write.state p e ∉ ws) :
    (st.commit ws).etl_state p = st.etl_state p := by
  induction ws generalizing st with
  | nil =>
      rfl
  | cons wr ws ih =>
      have hhead : (st.write wr).etl_state p = st.etl_state p := by
        cases wr with
        | upsert item =>
            rfl
        | state q e =>
            refine Function.update_of_ne ?_ _ _
            rintro rfl
            exact h e List.mem_cons_self
      have htail : ∀ e, Write.state p e ∉ ws := fun e he => h e (List.mem_cons_of_mem _ he)
      exact (ih htail).trans hhead

/-- The checkpoint of `p` and the source, under the loops that spare it. -/
def sparing (p : P) (src : Source) (e₀ : Option EtlState) :
    BatchInvariant (P := P) (fun _ bl => SparesCheckpoint p bl) (fun _ _ => False) where
  idle st := st.source = src ∧ st.etl_state p = e₀
  holds _ st ws _ := (st.source = src ∧ st.etl_state p = e₀) ∧ ∀ e, Write.state p e ∉ ws
  idle_of_holds _ _ _ _ h := h.1
  idle_source _ _ _ h := h.elim
  holds_source _ _ _ _ _ _ h := h.elim
  setup _ _ _ _ _ h _ := ⟨h, by simp⟩
  query _ _ _ _ _ _ h _ _ := h
  transform _ _ _ _ _ _ _ h _ := h
  skip _ _ _ _ _ h _ := h
  session _ _ _ _ _ _ _ _ h _ _ _ := ⟨h.1, by simp⟩
  direct _ _ _ _ _ _ _ _ h _ _ _ := h
  interrupted _ _ _ _ _ _ _ _ _ h _ _ _ _ := h.1
  advance _ _ _ _ _ _ _ _ _ _ hruns h hadv := by
    refine ⟨h.1, fun e he => ?_⟩
    rcases List.mem_append.mp he with he | he
    · exact h.2 e he
    · exact hruns _ _ _ _ _ _ hadv e he
  commit _ st ws _ h := by
    refine ⟨⟨(Store.commit_source st ws).trans h.1.1, ?_⟩, by simp⟩
    exact (Store.commit_etl_state_of_spared h.2).trans h.1.2

end Sparing

/-! ## The incremental run of a pipeline -/

section Stages

variable {P : Type}

/-- What the commit of a session of `p` would deliver. -/
def sent (p : P) (ws : List (Write P)) : List (P × Item) :=
  (upsertsOf ws).map (fun item => (p, item))

variable [DecidableEq P]
variable (w : World) (f : Feed) (p : P) (D : List (P × Item))

/-- What the checkpoint of a pipeline promises between any two steps. -/
structure Promised (st : Store P) : Prop where
  pairs : HasPairs w.collation st.source f
  upto : DeliveredUpTo w f p D st.source (st.etl_state p)

/-- What the loop has in hand at each of its await points. -/
def LoopAt (st : Store P) (ws : List (Write P)) : LoopPc → Prop
  | .setup => ws = []
  | .fetch v | .pauseRead v | .pauseApply v => StandsAt (st.etl_state p) v.cursor ∧ ws = []
  | .transform _ rows => BatchRead w f st.source (st.etl_state p) rows ∧ ws = []
  | .write _ rows res =>
      BatchRead w f st.source (st.etl_state p) rows ∧ res = NoOpTransformer rows ∧ ws = []
  | .advance _ rows left _ =>
      BatchRead w f st.source (st.etl_state p) rows ∧ left = rows ∧
        ∀ r ∈ rows, Written w f p (D ++ sent p ws) r
  | .commit v =>
      StandsAt ((st.commit ws).etl_state p) v.cursor ∧
        DeliveredUpTo w f p (D ++ sent p ws) st.source ((st.commit ws).etl_state p)
  | .close exit _ => (exit = .exhausted → Complete w f p D st.source) ∧ ws = []

variable (snap : PipelineSnapshot)

/-- What is known at a stage of the dispatch that works on `snap`. -/
def StageAt (st : Store P) (ws : List (Write P)) : Stage P → Prop
  | .loop _ _ bl pc =>
      bl = (passThroughPlan snap).loop w p ∧ LoopAt w (feedOf snap) p D st ws pc
  | .finishSuccess _ _ exit _ =>
      (exit = .exhausted → Complete w (feedOf snap) p D st.source) ∧ ws = []
  | stage => stage.mayHold ∨ ws = []

variable {w f p D snap}

omit [DecidableEq P] in
theorem Promised.mono
    {D' : List (P × Item)} {st : Store P} (h : D ⊆ D') (hst : Promised w f p D st) :
    Promised w f p D' st :=
  ⟨hst.pairs, hst.upto.mono h⟩

omit [DecidableEq P] in
theorem append_subset
    {D' X : List (P × Item)} (h : D ⊆ D') :
    D ++ X ⊆ D' ++ X :=
  List.append_subset.mpr
    ⟨fun _ ha => List.mem_append_left _ (h ha), List.subset_append_right _ _⟩

theorem LoopAt.mono
    {D' : List (P × Item)} {st : Store P} {ws : List (Write P)} {pc : LoopPc}
    (h : D ⊆ D') (hat : LoopAt w f p D st ws pc) :
    LoopAt w f p D' st ws pc := by
  cases pc with
  | advance v rows left n =>
      exact ⟨hat.1, hat.2.1, fun r hr => (hat.2.2 r hr).mono (append_subset h)⟩
  | commit v =>
      exact ⟨hat.1, hat.2.mono (append_subset h)⟩
  | close exit v =>
      exact ⟨fun hexit => (hat.1 hexit).mono h, hat.2⟩
  | _ =>
      exact hat

theorem StageAt.mono
    {D' : List (P × Item)} {st : Store P} {ws : List (Write P)} {stage : Stage P}
    (h : D ⊆ D') (hat : StageAt w p D snap st ws stage) :
    StageAt w p D' snap st ws stage := by
  cases stage with
  | loop k r bl pc =>
      exact ⟨hat.1, hat.2.mono h⟩
  | finishSuccess k r exit v =>
      exact ⟨fun hexit => (hat.1 hexit).mono h, hat.2⟩
  | _ =>
      exact hat

/-- What is known at a stage implies the session discipline. -/
theorem StageAt.mayHold
    {st : Store P} {ws : List (Write P)} {stage : Stage P}
    (hat : StageAt w p D snap st ws stage) :
    stage.mayHold ∨ ws = [] := by
  cases stage with
  | loop k r bl pc =>
      obtain ⟨-, hat⟩ := hat
      cases pc with
      | setup =>
          exact Or.inr hat
      | advance v rows left n =>
          exact Or.inl trivial
      | commit v =>
          exact Or.inl trivial
      | write v rows res =>
          exact Or.inr hat.2.2
      | _ =>
          exact Or.inr hat.2
  | finishSuccess k r exit v =>
      exact Or.inr hat.2
  | _ =>
      exact hat

theorem stageAt_onExecuteExc
    (st : Store P) (ws : List (Write P)) (k r : ℕ) (exc : Exc) :
    StageAt w p D snap st ws (onExecuteExc w k r exc) := by
  unfold onExecuteExc
  split_ifs with hdis
  · simp [onDispatchExc, hdis, StageAt, Stage.mayHold]
  · exact Or.inl trivial

/-- A computed continuation: its error leads to the handler. -/
theorem stageAt_stageOf
    {α : Type} {st : Store P} {ws : List (Write P)} {k r : ℕ} {next : α → Stage P}
    {res : Except Exc α}
    (h : ∀ x, res = .ok x → StageAt w p D snap st ws (next x)) :
    StageAt w p D snap st ws (stageOf (onExecuteExc w k r) next res) := by
  cases res with
  | ok x =>
      exact h x rfl
  | error exc =>
      exact stageAt_onExecuteExc st ws k r exc

/-- One statement of the loop.  Where it takes effect, everything it applies is delivered. -/
theorem stageAt_answer
    {D' : List (P × Item)} {c : Choice} {kept done : Db P × List (Write P)} {next : Stage P}
    {k r : ℕ} {a : After P}
    (h : answer c kept done next (onExecuteExc w k r) = some a)
    (hD : D ⊆ D') (hkept : Promised w (feedOf snap) p D kept.1.store)
    (hdone : (∀ items, c.applied items = items) →
      Promised w (feedOf snap) p D' done.1.store ∧ StageAt w p D' snap done.1.store done.2 next) :
    Promised w (feedOf snap) p D' a.db.store ∧
      StageAt w p D' snap a.db.store a.pending a.stage := by
  rcases answer_cases h with ⟨rfl, rfl⟩ | ⟨exc, -, rfl⟩ | ⟨rfl, rfl⟩
  · exact hdone (fun _ => rfl)
  · exact ⟨hkept.mono hD, stageAt_onExecuteExc _ _ k r exc⟩
  · exact ⟨(hdone (fun _ => rfl)).1, stageAt_onExecuteExc _ _ k r connectionLost⟩

/-- A statement of the loop that changes nothing but the session. -/
theorem stageAt_answer_of_store_eq
    {D' : List (P × Item)} {c : Choice} {kept done : Db P × List (Write P)} {next : Stage P}
    {k r : ℕ} {a : After P}
    (h : answer c kept done next (onExecuteExc w k r) = some a)
    (hD : D ⊆ D') (hkept : Promised w (feedOf snap) p D kept.1.store)
    (hstore : done.1.store = kept.1.store)
    (hnext : StageAt w p D snap kept.1.store done.2 next) :
    Promised w (feedOf snap) p D' a.db.store ∧
      StageAt w p D' snap a.db.store a.pending a.stage := by
  refine stageAt_answer h hD hkept (fun _ => ?_)
  rw [hstore]
  exact ⟨hkept.mono hD, hnext.mono hD⟩

/-- The write of a batch. -/
theorem loopStep_write_stageAt
    {db : Db P} {ws : List (Write P)} {k r : ℕ} {v : LoopVars} {rows : List Row}
    {res : Transformed} {bl : BatchLoop P} {c : Choice} {a : After P}
    (h : loopStep w (db, ws) p k r bl (.write v rows res) c = some a)
    (hbl : bl = (passThroughPlan snap).loop w p)
    (hkept : Promised w (feedOf snap) p D db.store)
    (hat : LoopAt w (feedOf snap) p D db.store ws (.write v rows res)) :
    let D' := D ++ (Stage.sends ws c (.loop k r bl (.write v rows res))).map (fun item => (p, item))
    Promised w (feedOf snap) p D' a.db.store ∧
      StageAt w p D' snap a.db.store a.pending a.stage := by
  intro D'
  obtain ⟨hread, rfl, rfl⟩ := hat
  have hD : D ⊆ D' := List.subset_append_left _ _
  have hne : (NoOpTransformer rows).rows ≠ [] := hread.1
  rcases loopStep_write_cases h with ⟨hnil, -⟩ | ⟨exc, -, -, h⟩ | ⟨items, -, hwrite, h⟩
  · exact absurd hnil hne
  · exact stageAt_answer_of_store_eq h hD hkept rfl (stageAt_onExecuteExc _ _ k r exc)
  · -- every row has its item among those of the write
    have hitems : ∀ row ∈ rows, ∃ item ∈ items, (feedOf snap).item w row = .ok item := by
      intro row hrow
      rw [item_feedOf]
      rw [hbl] at hwrite
      exact exists_mem_of_mapM (mapM_of_write hwrite) hrow
    rcases writeStep_cases h with ⟨htx, hans⟩ | ⟨htx, hans | ⟨marks, exc, rfl, rfl⟩⟩
    · refine stageAt_answer_of_store_eq hans hD hkept rfl ⟨hbl, hread, rfl, fun row hrow => ?_⟩
      obtain ⟨item, hitem, hrow⟩ := hitems row hrow
      refine ⟨item, hrow, List.mem_append_right _ ?_⟩
      rw [sent, List.nil_append, upsertsOf_map_upsert]
      exact List.mem_map_of_mem hitem
    · refine stageAt_answer hans hD hkept (fun happlied => ?_)
      have hsends : Stage.sends [] c (.loop k r bl (.write v rows (NoOpTransformer rows))) =
          items := by
        rw [Stage.sends, if_neg (by simp [htx, hne]), hwrite]
        exact happlied items
      refine ⟨⟨hkept.pairs, hkept.upto.mono hD⟩, hbl, hread, rfl, fun row hrow => ?_⟩
      obtain ⟨item, hitem, hrow⟩ := hitems row hrow
      refine ⟨item, hrow, List.mem_append_left _ (List.mem_append_right _ ?_)⟩
      rw [hsends]
      exact List.mem_map_of_mem hitem
    · exact ⟨⟨hkept.pairs, hkept.upto.mono hD⟩, stageAt_onExecuteExc _ _ k r exc⟩

/-- **One statement of the loop keeps the promise.** -/
theorem loopStep_stageAt
    {db : Db P} {ws : List (Write P)} {k r : ℕ} {bl : BatchLoop P} {pc : LoopPc} {c : Choice}
    {a : After P}
    (h : loopStep w (db, ws) p k r bl pc c = some a)
    (hbl : bl = (passThroughPlan snap).loop w p)
    (hkept : Promised w (feedOf snap) p D db.store)
    (hat : LoopAt w (feedOf snap) p D db.store ws pc) :
    let D' := D ++ (Stage.sends ws c (.loop k r bl pc)).map (fun item => (p, item))
    Promised w (feedOf snap) p D' a.db.store ∧
      StageAt w p D' snap a.db.store a.pending a.stage := by
  intro D'
  have hD : D ⊆ D' := List.subset_append_left _ _
  cases pc with
  | setup =>
      refine stageAt_answer_of_store_eq h hD hkept rfl (stageAt_stageOf (fun v hv => ?_))
      rw [hbl] at hv
      exact ⟨hbl, Or.inl (setup_eq_ok hv), hat⟩
  | fetch v =>
      obtain ⟨hstands, rfl⟩ := hat
      refine stageAt_answer_of_store_eq h hD hkept rfl (stageAt_stageOf (fun rows hrows => ?_))
      rw [hbl] at hrows
      by_cases hnil : rows = []
      · rw [if_pos hnil]
        rw [hnil] at hrows
        exact ⟨hbl, fun _ => hkept.upto.complete hkept.pairs hstands
          (batchSizeOr_pos snap.batch_size) hrows, rfl⟩
      · rw [if_neg hnil]
        exact ⟨hbl, ⟨hnil, v.cursor, batchSizeOr snap.batch_size, hstands, hrows⟩, rfl⟩
  | transform v rows =>
      obtain ⟨hread, rfl⟩ := hat
      refine stageAt_answer_of_store_eq h hD hkept rfl (stageAt_stageOf (fun res hres => ?_))
      rw [hbl] at hres
      exact ⟨hbl, hread, (Except.ok.inj hres).symm, rfl⟩
  | write v rows res =>
      exact loopStep_write_stageAt h hbl hkept hat
  | advance v rows left n =>
      obtain ⟨hread, rfl, hwritten⟩ := hat
      rcases loopStep_advance_cases h with ⟨exc, -, h⟩ | ⟨v', ws', hadv, h⟩
      · exact stageAt_answer_of_store_eq h hD hkept rfl (stageAt_onExecuteExc _ _ k r exc)
      · refine stageAt_answer_of_store_eq h hD hkept rfl ⟨hbl, ?_⟩
        rw [hbl] at hadv
        obtain ⟨c', htail, hcursor, rfl⟩ := advanceIncremental_eq_ok hadv
        have hsent : sent p (ws ++ [.state p (encodeState c')]) = sent p ws := by
          simp [sent, upsertsOf]
        have hstate : (db.store.commit (ws ++ [.state p (encodeState c')])).etl_state p =
            some (encodeState c') := by
          rw [Store.commit_append, Store.commit_state]
          exact Function.update_self _ _ _
        simp only [LoopAt, hsent, hstate, hcursor]
        exact ⟨standsAt_encodeState c',
          (hkept.upto.mono (List.subset_append_left _ _)).advance hkept.pairs hread hwritten htail⟩
  | commit v =>
      obtain ⟨hstands, hupto⟩ := hat
      refine stageAt_answer h hD hkept (fun happlied => ?_)
      have hD' : D' = D ++ sent p ws := by
        simp only [D', sent, Stage.sends, happlied]
      have hsource : (db.commit ws).store.source = db.store.source :=
        Store.commit_source db.store ws
      rw [hD']
      exact ⟨⟨hsource ▸ hkept.pairs, hsource ▸ hupto⟩, hbl, hstands, rfl⟩
  | pauseRead v =>
      refine stageAt_answer_of_store_eq h hD hkept rfl ?_
      split_ifs
      · exact ⟨hbl, hat⟩
      · exact ⟨hbl, hat⟩
  | pauseApply v =>
      obtain ⟨-, rfl⟩ := hat
      have hnext : StageAt w p D snap db.store [] (.loop k r bl (.close .paused v)) :=
        ⟨hbl, fun hexit => Exit.noConfusion hexit, rfl⟩
      simp only [loopStep, answerUpdate] at h
      split_ifs at h
      · exact stageAt_answer_of_store_eq h hD hkept (Db.store_updateStatus _ _ db p) hnext
      · exact stageAt_answer_of_store_eq h hD hkept rfl hnext
  | close exit v =>
      exact stageAt_answer_of_store_eq h hD hkept rfl hat

/-- No stage outside the loop leads to the success of a run. -/
theorem stageStep_ne_finishSuccess
    {kept : Db P × List (Write P)} {st : Stage P} {c : Choice} {a : After P}
    {k r : ℕ} {exit : Exit} {v : LoopVars}
    (h : stageStep w kept p snap st c = some a) (hst : ∀ k r bl pc, st ≠ .loop k r bl pc) :
    a.stage ≠ .finishSuccess k r exit v := by
  intro hstage
  have hact : a.stage.activity = .exited exit := by
    rw [hstage]
    rfl
  have hfrom := (stageStep_moves h).2.to_exited hact
  have hnot : ¬ a.stage.activity.isHandler := by
    rw [hact]
    exact id
  cases st with
  | loop j q bl pc =>
      exact hst j q bl pc rfl
  | runBody j q =>
      have hnext := (answerRead_quiet h (onExecuteExc_isHandler w j q)).2.resolve_right hnot
      rw [hnext] at hact
      obtain ⟨bl, -, hbl⟩ := stageOf_exited hact
      cases hbl
  | finishSuccess j q exit' v' =>
      have hnext := (answerCommit_quiet h rfl (onExecuteExc_isHandler w j q)).2.resolve_right hnot
      rw [hnext] at hstage
      cases hstage
  | getStatus j exit' =>
      have hnext := (answerRead_quiet h (onDispatchExc_isHandler w j)).2.resolve_right hnot
      rw [hnext] at hstage
      split_ifs at hstage
  | _ =>
      simp [Stage.activity] at hfrom

/-- **One step of the run keeps the promise.** -/
theorem stageStep_stageAt
    {db : Db P} {ws : List (Write P)} {st : Stage P} {c : Choice} {a : After P}
    (h : stageStep w (db, ws) p snap st c = some a)
    (htasks : snap.tasks = []) (hmode : snap.mode = .incremental) (htype : snap.type ≠ .PYTHON)
    (hkept : Promised w (feedOf snap) p D db.store)
    (hat : StageAt w p D snap db.store ws st) :
    let D' := D ++ (st.sends ws c).map (fun item => (p, item))
    Promised w (feedOf snap) p D' a.db.store ∧
      StageAt w p D' snap a.db.store a.pending a.stage := by
  intro D'
  have hD : D ⊆ D' := List.subset_append_left _ _
  by_cases hloop : ∃ k r bl pc, st = .loop k r bl pc
  · obtain ⟨k, r, bl, pc, rfl⟩ := hloop
    exact loopStep_stageAt h hat.1 hkept hat.2
  · have hst : ∀ k r bl pc, st ≠ .loop k r bl pc := by
      rintro k r bl pc rfl
      exact hloop ⟨k, r, bl, pc, rfl⟩
    obtain ⟨hclean, hsame⟩ := stageStep_outsideLoop h hst hat.mayHold
    rw [hsame]
    refine ⟨hkept.mono hD, ?_⟩
    cases hstage : a.stage with
    | loop k r bl pc =>
        rw [hstage] at hclean
        obtain ⟨rfl, rfl, hbody⟩ := stageStep_entersLoop h hst hstage
        exact ⟨loop_eq_passThroughPlan htasks hmode htype hbody, hclean.resolve_left id⟩
    | finishSuccess k r exit v =>
        exact absurd hstage (stageStep_ne_finishSuccess h hst)
    | _ =>
        rw [hstage] at hclean
        exact hclean

end Stages

/-! ## Runs of the platform -/

section Runs

variable {P : Type} [DecidableEq P]

/-- An incremental run of `p` is in progress. -/
def Pc.incremental (p : P) : Pc P → Prop
  | .dispatch q snap _ _ => q = p ∧ snap.mode = .incremental
  | _ => False

instance (p : P) : DecidablePred (Pc.incremental p)
  | .dispatch _ _ _ _ => inferInstanceAs (Decidable (_ ∧ _))
  | .down | .recovery | .recovering _ | .started | .polling | .tick _ => .isFalse id

/-- What is known about the runner process. -/
def ProcAt (w : World) (p : P) (D : List (P × Item)) (db : Db P) (pr : Proc P) : Prop :=
  match pr.pc with
  | .dispatch q snap stage _ =>
      (q = p → snap.type ≠ .PYTHON ∧ snap.tasks = []) ∧
        (q = p ∧ snap.mode = .incremental →
          feedOf snap = db.feed p ∧ StageAt w p D snap db.store pr.pending stage) ∧
        (¬ (q = p ∧ snap.mode = .incremental) →
          (sparing p db.store.source (db.store.etl_state p)).AtStage q db.store pr.pending stage)
  | _ => pr.pending = []

/-- The checkpoint of `p` promises what it should, under the current configuration. -/
structure Sound (w : World) (p : P) (D : List (P × Item)) (db : Db P) (pr : Proc P) : Prop where
  no_tasks : (db.config p).tasks = []
  passes : (db.config p).type ≠ .PYTHON
  promised : Promised w (db.feed p) p D db.store
  proc : ProcAt w p D db pr

variable {w : World} {p : P} {D : List (P × Item)} {db : Db P} {pr : Proc P}

omit [DecidableEq P] in
theorem SameConfig.feed_eq
    {db' : Db P} (h : SameConfig db db') (p : P) :
    db'.feed p = db.feed p :=
  congrArg feedOf (h.config_eq p)

omit [DecidableEq P] in
/-- The feed does not depend on the tasks. -/
theorem feed_eq_feedOf_snapshot
    (db : Db P) (p : P) :
    db.feed p = feedOf (snapshot_pipeline (db.pipelines p)) := by
  rfl

theorem procAt_iff_clean
    (hpc : ¬ pr.pc.inDispatch) :
    ProcAt w p D db pr ↔ pr.Clean := by
  obtain ⟨pc, pending⟩ := pr
  cases pc with
  | dispatch q snap stage todo =>
      exact absurd trivial hpc
  | _ =>
      exact Iff.rfl

/-- A process sees of the database its feed and the store. -/
theorem ProcAt.congr
    {db' : Db P} (h : ProcAt w p D db pr) (hstore : db'.store = db.store)
    (hfeed : pr.pc.incremental p → db'.feed p = db.feed p) :
    ProcAt w p D db' pr := by
  obtain ⟨pc, pending⟩ := pr
  cases pc with
  | dispatch q snap stage todo =>
      obtain ⟨hsnap, hours, htheirs⟩ := h
      refine ⟨hsnap, fun hq => ?_, ?_⟩
      · rw [hfeed hq, hstore]
        exact hours hq
      · rw [hstore]
        exact htheirs
  | _ =>
      exact h

/-- The configuration and the store stay. -/
theorem Sound.of_same
    {db' : Db P} (h : Sound w p D db pr) (hsame : SameConfig db db')
    (hstore : db'.store = db.store) :
    Sound w p D db' pr where
  no_tasks := by
    rw [hsame.config_eq p]
    exact h.no_tasks
  passes := by
    rw [hsame.config_eq p]
    exact h.passes
  promised := by
    rw [hsame.feed_eq p, hstore]
    exact h.promised
  proc := h.proc.congr hstore (fun _ => hsame.feed_eq p)

omit [DecidableEq P] in
/-- The tasks join the snapshot at the first stage; nothing else changes in it. -/
theorem nextSnapshot_cases
    (db : Db P) (q : P) (snap : PipelineSnapshot) (st : Stage P) (c : Choice) :
    nextSnapshot db q snap st c = snap ∨
      (st = .snapshot ∧ nextSnapshot db q snap st c =
        { snap with tasks := (db.config q).tasks }) := by
  cases st with
  | snapshot =>
      cases c with
      | ok =>
          exact Or.inr ⟨rfl, rfl⟩
      | _ =>
          exact Or.inl rfl
  | _ =>
      exact Or.inl rfl

/-- Tasks matter to a stage inside the loop only. -/
theorem StageAt.with_tasks
    {snap : PipelineSnapshot} {st : Store P} {ws : List (Write P)} {stage : Stage P}
    (tasks : List TaskSnapshot) (h : StageAt w p D snap st ws stage)
    (hloop : ∀ k r bl pc, stage ≠ .loop k r bl pc) :
    StageAt w p D { snap with tasks := tasks } st ws stage := by
  cases stage with
  | loop k r bl pc =>
      exact absurd rfl (hloop k r bl pc)
  | _ =>
      exact h

/-- One step of a dispatch. -/
theorem ProcAt.stageStep
    {q : P} {snap : PipelineSnapshot} {stage : Stage P} {todo : List (P × PipelineStatus)}
    {ws : List (Write P)} {c : Choice} {a : After P}
    (h : stageStep w (db, ws) q snap stage c = some a)
    (hsound : Sound w p D db ⟨.dispatch q snap stage todo, ws⟩) :
    let D' := D ++ (stage.sends ws c).map (fun item => (q, item))
    Promised w (db.feed p) p D' a.db.store ∧
      ProcAt w p D' a.db ⟨.dispatch q (nextSnapshot db q snap stage c) a.stage todo, a.pending⟩ := by
  intro D'
  have hD : D ⊆ D' := List.subset_append_left _ _
  obtain ⟨htasks, -, hpromised, hsnap, hours, htheirs⟩ := hsound
  have hfeed := (stageStep_sameConfig h).feed_eq p
  have hnext := nextSnapshot_cases db q snap stage c
  have hsnap' : q = p → (nextSnapshot db q snap stage c).type ≠ .PYTHON ∧
      (nextSnapshot db q snap stage c).tasks = [] := by
    rintro rfl
    rcases hnext with heq | ⟨-, heq⟩ <;> rw [heq]
    · exact hsnap rfl
    · exact ⟨(hsnap rfl).1, htasks⟩
  have hmode : (nextSnapshot db q snap stage c).mode = snap.mode := by
    rcases hnext with heq | ⟨-, heq⟩ <;> rw [heq]
  have hsame : feedOf (nextSnapshot db q snap stage c) = feedOf snap := by
    rcases hnext with heq | ⟨-, heq⟩ <;> rw [heq]
    rfl
  by_cases hq : q = p ∧ snap.mode = .incremental
  · obtain ⟨rfl, hincremental⟩ := hq
    obtain ⟨htype, hnil⟩ := hsnap rfl
    obtain ⟨heq, hat⟩ := hours ⟨rfl, hincremental⟩
    rw [← heq] at hpromised ⊢
    obtain ⟨hpromised', hat⟩ := stageStep_stageAt h hnil hincremental htype hpromised hat
    refine ⟨hpromised', hsnap', fun _ => ⟨?_, ?_⟩,
      fun hnot => absurd ⟨rfl, hmode.trans hincremental⟩ hnot⟩
    · rw [hsame, heq, hfeed]
    rcases hnext with heq' | ⟨rfl, heq'⟩
    · rw [heq']
      exact hat
    · rw [heq']
      refine hat.with_tasks _ (fun k r bl pc hstage => ?_)
      have hfirst := (stageStep_entersLoop h (fun _ _ _ _ => nofun) hstage).1
      cases hfirst
  · have hspares : ∀ k r bl, stage = .runBody k r → _run_body w q snap = .ok bl →
        SparesCheckpoint p bl := by
      intro k r bl _ hbody
      refine sparesCheckpoint_of_run_body hbody (fun heq => ⟨(hsnap heq).2, fun hm => ?_⟩)
      exact hq ⟨heq, hm⟩
    obtain ⟨⟨hsource, hstate⟩, hat⟩ := (sparing p db.store.source (db.store.etl_state p)).stageStep_atStage
      h hspares ⟨rfl, rfl⟩ (htheirs hq)
    refine ⟨⟨hsource ▸ hpromised.pairs, ?_⟩, hsnap', fun hours' => ?_, fun _ => ?_⟩
    · rw [hsource, hstate]
      exact hpromised.upto.mono hD
    · exact absurd ⟨hours'.1, hmode.symm.trans hours'.2⟩ hq
    · rw [hsource, hstate]
      exact hat

/-- **One step of the runner keeps the checkpoint sound.** -/
theorem Sound.procStep
    {db' : Db P} {pr' : Proc P} {c : Choice}
    (hsound : Sound w p D db pr) (h : procStep w db pr c = some (db', pr')) :
    Sound w p (D ++ pr.sends c) db' pr' := by
  have hsame := procStep_sameConfig h
  have hfeed := hsame.feed_eq p
  suffices hstep : Promised w (db.feed p) p (D ++ pr.sends c) db'.store ∧
      ProcAt w p (D ++ pr.sends c) db' pr' by
    constructor
    · rw [hsame.config_eq p]
      exact hsound.no_tasks
    · rw [hsame.config_eq p]
      exact hsound.passes
    · rw [hfeed]
      exact hstep.1
    · exact hstep.2
  by_cases hpc : pr.pc.inDispatch
  · obtain ⟨pc, pending⟩ := pr
    cases pc with
    | dispatch q snap stage todo =>
        rcases procStep_dispatch h with ⟨res, rfl, rfl, rfl⟩ | ⟨a, hst, rfl, rfl⟩
        · refine ⟨hsound.promised.mono (List.subset_append_left _ _), ?_⟩
          rcases afterDispatch_cases todo res with hafter | hafter <;> rw [hafter] <;> rfl
        · exact ProcAt.stageStep hst hsound
    | _ =>
        exact hpc.elim
  · obtain ⟨hclean', hstore⟩ := procStep_outside h hpc ((procAt_iff_clean hpc).mp hsound.proc)
    rw [hstore]
    refine ⟨hsound.promised.mono (List.subset_append_left _ _), ?_⟩
    rcases procStep_claims h hpc with hpc' | ⟨q, todo, rfl⟩
    · exact (procAt_iff_clean hpc').mpr hclean'
    · refine ⟨?_, ?_, fun _ => Or.inr rfl⟩
      · rintro rfl
        exact ⟨hsound.passes, rfl⟩
      · rintro ⟨rfl, -⟩
        rw [hfeed, feed_eq_feedOf_snapshot]
        exact ⟨rfl, Or.inr rfl⟩

end Runs

end EtlPlatform
