import EtlPlatform.Model.Process

/-!
# What one step can do

The steps of a process, read backwards: from a step that was taken to the
statement it executed and the answer it got.  `ProcEffect` lists everything one
step of a process can do; the invariants of the modules above are proved by
going through that list, or through the cases of a stage of a dispatch.
-/

namespace EtlPlatform

section Statements

variable {P : Type}

/-- The outcomes of one statement: done, not done and raised, or done and lost. -/
theorem answer_cases
    {c : Choice} {kept done : Db P × List (Write P)}
    {next : Stage P} {onExc : Exc → Stage P} {a : After P}
    (h : answer c kept done next onExc = some a) :
    (c = .ok ∧ a = ⟨done.1, done.2, next⟩) ∨
      (∃ exc, c = .raise exc ∧ a = ⟨kept.1, kept.2, onExc exc⟩) ∨
      (c = .lost ∧ a = ⟨done.1, [], onExc connectionLost⟩) := by
  cases c <;> simp_all [answer]

/-- A write is one statement of the session, or one request to the sink that may also
fail half way. -/
theorem writeStep_cases
    {kept : Db P × List (Write P)} {bl : BatchLoop P} {items : List Item}
    {next : Stage P} {onExc : Exc → Stage P} {c : Choice} {a : After P}
    (h : writeStep kept bl items next onExc c = some a) :
    (bl.transactional = true ∧
        answer c kept (kept.1, kept.2 ++ items.map .upsert) next onExc = some a) ∨
      (bl.transactional = false ∧
        (answer c kept (kept.1.applySink items, kept.2) next onExc = some a ∨
          ∃ applied exc, c = .partialBulk applied exc ∧
            a = ⟨kept.1.applySink (maskItems applied items), kept.2, onExc exc⟩)) := by
  unfold writeStep at h
  split_ifs at h with htx
  · exact Or.inl ⟨htx, h⟩
  · refine Or.inr ⟨by simpa using htx, ?_⟩
    cases c with
    | partialBulk applied exc =>
        exact Or.inr ⟨applied, exc, rfl, (Option.some.inj h).symm⟩
    | _ =>
        exact Or.inl h

variable [DecidableEq P]

/-- The write is left out, or raises, or is sent. -/
theorem loopStep_write_cases
    {w : World} {kept : Db P × List (Write P)} {p : P} {k r : ℕ} {bl : BatchLoop P}
    {v : LoopVars} {rows : List Row} {res : Transformed} {c : Choice} {a : After P}
    (h : loopStep w kept p k r bl (.write v rows res) c = some a) :
    (res.rows = [] ∧
        answerRead c kept (.loop k r bl (.advance v rows res.left 0)) (onExecuteExc w k r) =
          some a) ∨
      (∃ exc, res.rows ≠ [] ∧ bl.write res.rows = .error exc ∧
        answerRead c kept (onExecuteExc w k r exc) (onExecuteExc w k r) = some a) ∨
      ∃ items, res.rows ≠ [] ∧ bl.write res.rows = .ok items ∧
        writeStep kept bl items (.loop k r bl (.advance v rows res.left items.length))
          (onExecuteExc w k r) c = some a := by
  simp only [loopStep] at h
  split_ifs at h with hnil
  · exact Or.inl ⟨hnil, h⟩
  · cases hw : bl.write res.rows with
    | error exc =>
        rw [hw] at h
        exact Or.inr (Or.inl ⟨exc, hnil, rfl, h⟩)
    | ok items =>
        rw [hw] at h
        exact Or.inr (Or.inr ⟨items, hnil, rfl, h⟩)

/-- The advance raises, or adds its writes to the session. -/
theorem loopStep_advance_cases
    {w : World} {kept : Db P × List (Write P)} {p : P} {k r : ℕ} {bl : BatchLoop P}
    {v : LoopVars} {rows left : List Row} {n : ℕ} {c : Choice} {a : After P}
    (h : loopStep w kept p k r bl (.advance v rows left n) c = some a) :
    (∃ exc, bl.advance v rows left n = .error exc ∧
        answerRead c kept (onExecuteExc w k r exc) (onExecuteExc w k r) = some a) ∨
      ∃ v' ws, bl.advance v rows left n = .ok (v', ws) ∧
        answer c kept (kept.1, kept.2 ++ ws) (.loop k r bl (.commit v')) (onExecuteExc w k r) =
          some a := by
  simp only [loopStep] at h
  cases hadv : bl.advance v rows left n with
  | error exc =>
      rw [hadv] at h
      exact Or.inl ⟨exc, rfl, h⟩
  | ok res =>
      rw [hadv] at h
      exact Or.inr ⟨res.1, res.2, rfl, h⟩

end Statements

section Processes

variable {P : Type}

/-- A dispatch that is over lets the tick go on, or ends it. -/
theorem afterDispatch_cases
    (todo : List (P × PipelineStatus)) (res : Except Exc Unit) :
    afterDispatch todo res = .polling ∨ afterDispatch todo res = .tick todo := by
  cases res with
  | ok _ =>
      exact Or.inr rfl
  | error exc =>
      by_cases hdis : is_db_disconnect exc = true <;> simp [afterDispatch, hdis]

variable [DecidableEq P]

/-- What a tick does with a candidate it read as `PAUSE_REQUESTED`. -/
theorem dispatchPause_cases
    {db db' : Db P} {q : P} {todo : List (P × PipelineStatus)} {c : Choice} {pr' : Proc P}
    (h : dispatchPause db q todo c = some (db', pr')) :
    (db' = db ∨ db' = db.apply_pause_requested q) ∧
      (pr' = ⟨.polling, []⟩ ∨ pr' = ⟨.tick todo, []⟩) := by
  cases c with
  | ok =>
      obtain ⟨rfl, rfl⟩ := Prod.mk.inj (Option.some.inj h)
      exact ⟨Or.inr rfl, Or.inr rfl⟩
  | raise exc =>
      obtain ⟨rfl, rfl⟩ := Prod.mk.inj (Option.some.inj h)
      refine ⟨Or.inl rfl, ?_⟩
      exact (afterDispatch_cases todo (.error exc)).imp (fun h => by rw [h]) (fun h => by rw [h])
  | lost =>
      obtain ⟨rfl, rfl⟩ := Prod.mk.inj (Option.some.inj h)
      exact ⟨Or.inr rfl, Or.inl rfl⟩
  | partialBulk applied exc =>
      cases h

/-- What a tick does with a candidate it read as `RUN_REQUESTED`. -/
theorem dispatchClaim_cases
    {db db' : Db P} {q : P} {todo : List (P × PipelineStatus)} {c : Choice} {pr' : Proc P}
    (h : dispatchClaim db q todo c = some (db', pr')) :
    ((db' = db ∨ db' = db.claim_run_requested q) ∧
        (pr' = ⟨.polling, []⟩ ∨ pr' = ⟨.tick todo, []⟩)) ∨
      (db.status q = .RUN_REQUESTED ∧ c = .ok ∧ db' = db.claim_run_requested q ∧
        pr' = ⟨.dispatch q (snapshot_pipeline (db.pipelines q)) .snapshot todo, []⟩) := by
  cases c with
  | ok =>
      simp only [dispatchClaim] at h
      split_ifs at h with hreq <;> obtain ⟨rfl, rfl⟩ := Prod.mk.inj (Option.some.inj h)
      · exact Or.inr ⟨hreq, rfl, rfl, rfl⟩
      · exact Or.inl ⟨Or.inl rfl, Or.inr rfl⟩
  | raise exc =>
      obtain ⟨rfl, rfl⟩ := Prod.mk.inj (Option.some.inj h)
      refine Or.inl ⟨Or.inl rfl, ?_⟩
      exact (afterDispatch_cases todo (.error exc)).imp (fun h => by rw [h]) (fun h => by rw [h])
  | lost =>
      obtain ⟨rfl, rfl⟩ := Prod.mk.inj (Option.some.inj h)
      exact Or.inl ⟨Or.inr rfl, Or.inl rfl⟩
  | partialBulk applied exc =>
      cases h

/-- A step of a process that has claimed a pipeline: the dispatch is over, or it steps. -/
theorem procStep_dispatch
    {w : World} {db db' : Db P} {pending : List (Write P)} {p : P} {snap : PipelineSnapshot}
    {st : Stage P} {todo : List (P × PipelineStatus)} {c : Choice} {pr' : Proc P}
    (h : procStep w db ⟨.dispatch p snap st todo, pending⟩ c = some (db', pr')) :
    (∃ res, st = .returning res ∧ db' = db ∧ pr' = ⟨afterDispatch todo res, []⟩) ∨
      (∃ a, stageStep w (db, pending) p snap st c = some a ∧ db' = a.db ∧
        pr' = ⟨.dispatch p (nextSnapshot db p snap st c) a.stage todo, a.pending⟩) := by
  by_cases hret : ∃ res, st = .returning res
  · obtain ⟨res, rfl⟩ := hret
    obtain ⟨rfl, rfl⟩ := Prod.mk.inj (Option.some.inj h)
    exact Or.inl ⟨res, rfl, rfl, rfl⟩
  · have hstep : procStep w db ⟨.dispatch p snap st todo, pending⟩ c =
        (stageStep w (db, pending) p snap st c).map (fun a =>
          (a.db, ⟨.dispatch p (nextSnapshot db p snap st c) a.stage todo, a.pending⟩)) := by
      cases st with
      | returning res =>
          exact absurd ⟨res, rfl⟩ hret
      | _ =>
          rfl
    rw [hstep, Option.map_eq_some_iff] at h
    obtain ⟨a, ha, heq⟩ := h
    obtain ⟨rfl, rfl⟩ := Prod.mk.inj heq
    exact Or.inr ⟨a, ha, rfl, rfl⟩

/-- Everything one step of a process can do, by the await point it starts from. -/
inductive ProcEffect (w : World) (db : Db P) : Proc P → Choice → Db P → Proc P → Prop
  /-- the startup recovery has found what is stuck -/
  | listed {ws : List (Write P)} :
      ProcEffect w db ⟨.recovery, ws⟩ .ok db
        ⟨if db.list_stuck_running_ids = [] then .started
          else .recovering db.list_stuck_running_ids, []⟩
  /-- the transaction of the recovery is committed -/
  | recovered {ids : List P} {ws : List (Write P)} {c : Choice} {pc : Pc P} :
      (c = .ok ∧ pc = .started) ∨ (c = .lost ∧ pc = .down) →
      ProcEffect w db ⟨.recovering ids, ws⟩ c
        ((db.recover_running_failed_bulk ids).mark_run_requested_bulk ids) ⟨pc, []⟩
  /-- the recovery has failed, and the process with it -/
  | died {pc : Pc P} {ws : List (Write P)} {c : Choice} :
      pc = .recovery ∨ (∃ ids, pc = .recovering ids) →
      ProcEffect w db ⟨pc, ws⟩ c db ⟨.down, []⟩
  /-- a tick has read its candidates -/
  | began {pc : Pc P} {ws : List (Write P)} :
      pc = .started ∨ pc = .polling →
      ProcEffect w db ⟨pc, ws⟩ .ok db ⟨.tick db.get_active, []⟩
  /-- a tick has failed, or has no candidate left -/
  | waits {pc : Pc P} {ws : List (Write P)} {c : Choice} :
      pc = .started ∨ pc = .polling ∨ pc = .tick [] →
      ProcEffect w db ⟨pc, ws⟩ c db ⟨.polling, []⟩
  /-- a candidate with another status -/
  | skipped {p : P} {s : PipelineStatus} {todo : List (P × PipelineStatus)}
      {ws : List (Write P)} {c : Choice} :
      s ≠ .PAUSE_REQUESTED → s ≠ .RUN_REQUESTED →
      ProcEffect w db ⟨.tick ((p, s) :: todo), ws⟩ c db ⟨.tick todo, []⟩
  /-- `apply_pause_requested` for a candidate -/
  | offered {p : P} {todo : List (P × PipelineStatus)} {ws : List (Write P)} {c : Choice}
      {db' : Db P} {pr' : Proc P} :
      db' = db ∨ db' = db.apply_pause_requested p →
      pr' = ⟨.polling, []⟩ ∨ pr' = ⟨.tick todo, []⟩ →
      ProcEffect w db ⟨.tick ((p, .PAUSE_REQUESTED) :: todo), ws⟩ c db' pr'
  /-- `claim_run_requested` without a claim, or with a claim whose answer is lost -/
  | unclaimed {p : P} {todo : List (P × PipelineStatus)} {ws : List (Write P)} {c : Choice}
      {db' : Db P} {pr' : Proc P} :
      db' = db ∨ db' = db.claim_run_requested p →
      pr' = ⟨.polling, []⟩ ∨ pr' = ⟨.tick todo, []⟩ →
      ProcEffect w db ⟨.tick ((p, .RUN_REQUESTED) :: todo), ws⟩ c db' pr'
  /-- the claim is committed -/
  | claimed {p : P} {todo : List (P × PipelineStatus)} {ws : List (Write P)} :
      db.status p = .RUN_REQUESTED →
      ProcEffect w db ⟨.tick ((p, .RUN_REQUESTED) :: todo), ws⟩ .ok (db.claim_run_requested p)
        ⟨.dispatch p (snapshot_pipeline (db.pipelines p)) .snapshot todo, []⟩
  /-- the dispatch has returned or raised -/
  | returned {p : P} {snap : PipelineSnapshot} {res : Except Exc Unit}
      {todo : List (P × PipelineStatus)} {ws : List (Write P)} {c : Choice} {pr' : Proc P} :
      pr' = ⟨.polling, []⟩ ∨ pr' = ⟨.tick todo, []⟩ →
      ProcEffect w db ⟨.dispatch p snap (.returning res) todo, ws⟩ c db pr'
  /-- the dispatch has taken a step -/
  | stepped {p : P} {snap : PipelineSnapshot} {st : Stage P}
      {todo : List (P × PipelineStatus)} {ws : List (Write P)} {c : Choice} {a : After P} :
      stageStep w (db, ws) p snap st c = some a →
      ProcEffect w db ⟨.dispatch p snap st todo, ws⟩ c a.db
        ⟨.dispatch p (nextSnapshot db p snap st c) a.stage todo, a.pending⟩

/-- **One step of a process, case by case.** -/
theorem procStep_effect
    {w : World} {db db' : Db P} {pr pr' : Proc P} {c : Choice}
    (h : procStep w db pr c = some (db', pr')) :
    ProcEffect w db pr c db' pr' := by
  obtain ⟨pc, pending⟩ := pr
  cases pc with
  | down =>
      cases h
  | recovery =>
      cases c with
      | ok =>
          obtain ⟨rfl, rfl⟩ := Prod.mk.inj (Option.some.inj h)
          exact .listed
      | _ =>
          obtain ⟨rfl, rfl⟩ := Prod.mk.inj (Option.some.inj h)
          exact .died (Or.inl rfl)
  | recovering ids =>
      cases c <;> obtain ⟨rfl, rfl⟩ := Prod.mk.inj (Option.some.inj h)
      · exact .recovered (Or.inl ⟨rfl, rfl⟩)
      · exact .died (Or.inr ⟨ids, rfl⟩)
      · exact .recovered (Or.inr ⟨rfl, rfl⟩)
      · exact .died (Or.inr ⟨ids, rfl⟩)
  | started =>
      cases c <;> obtain ⟨rfl, rfl⟩ := Prod.mk.inj (Option.some.inj h)
      · exact .began (Or.inl rfl)
      all_goals exact .waits (Or.inl rfl)
  | polling =>
      cases c <;> obtain ⟨rfl, rfl⟩ := Prod.mk.inj (Option.some.inj h)
      · exact .began (Or.inr rfl)
      all_goals exact .waits (Or.inr (Or.inl rfl))
  | tick todo =>
      rcases todo with _ | ⟨⟨p, s⟩, todo⟩
      · obtain ⟨rfl, rfl⟩ := Prod.mk.inj (Option.some.inj h)
        exact .waits (Or.inr (Or.inr rfl))
      · cases s with
        | PAUSE_REQUESTED =>
            exact .offered (dispatchPause_cases h).1 (dispatchPause_cases h).2
        | RUN_REQUESTED =>
            rcases dispatchClaim_cases h with ⟨hdb, hpr⟩ | ⟨hreq, rfl, rfl, rfl⟩
            · exact .unclaimed hdb hpr
            · exact .claimed hreq
        | _ =>
            obtain ⟨rfl, rfl⟩ := Prod.mk.inj (Option.some.inj h)
            exact .skipped (by simp) (by simp)
  | dispatch p snap st todo =>
      rcases procStep_dispatch h with ⟨res, rfl, rfl, rfl⟩ | ⟨a, hst, rfl, rfl⟩
      · refine .returned ?_
        exact (afterDispatch_cases todo res).imp (fun h => by rw [h]) (fun h => by rw [h])
      · exact .stepped hst

end Processes

end EtlPlatform
