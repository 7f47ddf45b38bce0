import EtlPlatform.Proofs.StatusProtocol

/-!
# What a session may hold

Five functions of the runner commit the session they share: the batch loop,
`start_run`, `finish_success`, `finish_failed` and the status updates.  Only
the loop means to commit a batch.  `procStep_session` shows that the others
cannot: whenever one of them is reached, the session holds nothing, because
every exception path out of the batch body passes `session.rollback()` or ends
the dispatch, and the end of a dispatch closes the session.

It follows that the source, the checkpoints and the sink change at two places
only: the commit at the end of a batch, and a write that bypasses the session.
-/

namespace EtlPlatform

section Sessions

variable {P : Type}

/-- Points where writes may be waiting in the session. -/
def Stage.mayHold : Stage P → Prop
  | .loop _ _ _ (.advance _ _ _ _) | .loop _ _ _ (.commit _) => True
  | .rollback _ _ _ | .returning _ => True
  | _ => False

/-- The next statement commits a batch, or sends one to a sink outside the session. -/
def Stage.delivers : Stage P → Prop
  | .loop _ _ _ (.commit _) => True
  | .loop _ _ bl (.write _ _ _) => bl.transactional = false
  | _ => False

/-- Nothing waits in the session, except where it may. -/
def Proc.Clean (pr : Proc P) : Prop :=
  match pr.pc with
  | .dispatch _ _ st _ => st.mayHold ∨ pr.pending = []
  | _ => pr.pending = []

/-- The handlers of the executor roll the session back, or end the dispatch. -/
theorem onExecuteExc_mayHold
    (w : World) (k r : ℕ) (exc : Exc) :
    (onExecuteExc w k r exc : Stage P).mayHold := by
  unfold onExecuteExc
  split_ifs with hdis
  · simp [onDispatchExc, hdis, Stage.mayHold]
  · trivial

/-- A statement run on a clean session, where any handler may follow. -/
theorem answer_session
    {c : Choice} {db db' : Db P} {next : Stage P} {onExc : Exc → Stage P} {a : After P}
    (h : answer c (db, []) (db', []) next onExc = some a)
    (hstore : db'.store = db.store) :
    a.pending = [] ∧ a.db.store = db.store := by
  rcases answer_cases h with ⟨-, rfl⟩ | ⟨exc, -, rfl⟩ | ⟨-, rfl⟩
  · exact ⟨rfl, hstore⟩
  · exact ⟨rfl, rfl⟩
  · exact ⟨rfl, hstore⟩

/-- A statement inside the batch body: it leads on, or to the executor's handler. -/
theorem answer_body
    {w : World} {k r : ℕ} {c : Choice} {kept done : Db P × List (Write P)}
    {next : Stage P} {a : After P}
    (h : answer c kept done next (onExecuteExc w k r) = some a) :
    (a = ⟨done.1, done.2, next⟩ ∨ a.stage.mayHold) ∧
      (a.db = kept.1 ∨ a.db = done.1) := by
  rcases answer_cases h with ⟨-, rfl⟩ | ⟨exc, -, rfl⟩ | ⟨-, rfl⟩
  · exact ⟨Or.inl rfl, Or.inr rfl⟩
  · exact ⟨Or.inr (onExecuteExc_mayHold w k r exc), Or.inl rfl⟩
  · exact ⟨Or.inr (onExecuteExc_mayHold w k r connectionLost), Or.inr rfl⟩

/-- A step of the batch body that writes nothing. -/
theorem answerRead_body
    {w : World} {k r : ℕ} {c : Choice} {db : Db P} {pending : List (Write P)}
    {next : Stage P} {a : After P}
    (h : answerRead c (db, pending) next (onExecuteExc w k r) = some a)
    (hnext : next.mayHold ∨ pending = []) :
    (a.stage.mayHold ∨ a.pending = []) ∧ a.db.store = db.store := by
  obtain ⟨hstage, hdb⟩ := answer_body h
  refine ⟨?_, ?_⟩
  · rcases hstage with rfl | hhold
    · exact hnext
    · exact Or.inl hhold
  · rcases hdb with hdb | hdb <;> rw [hdb]

variable [DecidableEq P]

@[simp] theorem Db.commit_nil_store
    (db : Db P) :
    (db.commit []).store = db.store := by
  rfl

/-- A conditional status update on a clean session. -/
theorem answerUpdate_session
    {c : Choice} {db : Db P} {p : P} {allowed : List PipelineStatus} {new : PipelineStatus}
    {next : Stage P} {onExc : Exc → Stage P} {a : After P}
    (h : answerUpdate c (db, []) p allowed (Db.updateStatus allowed new) next onExc = some a) :
    a.pending = [] ∧ a.db.store = db.store := by
  unfold answerUpdate at h
  split_ifs at h with hmem
  · exact answer_session h (by simp)
  · exact answer_session h rfl

omit [DecidableEq P] in
/-- A write stays in the session, or bypasses it. -/
theorem writeStep_session
    {w : World} {db : Db P} {pending : List (Write P)} {k r : ℕ} {bl : BatchLoop P}
    {items : List Item} {v v' : LoopVars} {rows left : List Row} {res : Transformed}
    {written : ℕ} {c : Choice} {a : After P}
    (h : writeStep (db, pending) bl items (.loop k r bl (.advance v rows left written))
      (onExecuteExc w k r) c = some a) :
    (a.stage.mayHold ∨ a.pending = []) ∧
      ((Stage.loop k r bl (.write v' rows res)).delivers ∨ a.db.store = db.store) := by
  rcases writeStep_cases h with ⟨-, hans⟩ | ⟨htx, hans | ⟨applied, exc, -, rfl⟩⟩
  · obtain ⟨hstage, hdb⟩ := answer_body hans
    refine ⟨Or.inl ?_, Or.inr ?_⟩
    · rcases hstage with rfl | hhold
      · trivial
      · exact hhold
    · rcases hdb with hdb | hdb <;> rw [hdb]
  · refine ⟨Or.inl ?_, Or.inl htx⟩
    rcases (answer_body hans).1 with rfl | hhold
    · trivial
    · exact hhold
  · exact ⟨Or.inl (onExecuteExc_mayHold w k r exc), Or.inl htx⟩

/-- What a step of the batch loop does to the session and to the store. -/
theorem loopStep_session
    {w : World} {db : Db P} {pending : List (Write P)} {p : P} {k r : ℕ}
    {bl : BatchLoop P} {pc : LoopPc} {c : Choice} {a : After P}
    (h : loopStep w (db, pending) p k r bl pc c = some a)
    (hclean : (Stage.loop k r bl pc).mayHold ∨ pending = []) :
    (a.stage.mayHold ∨ a.pending = []) ∧
      ((Stage.loop k r bl pc).delivers ∨ a.db.store = db.store) := by
  cases pc with
  | setup =>
      obtain ⟨hhold, hstore⟩ := answerRead_body h (Or.inr (hclean.resolve_left id))
      exact ⟨hhold, Or.inr hstore⟩
  | fetch v =>
      obtain ⟨hhold, hstore⟩ := answerRead_body h (Or.inr (hclean.resolve_left id))
      exact ⟨hhold, Or.inr hstore⟩
  | transform v rows =>
      obtain ⟨hhold, hstore⟩ := answerRead_body h (Or.inr (hclean.resolve_left id))
      exact ⟨hhold, Or.inr hstore⟩
  | write v rows res =>
      rcases loopStep_write_cases h with ⟨-, h⟩ | ⟨exc, -, -, h⟩ | ⟨items, -, -, h⟩
      · obtain ⟨hhold, hstore⟩ := answerRead_body h (Or.inl trivial)
        exact ⟨hhold, Or.inr hstore⟩
      · obtain ⟨hhold, hstore⟩ := answerRead_body h (Or.inl (onExecuteExc_mayHold w k r exc))
        exact ⟨hhold, Or.inr hstore⟩
      · exact writeStep_session h
  | advance v rows left written =>
      rcases loopStep_advance_cases h with ⟨exc, -, h⟩ | ⟨v', ws, -, h⟩
      · obtain ⟨hhold, hstore⟩ := answerRead_body h (Or.inl (onExecuteExc_mayHold w k r exc))
        exact ⟨hhold, Or.inr hstore⟩
      · obtain ⟨hstage, hdb⟩ := answer_body h
        refine ⟨Or.inl ?_, Or.inr ?_⟩
        · rcases hstage with rfl | hhold
          · trivial
          · exact hhold
        · rcases hdb with hdb | hdb <;> rw [hdb]
  | commit v =>
      obtain ⟨hstage, -⟩ := answer_body h
      refine ⟨?_, Or.inl trivial⟩
      rcases hstage with rfl | hhold
      · exact Or.inr rfl
      · exact Or.inl hhold
  | pauseRead v =>
      obtain ⟨hhold, hstore⟩ := answerRead_body h (Or.inr (hclean.resolve_left id))
      exact ⟨hhold, Or.inr hstore⟩
  | pauseApply v =>
      obtain rfl := hclean.resolve_left id
      obtain ⟨hnil, hstore⟩ := answerUpdate_session h
      exact ⟨Or.inr hnil, Or.inr hstore⟩
  | close exit v =>
      obtain ⟨hhold, hstore⟩ := answerRead_body h (Or.inr (hclean.resolve_left id))
      exact ⟨hhold, Or.inr hstore⟩

/-- **The session discipline of a dispatch.** -/
theorem stageStep_session
    {w : World} {db : Db P} {pending : List (Write P)} {p : P} {snap : PipelineSnapshot}
    {st : Stage P} {c : Choice} {a : After P}
    (h : stageStep w (db, pending) p snap st c = some a)
    (hclean : st.mayHold ∨ pending = []) :
    (a.stage.mayHold ∨ a.pending = []) ∧ (st.delivers ∨ a.db.store = db.store) := by
  cases st with
  | snapshot =>
      obtain rfl := hclean.resolve_left id
      obtain ⟨hnil, hstore⟩ := answer_session h rfl
      exact ⟨Or.inr hnil, Or.inr hstore⟩
  | startRun k =>
      obtain rfl := hclean.resolve_left id
      obtain ⟨hnil, hstore⟩ := answer_session h rfl
      exact ⟨Or.inr hnil, Or.inr hstore⟩
  | runBody k r =>
      obtain ⟨hhold, hstore⟩ := answerRead_body h (Or.inr (hclean.resolve_left id))
      exact ⟨hhold, Or.inr hstore⟩
  | loop k r bl pc =>
      exact loopStep_session h hclean
  | finishSuccess k r exit v =>
      obtain rfl := hclean.resolve_left id
      obtain ⟨hnil, hstore⟩ := answer_session h rfl
      exact ⟨Or.inr hnil, Or.inr hstore⟩
  | getStatus k exit =>
      obtain rfl := hclean.resolve_left id
      obtain ⟨hnil, hstore⟩ := answer_session h rfl
      exact ⟨Or.inr hnil, Or.inr hstore⟩
  | finishIdle k exit =>
      obtain rfl := hclean.resolve_left id
      obtain ⟨hnil, hstore⟩ := answerUpdate_session h
      exact ⟨Or.inr hnil, Or.inr hstore⟩
  | rollback k r exc =>
      -- the rollback itself empties the session, whatever the answer
      obtain ⟨hnil, hstore⟩ := answer_session h rfl
      exact ⟨Or.inr hnil, Or.inr hstore⟩
  | finishFailed k r exc =>
      obtain rfl := hclean.resolve_left id
      obtain ⟨hnil, hstore⟩ := answer_session h rfl
      exact ⟨Or.inr hnil, Or.inr hstore⟩
  | sleep k delay =>
      cases c with
      | ok =>
          obtain rfl := Option.some.inj h
          exact ⟨Or.inr (hclean.resolve_left id), Or.inr rfl⟩
      | _ =>
          cases h
  | failIfActive exc =>
      obtain rfl := hclean.resolve_left id
      obtain ⟨hnil, hstore⟩ := answerUpdate_session h
      exact ⟨Or.inr hnil, Or.inr hstore⟩
  | returning res =>
      cases h

/-- The process is about to commit a batch of `p`, or to send one to the sink. -/
def Pc.delivers (p : P) : Pc P → Prop
  | .dispatch q _ st _ => q = p ∧ st.delivers
  | _ => False

omit [DecidableEq P] in
theorem clean_of_tick
    {pr : Proc P} {todo : List (P × PipelineStatus)}
    (h : pr = ⟨.polling, []⟩ ∨ pr = ⟨.tick todo, []⟩) :
    pr.Clean := by
  rcases h with rfl | rfl <;> rfl

/-- **The session discipline of a process.**  It keeps its session clean, and changes the
store only where it delivers a batch. -/
theorem procStep_session
    {w : World} {db db' : Db P} {pr pr' : Proc P} {c : Choice}
    (h : procStep w db pr c = some (db', pr'))
    (hclean : pr.Clean) :
    pr'.Clean ∧ ((∃ p, pr.pc.delivers p) ∨ db'.store = db.store) := by
  cases procStep_effect h with
  | listed =>
      refine ⟨?_, Or.inr rfl⟩
      by_cases hnil : db.list_stuck_running_ids = [] <;> simp [Proc.Clean, hnil]
  | recovered hpc =>
      rcases hpc with ⟨-, rfl⟩ | ⟨-, rfl⟩ <;> exact ⟨rfl, Or.inr rfl⟩
  | offered hdb hpr =>
      refine ⟨clean_of_tick hpr, Or.inr ?_⟩
      rcases hdb with rfl | rfl
      · rfl
      · exact Db.store_updateStatus _ _ db _
  | unclaimed hdb hpr =>
      refine ⟨clean_of_tick hpr, Or.inr ?_⟩
      rcases hdb with rfl | rfl
      · rfl
      · exact Db.store_updateStatus _ _ db _
  | claimed hreq =>
      exact ⟨Or.inr rfl, Or.inr (Db.store_updateStatus _ _ db _)⟩
  | returned hpr =>
      exact ⟨clean_of_tick hpr, Or.inr rfl⟩
  | stepped hst =>
      obtain ⟨hhold, hstore⟩ := stageStep_session hst hclean
      exact ⟨hhold, hstore.imp (fun hdel => ⟨_, rfl, hdel⟩) id⟩
  | _ =>
      exact ⟨rfl, Or.inr rfl⟩

omit [DecidableEq P] in
theorem clean_of_resting
    {pr : Proc P} (hpc : pr.pc.resting) (hnil : pr.pending = []) :
    pr.Clean := by
  obtain ⟨pc, pending⟩ := pr
  cases pc with
  | dispatch p snap st todo =>
      exact hpc.elim
  | _ =>
      exact hnil

/-- Sessions stay clean on every run. -/
theorem clean_step
    {ι : Type} [DecidableEq ι] {w : World} {s s' : Sys ι P} {e : Event ι P}
    (h : s.step w e = some s') (hclean : ∀ i, (s.procs i).Clean) :
    ∀ i, (s'.procs i).Clean := by
  have hupdate : ∀ i pr, pr.Clean → ∀ j, (Function.update s.procs i pr j).Clean := by
    intro i pr hpr
    exact (Function.forall_update_iff s.procs fun _ pr => pr.Clean).mpr
      ⟨hpr, fun j _ => hclean j⟩
  cases e with
  | kill i =>
      obtain rfl := Option.some.inj h
      exact hupdate i _ rfl
  | spawn i =>
      obtain ⟨-, rfl⟩ := Sys.step_spawn_iff.mp h
      exact hupdate i _ rfl
  | runner i c =>
      obtain ⟨db, pr, hproc, rfl⟩ := Sys.step_runner_iff.mp h
      exact hupdate i pr (procStep_session hproc (hclean i)).1
  | _ =>
      obtain rfl := Option.some.inj h
      exact hclean

end Sessions

end EtlPlatform
