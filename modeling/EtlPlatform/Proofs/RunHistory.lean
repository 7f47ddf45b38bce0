import EtlPlatform.Model.Deployment
import EtlPlatform.Proofs.StepCases

/-!
# Run history

A row of `etl_runs` is opened by the executor and closed by it, by run id, or by
the recovery of a starting process, by pipeline.  The recovery takes every
`RUNNING` row of a stuck pipeline for the leftover of a crash; a second runner
that starts while the first one is executing closes a row the first one will
close again.

History is final on every run in which no recovery commits over a row that a
live process is still going to close.
-/

namespace EtlPlatform

open Library

section Rows

variable {P : Type}

/-- The run row a stage is going to close. -/
def Stage.openRun : Stage P → Option ℕ
  | .runBody _ r => some r
  | .loop _ r _ _ => some r
  | .finishSuccess _ r _ _ => some r
  | .rollback _ r _ => some r
  | .finishFailed _ r _ => some r
  | _ => none

/-- The run row a process is going to close. -/
def Pc.openRun : Pc P → Option ℕ
  | .dispatch _ _ st _ => st.openRun
  | _ => none

/-- No row is lost, and a row that differs has been closed. -/
def Db.KeepsHistory (db db' : Db P) : Prop :=
  ∀ (r : ℕ) (row : EtlRun P), db.runs[r]? = some row →
    ∃ row', db'.runs[r]? = some row' ∧
      (row' = row ∨ row.status = .RUNNING ∧ row'.status ≠ .RUNNING)

theorem Db.KeepsHistory.of_runs_eq
    {db db' : Db P} (h : db'.runs = db.runs) :
    db.KeepsHistory db' := by
  intro r row hrow
  exact ⟨row, h ▸ hrow, Or.inl rfl⟩

theorem Db.KeepsHistory.trans
    {db db' db'' : Db P} (h : db.KeepsHistory db') (h' : db'.KeepsHistory db'') :
    db.KeepsHistory db'' := by
  intro r row hrow
  obtain ⟨row', hrow', hlead⟩ := h r row hrow
  obtain ⟨row'', hrow'', hlead'⟩ := h' r row' hrow'
  refine ⟨row'', hrow'', ?_⟩
  rcases hlead with rfl | ⟨hopen, hclosed⟩
  · exact hlead'
  · rcases hlead' with rfl | ⟨hopen', -⟩
    · exact Or.inr ⟨hopen, hclosed⟩
    · exact absurd hopen' hclosed

/-- A closed row reads the same ever after. -/
theorem Db.KeepsHistory.final
    {db db' : Db P} (h : db.KeepsHistory db') {r : ℕ} {row : EtlRun P}
    (hrow : db.runs[r]? = some row) (hclosed : row.status ≠ .RUNNING) :
    db'.runs[r]? = some row := by
  obtain ⟨row', hrow', rfl | ⟨hopen, -⟩⟩ := h r row hrow
  · exact hrow'
  · exact absurd hopen hclosed

/-- What one step of a dispatch does to the run rows, and to the row it is going to close. -/
inductive RunEffect (db : Db P) (o : Option ℕ) (db' : Db P) (o' : Option ℕ) : Prop
  | same :
      db'.runs = db.runs → o' = none ∨ o' = o →
      RunEffect db o db' o'
  | opened (row : EtlRun P) :
      db'.runs = db.runs ++ [row] → row.status = .RUNNING →
      o' = none ∨ o' = some db.runs.length →
      RunEffect db o db' o'
  | closed (r : ℕ) (f : EtlRun P → EtlRun P) :
      o = some r → db'.runs = db.runs.modify r f → (∀ row, (f row).status ≠ .RUNNING) →
      o' = none →
      RunEffect db o db' o'

theorem onDispatchExc_openRun
    (w : World) (k : ℕ) (exc : Exc) :
    (onDispatchExc w k exc : Stage P).openRun = none := by
  unfold onDispatchExc
  split_ifs
  · rfl
  · cases backoffDelay w.backoff_seconds k <;> rfl
  · rfl

theorem onExecuteExc_openRun
    (w : World) (k r : ℕ) (exc : Exc) :
    (onExecuteExc w k r exc : Stage P).openRun = none ∨
      (onExecuteExc w k r exc : Stage P).openRun = some r := by
  unfold onExecuteExc
  split_ifs
  · exact Or.inl (onDispatchExc_openRun w k exc)
  · exact Or.inr rfl

/-- A statement that leaves the run rows alone. -/
theorem answer_runs
    {c : Choice} {kept done : Db P × List (Write P)} {o : Option ℕ}
    {next : Stage P} {onExc : Exc → Stage P} {a : After P}
    (h : answer c kept done next onExc = some a)
    (hdone : done.1.runs = kept.1.runs)
    (hnext : next.openRun = none ∨ next.openRun = o)
    (hexc : ∀ exc, (onExc exc).openRun = none ∨ (onExc exc).openRun = o) :
    RunEffect kept.1 o a.db a.stage.openRun := by
  rcases answer_cases h with ⟨-, rfl⟩ | ⟨exc, -, rfl⟩ | ⟨-, rfl⟩
  · exact .same hdone hnext
  · exact .same rfl (hexc exc)
  · exact .same hdone (hexc connectionLost)

theorem stageOf_openRun
    {α : Type} {w : World} {k r : ℕ} {next : α → Stage P} (res : Except Exc α)
    (hnext : ∀ x, (next x).openRun = some r) :
    (stageOf (onExecuteExc w k r) next res).openRun = none ∨
      (stageOf (onExecuteExc w k r) next res).openRun = some r := by
  cases res with
  | ok x =>
      exact Or.inr (hnext x)
  | error exc =>
      exact onExecuteExc_openRun w k r exc

variable [DecidableEq P]

theorem answerUpdate_runs
    {c : Choice} {kept : Db P × List (Write P)} {p : P} {allowed : List PipelineStatus}
    {new : PipelineStatus} {o : Option ℕ} {next : Stage P} {onExc : Exc → Stage P} {a : After P}
    (h : answerUpdate c kept p allowed (Db.updateStatus allowed new) next onExc = some a)
    (hnext : next.openRun = none ∨ next.openRun = o)
    (hexc : ∀ exc, (onExc exc).openRun = none ∨ (onExc exc).openRun = o) :
    RunEffect kept.1 o a.db a.stage.openRun := by
  unfold answerUpdate at h
  split_ifs at h
  · exact answer_runs h (Db.runs_updateStatus allowed new kept.1 p) hnext hexc
  · exact answer_runs h rfl hnext hexc

/-- The batch loop leaves the run rows alone, and keeps its row to close. -/
theorem loopStep_runs
    {w : World} {kept : Db P × List (Write P)} {p : P} {k r : ℕ}
    {bl : BatchLoop P} {pc : LoopPc} {c : Choice} {a : After P}
    (h : loopStep w kept p k r bl pc c = some a) :
    RunEffect kept.1 (some r) a.db a.stage.openRun := by
  have hexc := onExecuteExc_openRun (P := P) w k r
  cases pc with
  | setup =>
      exact answer_runs h rfl (stageOf_openRun _ (fun _ => rfl)) hexc
  | fetch v =>
      refine answer_runs h rfl (stageOf_openRun _ (fun rows => ?_)) hexc
      split_ifs <;> rfl
  | transform v rows =>
      exact answer_runs h rfl (stageOf_openRun _ (fun _ => rfl)) hexc
  | write v rows res =>
      rcases loopStep_write_cases h with ⟨-, h⟩ | ⟨exc, -, -, h⟩ | ⟨items, -, -, h⟩
      · exact answer_runs h rfl (Or.inr rfl) hexc
      · exact answer_runs h rfl (hexc exc) hexc
      · rcases writeStep_cases h with ⟨-, hans⟩ | ⟨-, hans | ⟨applied, exc, -, rfl⟩⟩
        · exact answer_runs hans rfl (Or.inr rfl) hexc
        · exact answer_runs hans rfl (Or.inr rfl) hexc
        · exact .same rfl (hexc exc)
  | advance v rows left n =>
      rcases loopStep_advance_cases h with ⟨exc, -, h⟩ | ⟨v', ws, -, h⟩
      · exact answer_runs h rfl (hexc exc) hexc
      · exact answer_runs h rfl (Or.inr rfl) hexc
  | pauseRead v =>
      refine answer_runs h rfl ?_ hexc
      split_ifs <;> exact Or.inr rfl
  | pauseApply v =>
      exact answerUpdate_runs h (Or.inr rfl) hexc
  | _ =>
      exact answer_runs h rfl (Or.inr rfl) hexc

/-- **What a dispatch does to the run rows.** -/
theorem stageStep_runs
    {w : World} {kept : Db P × List (Write P)} {p : P} {snap : PipelineSnapshot}
    {st : Stage P} {c : Choice} {a : After P}
    (h : stageStep w kept p snap st c = some a) :
    RunEffect kept.1 st.openRun a.db a.stage.openRun := by
  have hdispatch : ∀ (k : ℕ) (o : Option ℕ) (exc : Exc),
      (onDispatchExc w k exc : Stage P).openRun = none ∨
        (onDispatchExc w k exc : Stage P).openRun = o :=
    fun k _ exc => Or.inl (onDispatchExc_openRun w k exc)
  have hlost : ∀ k r : ℕ, (onExecuteExc w k r connectionLost : Stage P).openRun = none := by
    intro k r
    rw [onExecuteExc, if_pos is_db_disconnect_connectionLost]
    exact onDispatchExc_openRun w k connectionLost
  cases st with
  | snapshot =>
      refine answer_runs h rfl ?_ (fun _ => Or.inl rfl)
      split_ifs <;> exact Or.inl rfl
  | startRun k =>
      rcases answer_cases h with ⟨-, rfl⟩ | ⟨exc, -, rfl⟩ | ⟨-, rfl⟩
      · exact .opened _ rfl rfl (Or.inr rfl)
      · exact .same rfl (hdispatch k _ exc)
      · exact .opened _ rfl rfl (Or.inl (onDispatchExc_openRun w k connectionLost))
  | runBody k r =>
      exact answer_runs h rfl (stageOf_openRun _ (fun _ => rfl)) (onExecuteExc_openRun w k r)
  | loop k r bl pc =>
      exact loopStep_runs h
  | finishSuccess k r exit v =>
      rcases answer_cases h with ⟨-, rfl⟩ | ⟨exc, -, rfl⟩ | ⟨-, rfl⟩
      · exact .closed r _ rfl rfl (fun _ => by simp) rfl
      · exact .same rfl (onExecuteExc_openRun w k r exc)
      · exact .closed r _ rfl rfl (fun _ => by simp) (hlost k r)
  | getStatus k exit =>
      refine answer_runs h rfl ?_ (hdispatch k none)
      split_ifs <;> exact Or.inl rfl
  | finishIdle k exit =>
      exact answerUpdate_runs h (Or.inl rfl) (hdispatch k none)
  | rollback k r exc =>
      rcases answer_cases h with ⟨-, rfl⟩ | ⟨exc', -, rfl⟩ | ⟨-, rfl⟩
      · exact .same rfl (Or.inr rfl)
      · exact .same rfl (hdispatch k _ exc')
      · exact .same rfl (hdispatch k _ connectionLost)
  | finishFailed k r exc =>
      rcases answer_cases h with ⟨-, rfl⟩ | ⟨exc', -, rfl⟩ | ⟨-, rfl⟩
      · exact .closed r _ rfl rfl (fun _ => by simp) (onDispatchExc_openRun w k exc)
      · exact .same rfl (hdispatch k _ exc')
      · exact .closed r _ rfl rfl (fun _ => by simp) (onDispatchExc_openRun w k connectionLost)
  | sleep k delay =>
      cases c with
      | ok =>
          obtain rfl := Option.some.inj h
          exact .same rfl (Or.inl rfl)
      | _ =>
          cases h
  | failIfActive exc =>
      exact answerUpdate_runs h (Or.inl rfl) (fun _ => Or.inl rfl)
  | returning res =>
      cases h

omit [DecidableEq P] in
/-- A dispatch that closes an open row keeps the history. -/
theorem RunEffect.keepsHistory
    {db db' : Db P} {o o' : Option ℕ}
    (h : RunEffect db o db' o')
    (hopen : ∀ r, o = some r → ∃ row, db.runs[r]? = some row ∧ row.status = .RUNNING) :
    db.KeepsHistory db' := by
  cases h with
  | same hruns _ =>
      exact .of_runs_eq hruns
  | opened new hruns _ _ =>
      intro r row hrow
      have hlt : r < db.runs.length := (List.getElem?_eq_some_iff.mp hrow).1
      refine ⟨row, ?_, Or.inl rfl⟩
      rw [hruns, List.getElem?_append_left hlt]
      exact hrow
  | closed q f ho hruns hf _ =>
      intro r row hrow
      by_cases hqr : q = r
      · subst hqr
        obtain ⟨row₀, hrow₀, hrunning⟩ := hopen q ho
        obtain rfl := Option.some.inj (hrow.symm.trans hrow₀)
        refine ⟨f row, ?_, Or.inr ⟨hrunning, hf row⟩⟩
        rw [hruns, List.getElem?_modify_eq, hrow]
        rfl
      · refine ⟨row, ?_, Or.inl rfl⟩
        rw [hruns, List.getElem?_modify_ne _ _ hqr]
        exact hrow

/-- The pipelines whose rows a recovering process closes at its next step. -/
def Pc.recovers (c : Choice) : Pc P → List P
  | .recovering ids => if c = .ok ∨ c = .lost then ids else []
  | _ => []

/-- A process acts on the run rows as its dispatch does, or as a recovery. -/
theorem procStep_runs
    {w : World} {db db' : Db P} {pr pr' : Proc P} {c : Choice}
    (h : procStep w db pr c = some (db', pr')) :
    RunEffect db pr.pc.openRun db' pr'.pc.openRun ∨
      (db'.runs = (db.recover_running_failed_bulk (pr.pc.recovers c)).runs ∧
        pr'.pc.openRun = none) := by
  cases procStep_effect h with
  | listed =>
      refine Or.inl (.same rfl (Or.inl ?_))
      by_cases hnil : db.list_stuck_running_ids = [] <;> simp [Pc.openRun, hnil]
  | recovered hpc =>
      rcases hpc with ⟨rfl, rfl⟩ | ⟨rfl, rfl⟩ <;> exact Or.inr ⟨rfl, rfl⟩
  | offered hdb hpr =>
      refine Or.inl (.same ?_ (Or.inl ?_))
      · rcases hdb with rfl | rfl
        · rfl
        · exact Db.runs_updateStatus _ _ db _
      · rcases hpr with rfl | rfl <;> rfl
  | unclaimed hdb hpr =>
      refine Or.inl (.same ?_ (Or.inl ?_))
      · rcases hdb with rfl | rfl
        · rfl
        · exact Db.runs_updateStatus _ _ db _
      · rcases hpr with rfl | rfl <;> rfl
  | claimed _ =>
      exact Or.inl (.same (Db.runs_updateStatus _ _ db _) (Or.inl rfl))
  | returned hpr =>
      refine Or.inl (.same rfl (Or.inl ?_))
      rcases hpr with rfl | rfl <;> rfl
  | stepped hst =>
      exact Or.inl (stageStep_runs hst)
  | _ =>
      exact Or.inl (.same rfl (Or.inl rfl))

/-- A recovery closes rows that are open. -/
theorem keepsHistory_recovered
    {db db' : Db P} {ids : List P}
    (h : db'.runs = (db.recover_running_failed_bulk ids).runs) :
    db.KeepsHistory db' := by
  intro r row hrow
  rw [h, Db.recover_running_failed_bulk, List.getElem?_map, hrow]
  refine ⟨_, rfl, ?_⟩
  dsimp only
  by_cases hrec : row.pipeline_id ∈ ids ∧ row.status = .RUNNING
  · rw [if_pos hrec]
    exact Or.inr ⟨hrec.2, by simp⟩
  · rw [if_neg hrec]
    exact Or.inl rfl

/-- A recovery of other pipelines leaves a row alone. -/
theorem getElem?_recovered
    {db db' : Db P} {ids : List P} {r : ℕ} {row : EtlRun P}
    (h : db'.runs = (db.recover_running_failed_bulk ids).runs)
    (hrow : db.runs[r]? = some row) (hids : row.pipeline_id ∉ ids) :
    db'.runs[r]? = some row := by
  rw [h, Db.recover_running_failed_bulk, List.getElem?_map, hrow, Option.map_some,
    if_neg (fun hrec => hids hrec.1)]

end Rows

section RunHistory

variable {ι P : Type} [DecidableEq ι] [DecidableEq P]

/-- The run row process `j` is going to close. -/
def Sys.liveRun (s : Sys ι P) (j : ι) : Option (EtlRun P) :=
  (s.procs j).pc.openRun.bind (fun r => s.db.runs[r]?)

/-- No recovery commits over a run row that a process is still going to close. -/
def SparesLiveRuns (s : Sys ι P) : Event ι P → Prop
  | .runner i c => ∀ j, ∀ row ∈ s.liveRun j, row.pipeline_id ∉ (s.procs i).pc.recovers c
  | _ => True

instance (n : ℕ) (s : Sys (Fin n) P) : DecidablePred (SparesLiveRuns s)
  | .runner i c => inferInstanceAs
      (Decidable (∀ j, ∀ row ∈ s.liveRun j, row.pipeline_id ∉ (s.procs i).pc.recovers c))
  | .run _ | .pause _ | .patch _ _ | .source _ | .kill _ | .spawn _ => .isTrue trivial

/-- Whether an event changes the status of run row `r`. -/
def statusChanges (w : World) (r : ℕ) (s : Sys ι P) (e : Event ι P) : ℕ :=
  match s.db.runs[r]?, s.step w e with
  | some row, some s' =>
      if (s'.db.runs[r]?).map EtlRun.status = some row.status then 0 else 1
  | _, _ => 0

/--
The run leaves its history final: every row changes its status at most once,
and every row there is at its start is the same at its end or has been closed.
-/
structure HistoryFinal (w : World) (s : Sys ι P) (es : List (Event ι P)) (s' : Sys ι P) :
    Prop where
  once : ∀ r, cost (Sys.step w) (statusChanges w r) s es ≤ 1
  kept : s.db.KeepsHistory s'.db

/-- Every process that is going to close a run row finds it open, and is the only one. -/
structure RunsOwned (s : Sys ι P) : Prop where
  isOpen : ∀ i r, (s.procs i).pc.openRun = some r →
    ∃ row, s.db.runs[r]? = some row ∧ row.status = .RUNNING
  unique : ∀ i j r, (s.procs i).pc.openRun = some r → (s.procs j).pc.openRun = some r → i = j

omit [DecidableEq ι] [DecidableEq P] in
theorem runsOwned_of_resting
    {s : Sys ι P} (h : s.Resting) :
    RunsOwned s := by
  have hnone : ∀ i, (s.procs i).pc.openRun = none := by
    intro i
    have hpc := (h i).1
    cases hcase : (s.procs i).pc with
    | dispatch p snap st todo =>
        rw [hcase] at hpc
        exact hpc.elim
    | _ =>
        rfl
  constructor <;> simp [hnone]

omit [DecidableEq P] in
/-- A step of process `i` that gives up its row, or keeps it, while the rows of the others
stay open. -/
theorem RunsOwned.update
    {s : Sys ι P} (h : RunsOwned s) {i : ι} {db : Db P} {pr : Proc P}
    (hown : pr.pc.openRun = none ∨ pr.pc.openRun = (s.procs i).pc.openRun)
    (hrows : ∀ j r row, (j = i → pr.pc.openRun = some r) → (s.procs j).pc.openRun = some r →
      s.db.runs[r]? = some row → row.status = .RUNNING → db.runs[r]? = some row) :
    RunsOwned ({ db := db, procs := Function.update s.procs i pr } : Sys ι P) := by
  have hback : ∀ j r, (Function.update s.procs i pr j).pc.openRun = some r →
      (s.procs j).pc.openRun = some r ∧ (j = i → pr.pc.openRun = some r) := by
    intro j r hj
    by_cases hji : j = i
    · subst hji
      rw [Function.update_self] at hj
      rcases hown with hnone | hsame
      · rw [hnone] at hj
        cases hj
      · exact ⟨hsame ▸ hj, fun _ => hj⟩
    · rw [Function.update_of_ne hji] at hj
      exact ⟨hj, fun heq => absurd heq hji⟩
  refine ⟨fun j r hj => ?_, fun j k r hj hk => ?_⟩
  · obtain ⟨hj', hpr⟩ := hback j r hj
    obtain ⟨row, hrow, hopen⟩ := h.isOpen j r hj'
    exact ⟨row, hrows j r row hpr hj' hrow hopen, hopen⟩
  · exact h.unique j k r (hback j r hj).1 (hback k r hk).1

omit [DecidableEq P] in
/-- A process that has none opens a new row. -/
theorem RunsOwned.opened
    {s : Sys ι P} (h : RunsOwned s) {i : ι} {db : Db P} {pr : Proc P} {new : EtlRun P}
    (hdb : db.runs = s.db.runs ++ [new]) (hnew : new.status = .RUNNING)
    (hpr : pr.pc.openRun = some s.db.runs.length) :
    RunsOwned ({ db := db, procs := Function.update s.procs i pr } : Sys ι P) := by
  have hlt : ∀ j r, (s.procs j).pc.openRun = some r → r < s.db.runs.length := by
    intro j r hj
    obtain ⟨row, hrow, -⟩ := h.isOpen j r hj
    exact (List.getElem?_eq_some_iff.mp hrow).1
  have hcases : ∀ j r, (Function.update s.procs i pr j).pc.openRun = some r →
      (j = i ∧ r = s.db.runs.length) ∨ (s.procs j).pc.openRun = some r := by
    intro j r hj
    by_cases hji : j = i
    · subst hji
      rw [Function.update_self, hpr] at hj
      exact Or.inl ⟨rfl, (Option.some.inj hj).symm⟩
    · rw [Function.update_of_ne hji] at hj
      exact Or.inr hj
  refine ⟨fun j r hj => ?_, fun j k r hj hk => ?_⟩
  · rcases hcases j r hj with ⟨-, rfl⟩ | hj'
    · exact ⟨new, by simp [hdb], hnew⟩
    · obtain ⟨row, hrow, hopen⟩ := h.isOpen j r hj'
      refine ⟨row, ?_, hopen⟩
      rw [hdb, List.getElem?_append_left (hlt j r hj')]
      exact hrow
  · rcases hcases j r hj with ⟨hji, hjr⟩ | hj' <;> rcases hcases k r hk with ⟨hki, hkr⟩ | hk'
    · rw [hji, hki]
    · exact absurd (hjr ▸ hlt k r hk') (lt_irrefl _)
    · exact absurd (hkr ▸ hlt j r hj') (lt_irrefl _)
    · exact h.unique j k r hj' hk'

/-- An event outside the processes leaves the run rows alone. -/
theorem step_runs_of_request
    {w : World} {s s' : Sys ι P} {e : Event ι P}
    (h : s.step w e = some s')
    (he : ∀ i c, e ≠ .runner i c) :
    s'.db.runs = s.db.runs ∧
      ∀ i, (s'.procs i).pc.openRun = none ∨ s'.procs i = s.procs i := by
  have hupdate : ∀ i pr, pr.pc.openRun = none → ∀ j,
      (Function.update s.procs i pr j).pc.openRun = none ∨
        Function.update s.procs i pr j = s.procs j := by
    intro i pr hpr
    exact (Function.forall_update_iff s.procs
      fun j pr => pr.pc.openRun = none ∨ pr = s.procs j).mpr
      ⟨Or.inl hpr, fun j _ => Or.inr rfl⟩
  cases e with
  | run p =>
      obtain rfl := Option.some.inj h
      refine ⟨?_, fun i => Or.inr rfl⟩
      change (s.db.run_pipeline p).runs = s.db.runs
      rw [Db.run_pipeline_eq]
      exact Db.runs_updateStatus _ _ s.db p
  | pause p =>
      obtain rfl := Option.some.inj h
      refine ⟨?_, fun i => Or.inr rfl⟩
      change (s.db.pause_pipeline p).runs = s.db.runs
      rw [Db.pause_pipeline_eq]
      exact Db.runs_updateStatus _ _ s.db p
  | kill i =>
      obtain rfl := Option.some.inj h
      exact ⟨rfl, hupdate i _ rfl⟩
  | spawn i =>
      obtain ⟨-, rfl⟩ := Sys.step_spawn_iff.mp h
      exact ⟨rfl, hupdate i _ rfl⟩
  | runner i c =>
      exact absurd rfl (he i c)
  | _ =>
      obtain rfl := Option.some.inj h
      exact ⟨rfl, fun i => Or.inr rfl⟩

/-- **One event** that spares the live runs keeps the history and its owners. -/
theorem RunsOwned.step
    {w : World} {s s' : Sys ι P} {e : Event ι P}
    (hs : RunsOwned s) (hspare : SparesLiveRuns s e) (h : s.step w e = some s') :
    s.db.KeepsHistory s'.db ∧ RunsOwned s' := by
  by_cases he : ∃ i c, e = .runner i c
  · obtain ⟨i, c, rfl⟩ := he
    obtain ⟨db, pr, hproc, rfl⟩ := Sys.step_runner_iff.mp h
    rcases procStep_runs hproc with heffect | ⟨hruns, hnone⟩
    · refine ⟨heffect.keepsHistory (hs.isOpen i), ?_⟩
      cases heffect with
      | same hruns hown =>
          exact hs.update hown (fun j r row _ _ hrow _ => hruns ▸ hrow)
      | opened new hruns hnew hown =>
          rcases hown with hnone | hlast
          · refine hs.update (Or.inl hnone) (fun j r row _ _ hrow _ => ?_)
            rw [hruns, List.getElem?_append_left (List.getElem?_eq_some_iff.mp hrow).1]
            exact hrow
          · exact hs.opened hruns hnew hlast
      | closed q f ho hruns _ hnone =>
          refine hs.update (Or.inl hnone) (fun j r row hji hj hrow _ => ?_)
          have hqr : q ≠ r := by
            rintro rfl
            have hpr := hji (hs.unique j i q hj ho)
            rw [hnone] at hpr
            cases hpr
          rw [hruns, List.getElem?_modify_ne _ _ hqr]
          exact hrow
    · refine ⟨keepsHistory_recovered hruns, ?_⟩
      refine hs.update (Or.inl hnone) (fun j r row _ hj hrow _ => ?_)
      refine getElem?_recovered hruns hrow (hspare j row ?_)
      rw [Sys.liveRun, hj]
      exact hrow
  · have hother : ∀ i c, e ≠ .runner i c := fun i c heq => he ⟨i, c, heq⟩
    obtain ⟨hruns, hprocs⟩ := step_runs_of_request h hother
    have hback : ∀ i r, (s'.procs i).pc.openRun = some r →
        (s.procs i).pc.openRun = some r := by
      intro i r hi
      rcases hprocs i with hnone | hsame
      · rw [hnone] at hi
        cases hi
      · exact hsame ▸ hi
    refine ⟨.of_runs_eq hruns, fun i r hi => ?_, fun i j r hi hj => ?_⟩
    · rw [hruns]
      exact hs.isOpen i r (hback i r hi)
    · exact hs.unique i j r (hback i r hi) (hback j r hj)

/-- What a row may still change: its status, once, unless it is closed. -/
def changesLeft (r : ℕ) (s : Sys ι P) : ℕ :=
  match s.db.runs[r]? with
  | some row => if row.status = .RUNNING then 1 else 0
  | none => 1

omit [DecidableEq ι] [DecidableEq P] in
theorem changesLeft_le_one
    (r : ℕ) (s : Sys ι P) :
    changesLeft r s ≤ 1 := by
  unfold changesLeft
  split
  · split_ifs <;> omega
  · exact le_rfl

/-- A change of the status is paid for by what was left. -/
theorem statusChanges_le
    {w : World} {s s' : Sys ι P} {e : Event ι P}
    (hkeeps : s.db.KeepsHistory s'.db) (h : s.step w e = some s') (r : ℕ) :
    statusChanges w r s e + changesLeft r s' ≤ changesLeft r s := by
  cases hrow : s.db.runs[r]? with
  | none =>
      simp only [statusChanges, changesLeft, hrow]
      exact (Nat.zero_add _).trans_le (changesLeft_le_one r s')
  | some row =>
      obtain ⟨row', hrow', rfl | ⟨hopen, hclosed⟩⟩ := hkeeps r row hrow
      · simp [statusChanges, changesLeft, hrow, hrow', h]
      · simp only [statusChanges, changesLeft, hrow, hrow', h, hopen, hclosed, if_true, if_false]
        split_ifs <;> omega

/--
**Run history is final** on every run in which no recovery commits over a row
that a live process is going to close: every row changes its status at most
once, from `RUNNING`, and is never written again.
-/
theorem run_history_final_of_spares_live_runs
    {w : World} {s s' : Sys ι P} {es : List (Event ι P)}
    (h : Reach (Sys.step w) Sys.Resting SparesLiveRuns s)
    (hpath : Path (Sys.step w) (fun s e _ => SparesLiveRuns s e) s es s') :
    HistoryFinal w s es s' := by
  have hs : RunsOwned s :=
    h.invariant (fun _ => runsOwned_of_resting) (fun _ _ _ ht hspare hstep =>
      (ht.step hspare hstep).2)
  have howned := hpath.with_invariant hs (fun _ _ _ ht hspare hstep => (ht.step hspare hstep).2)
  refine ⟨fun r => ?_, ?_⟩
  · have hpay : ∀ (t : Sys ι P) (e : Event ι P) (t' : Sys ι P),
        RunsOwned t ∧ SparesLiveRuns t e → t.step w e = some t' →
          statusChanges w r t e + changesLeft r t' ≤ changesLeft r t := by
      rintro t e t' ⟨ht, hspare⟩ hstep
      exact statusChanges_le (ht.step hspare hstep).1 hstep r
    exact (howned.cost_le hpay).trans (changesLeft_le_one r s)
  · refine howned.invariant (I := fun t => s.db.KeepsHistory t.db) (.of_runs_eq rfl) ?_
    rintro t e t' hkeeps ⟨ht, hspare⟩ hstep
    exact hkeeps.trans (ht.step hspare hstep).1

/-- Two runners that have not been started, in front of an empty film table. -/
def twoRunners : Sys (Fin 2) Unit :=
  Sys.off (Db.single (filmPipeline .full 2 .RUN_REQUESTED) [])

/-- The first runner has opened its run and dies; the second one recovers it. -/
theorem run_history_final_after_crash :
    ∃ (s s' : Sys (Fin 2) Unit) (es : List (Event (Fin 2) Unit)),
      (s'.db.runs.map EtlRun.status) = [.FAILED, .SUCCESS] ∧
      HistoryFinal World.plain s es s' := by
  have hrun : ∃ s : Sys (Fin 2) Unit,
      Reach (Sys.step World.plain) Sys.Resting SparesLiveRuns s ∧
      (exec (guarded (Sys.step World.plain) SparesLiveRuns) s
        ([.kill 0, .spawn 1] ++ List.replicate 12 (.runner 1 .ok))).any (fun t =>
          decide (t.db.runs.map EtlRun.status = [.FAILED, .SUCCESS])) = true :=
    Reach.exists_of_replay twoRunners (.spawn 0 :: List.replicate 5 (.runner 0 .ok))
      (fun _ => ⟨trivial, rfl⟩) (by decide +kernel)
  obtain ⟨s, hreach, hany⟩ := hrun
  obtain ⟨s', hexec, hend⟩ := (Option.any_eq_true _ _).mp hany
  exact ⟨s, s', _, of_decide_eq_true hend,
    run_history_final_of_spares_live_runs hreach (Path.of_exec_guarded hexec)⟩

/-- A runner that starts while another one is executing fails the row the other one then
closes as a success. -/
theorem failed_run_becomes_success :
    ¬ ∀ (s s' : Sys (Fin 2) Unit) (es : List (Event (Fin 2) Unit)),
        Reach (Sys.step World.plain) Sys.Resting (fun _ e => e.undisturbed ∨ e.starts) s →
        Path (Sys.step World.plain) (fun _ e _ => e.undisturbed ∨ e.starts) s es s' →
        HistoryFinal World.plain s es s' := by
  intro hall
  have hrun : ∃ s : Sys (Fin 2) Unit,
      Reach (Sys.step World.plain) Sys.Resting (fun _ e => e.undisturbed ∨ e.starts) s ∧
      s.db.runs.map EtlRun.status = [.FAILED] ∧
      (s.step World.plain (.runner 0 .ok)).any (fun t =>
        decide (t.db.runs.map EtlRun.status = [.SUCCESS])) = true :=
    Reach.exists_of_replay twoRunners
      (.spawn 0 :: List.replicate 9 (.runner 0 .ok) ++ [.spawn 1, .runner 1 .ok, .runner 1 .ok])
      (fun _ => ⟨trivial, rfl⟩) (by decide +kernel)
  obtain ⟨s, hreach, hfailed, hany⟩ := hrun
  obtain ⟨t, hstep, hsuccess⟩ := (Option.any_eq_true _ _).mp hany
  have hkept := (hall s t _ hreach (.cons hstep (Or.inl trivial) (.nil t))).kept
  obtain ⟨row, hrow⟩ : ∃ row, s.db.runs = [row] ∧ row.status = .FAILED := by
    obtain ⟨row, rest, hcons, hstatus, hnil⟩ := List.map_eq_cons_iff.mp hfailed
    obtain rfl := List.map_eq_nil_iff.mp hnil
    exact ⟨row, hcons, hstatus⟩
  have hsame := hkept.final (r := 0) (by rw [hrow.1]; rfl) (by rw [hrow.2]; decide)
  have hlast : (t.db.runs.map EtlRun.status)[0]? = some .FAILED := by
    rw [List.getElem?_map, hsame, Option.map_some, hrow.2]
  rw [of_decide_eq_true hsuccess] at hlast
  cases hlast

end RunHistory

end EtlPlatform
