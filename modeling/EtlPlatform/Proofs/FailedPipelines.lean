import EtlPlatform.Proofs.PipelineIsolation
import EtlPlatform.Proofs.StatusStatements

/-!
# A failed pipeline is out of service

No statement of the platform allows the status `FAILED`: neither a request nor a
recovery leads out of it.  Once no process is in the middle of a dispatch of the
pipeline, nothing is done for it any more.  What remains is the recovery of a
process that found it `RUNNING` before it failed, which may still close run
rows.
-/

namespace EtlPlatform

open Library

section Process

variable {P : Type} [DecidableEq P]

/-- The process is in the middle of a dispatch of `p`. -/
def Pc.worksOn (p : P) : Pc P → Prop
  | .dispatch q _ st _ => q = p ∧ ∀ res, st ≠ .returning res
  | _ => False

/-- A run row stays, or a recovery closes it. -/
def EtlRun.LeftOrRecovered (row row' : EtlRun Unit) : Prop :=
  row' = row ∨ row.status = .RUNNING ∧
    row' = { row with
      status := .FAILED
      error_message := some "recovered: runner crashed while RUNNING" }

theorem EtlRun.LeftOrRecovered.trans
    {row row' row'' : EtlRun Unit} (h : row.LeftOrRecovered row')
    (h' : row'.LeftOrRecovered row'') :
    row.LeftOrRecovered row'' := by
  rcases h with rfl | ⟨hrunning, rfl⟩
  · exact h'
  · rcases h' with rfl | ⟨hrunning', -⟩
    · exact Or.inr ⟨hrunning, rfl⟩
    · cases hrunning'

/-- The run rows of `p`, in order. -/
def Db.runsOf (p : P) (db : Db P) : List (EtlRun Unit) :=
  db.runs.filterMap (EtlRun.only p)

/-- Nothing is done for `p`. -/
structure Untouched (p : P) (db db' : Db P) : Prop where
  checkpoint : db'.store.etl_state p = db.store.etl_state p
  runs : List.Forall₂ EtlRun.LeftOrRecovered (db.runsOf p) (db'.runsOf p)

omit [DecidableEq P] in
theorem leftOrRecovered_refl
    (rows : List (EtlRun Unit)) :
    List.Forall₂ EtlRun.LeftOrRecovered rows rows :=
  List.forall₂_same.mpr fun _ _ => Or.inl rfl

theorem leftOrRecovered_trans
    {rows rows' rows'' : List (EtlRun Unit)}
    (h : List.Forall₂ EtlRun.LeftOrRecovered rows rows')
    (h' : List.Forall₂ EtlRun.LeftOrRecovered rows' rows'') :
    List.Forall₂ EtlRun.LeftOrRecovered rows rows'' := by
  induction h generalizing rows'' with
  | nil =>
      exact h'
  | cons hrow _ ih =>
      cases h' with
      | cons hrow' hrest' =>
          exact .cons (hrow.trans hrow') (ih hrest')

theorem Untouched.refl
    (p : P) (db : Db P) :
    Untouched p db db :=
  ⟨rfl, leftOrRecovered_refl _⟩

theorem Untouched.trans
    {p : P} {db db' db'' : Db P} (h : Untouched p db db') (h' : Untouched p db' db'') :
    Untouched p db db'' := by
  exact ⟨h'.checkpoint.trans h.checkpoint, leftOrRecovered_trans h.runs h'.runs⟩

/-- A change of the status or the configuration. -/
theorem Untouched.of_same
    {p : P} {db db' : Db P} (hruns : db'.runs = db.runs) (hstore : db'.store = db.store) :
    Untouched p db db' := by
  refine ⟨by rw [hstore], ?_⟩
  rw [Db.runsOf, Db.runsOf, hruns]
  exact leftOrRecovered_refl _

theorem Untouched.of_only
    {p : P} {db db' : Db P} {sink : Sink} (h : db'.only p sink = db.only p sink) :
    Untouched p db db' := by
  have hstate : (db'.only p sink).store.etl_state () = (db.only p sink).store.etl_state () := by
    rw [h]
  have hruns : (db'.only p sink).runs = (db.only p sink).runs := by
    rw [h]
  refine ⟨hstate, ?_⟩
  rw [show db'.runsOf p = db.runsOf p from hruns]
  exact leftOrRecovered_refl _

/-- A recovery that has listed `p` closes its open run rows. -/
theorem untouched_recovered
    (p : P) (db : Db P) (ids : List P) :
    Untouched p db ((db.recover_running_failed_bulk ids).mark_run_requested_bulk ids) := by
  by_cases hp : p ∈ ids
  · refine ⟨rfl, ?_⟩
    have hruns : ((db.recover_running_failed_bulk ids).mark_run_requested_bulk ids).runsOf p =
        ((db.only p fun _ => none).recover_running_failed_bulk (idsOnly p ids)).runs :=
      congrArg Db.runs (recovered_only hp (fun _ => none) db)
    rw [hruns]
    refine List.forall₂_map_right_iff.mpr (List.forall₂_same.mpr fun row _ => ?_)
    split_ifs with hopen
    · exact Or.inr ⟨hopen.2, rfl⟩
    · exact Or.inl rfl
  · exact .of_only (recovered_only_of_not_mem hp (fun _ => none) db)

/-- No statement allows a failed pipeline. -/
theorem afterStatement_failed
    (x : Option StatusStatement) :
    afterStatement x .FAILED = .FAILED := by
  cases x with
  | none =>
      rfl
  | some x =>
      cases x <;> decide

/-! ## One step -/

/-- A step of a process that is not in the middle of a dispatch of `p`, while `p` has failed. -/
theorem procStep_failed
    {w : World} {p : P} {db db' : Db P} {pr pr' : Proc P} {c : Choice}
    (h : procStep w db pr c = some (db', pr')) (hfailed : db.status p = .FAILED)
    (hidle : ¬ pr.pc.worksOn p) (hin : pr.InOrder db.runOwners) :
    ¬ pr'.pc.worksOn p ∧ Untouched p db db' ∧ ∀ x ∈ pr.sends c, x.1 ≠ p := by
  have htick : ∀ {todo : List (P × PipelineStatus)}, pr' = ⟨.polling, []⟩ ∨ pr' = ⟨.tick todo, []⟩ →
      ¬ pr'.pc.worksOn p := by
    rintro todo (rfl | rfl) <;> exact id
  cases procStep_effect h with
  | listed =>
      refine ⟨?_, .refl p db, by rintro x ⟨⟩⟩
      split_ifs <;> exact id
  | recovered hpc =>
      refine ⟨?_, untouched_recovered p db _, by rintro x ⟨⟩⟩
      rcases hpc with ⟨-, rfl⟩ | ⟨-, rfl⟩ <;> exact id
  | died hpc =>
      refine ⟨id, .refl p db, ?_⟩
      rcases hpc with rfl | ⟨ids, rfl⟩ <;> rintro x ⟨⟩
  | began hpc =>
      refine ⟨id, .refl p db, ?_⟩
      rcases hpc with rfl | rfl <;> rintro x ⟨⟩
  | waits hpc =>
      refine ⟨id, .refl p db, ?_⟩
      rcases hpc with rfl | rfl | rfl <;> rintro x ⟨⟩
  | skipped hpause hrun =>
      exact ⟨id, .refl p db, by rintro x ⟨⟩⟩
  | offered hdb hpr =>
      refine ⟨htick hpr, ?_, by rintro x ⟨⟩⟩
      rcases hdb with heq | heq <;> rw [heq]
      · exact .refl p db
      · exact .of_same (Db.runs_updateStatus _ _ db _) (Db.store_updateStatus _ _ db _)
  | unclaimed hdb hpr =>
      refine ⟨htick hpr, ?_, by rintro x ⟨⟩⟩
      rcases hdb with heq | heq <;> rw [heq]
      · exact .refl p db
      · exact .of_same (Db.runs_updateStatus _ _ db _) (Db.store_updateStatus _ _ db _)
  | @claimed q todo ws hreq =>
      refine ⟨?_, .of_same (Db.runs_updateStatus _ _ db _) (Db.store_updateStatus _ _ db _),
        by rintro x ⟨⟩⟩
      rintro ⟨rfl, -⟩
      rw [hfailed] at hreq
      cases hreq
  | returned hpr =>
      refine ⟨htick hpr, .refl p db, ?_⟩
      rintro x hx
      obtain ⟨item, hitem, -⟩ := List.mem_map.mp hx
      cases hitem
  | @stepped q snap st todo ws c a hst =>
      have hq : q ≠ p := by
        rintro rfl
        refine hidle ⟨rfl, ?_⟩
        rintro res rfl
        cases hst
      refine ⟨fun hworks => hq hworks.1, ?_, ?_⟩
      · exact .of_only (stageStep_only_of_ne hst hq hin.1 hin.2.1 (fun _ => none))
      · intro x hx
        obtain ⟨item, -, rfl⟩ := List.mem_map.mp hx
        exact hq

end Process

section Platform

variable {ι P : Type} [DecidableEq ι] [DecidableEq P]

/-- `p` has failed, and no process is in the middle of a dispatch of it. -/
structure Sys.OutOfService (p : P) (s : Sys ι P) : Prop where
  failed : s.db.status p = .FAILED
  idle : ∀ i, ¬ (s.procs i).pc.worksOn p

/-- A failed pipeline stays failed. -/
theorem step_failed
    {w : World} {p : P} {s s' : Sys ι P} {e : Event ι P} (h : s.step w e = some s')
    (hfailed : s.db.status p = .FAILED) :
    s'.db.status p = .FAILED := by
  rw [step_status h p, hfailed]
  exact afterStatement_failed _

/-- **One event** for a pipeline that is out of service. -/
theorem Sys.OutOfService.step
    {w : World} {p : P} {s s' : Sys ι P} {e : Event ι P} (hout : s.OutOfService p)
    (h : s.step w e = some s') (hin : s.InOrder) :
    s'.OutOfService p ∧ Untouched p s.db s'.db ∧ ∀ x ∈ deliver [] s e, x.1 ≠ p := by
  have hfailed := step_failed h hout.failed
  have hupdate : ∀ i pr, ¬ pr.pc.worksOn p →
      ∀ j, ¬ (Function.update s.procs i pr j).pc.worksOn p := by
    intro i pr hpr
    exact (Function.forall_update_iff s.procs fun _ pr => ¬ pr.pc.worksOn p).mpr
      ⟨hpr, fun j _ => hout.idle j⟩
  cases e with
  | run q =>
      obtain rfl := Option.some.inj h
      refine ⟨⟨hfailed, hout.idle⟩, .of_same ?_ (Db.store_run_pipeline s.db q), by rintro x ⟨⟩⟩
      change (s.db.run_pipeline q).runs = s.db.runs
      rw [Db.run_pipeline_eq]
      exact Db.runs_updateStatus _ _ s.db q
  | pause q =>
      obtain rfl := Option.some.inj h
      refine ⟨⟨hfailed, hout.idle⟩, .of_same ?_ (Db.store_pause_pipeline s.db q), by rintro x ⟨⟩⟩
      change (s.db.pause_pipeline q).runs = s.db.runs
      rw [Db.pause_pipeline_eq]
      exact Db.runs_updateStatus _ _ s.db q
  | patch q row =>
      obtain rfl := Option.some.inj h
      exact ⟨⟨hfailed, hout.idle⟩, .of_same rfl rfl, by rintro x ⟨⟩⟩
  | source src =>
      obtain rfl := Option.some.inj h
      exact ⟨⟨hfailed, hout.idle⟩, ⟨rfl, leftOrRecovered_refl _⟩, by rintro x ⟨⟩⟩
  | kill i =>
      obtain rfl := Option.some.inj h
      exact ⟨⟨hfailed, hupdate i _ id⟩, .refl p _, by rintro x ⟨⟩⟩
  | spawn i =>
      obtain ⟨-, rfl⟩ := Sys.step_spawn_iff.mp h
      exact ⟨⟨hfailed, hupdate i _ id⟩, .refl p _, by rintro x ⟨⟩⟩
  | runner i c =>
      obtain ⟨db, pr, hproc, rfl⟩ := Sys.step_runner_iff.mp h
      obtain ⟨hidle, huntouched, hsends⟩ :=
        procStep_failed hproc hout.failed (hout.idle i) (hin.held i)
      exact ⟨⟨hfailed, hupdate i pr hidle⟩, huntouched, hsends⟩

/-! ## Where a pipeline fails -/

omit [DecidableEq ι] [DecidableEq P] in
theorem afterStatement_eq_failed
    {x : Option StatusStatement} {st : PipelineStatus} (h : afterStatement x st = .FAILED) :
    st = .FAILED ∨ x = some .fail_if_active := by
  cases x with
  | none =>
      exact Or.inl h
  | some x =>
      cases x with
      | fail_if_active =>
          exact Or.inr rfl
      | _ =>
          left
          revert h
          cases st <;> decide

/-- Where `fail_if_active` is executed. -/
theorem statement_eq_fail
    {p : P} {pc : Pc P} (h : pc.statement p = some .fail_if_active) :
    ∃ snap exc todo, pc = .dispatch p snap (.failIfActive exc) todo := by
  cases pc with
  | recovering ids =>
      simp only [Pc.statement] at h
      split_ifs at h
      cases h
  | tick todo =>
      rcases todo with _ | ⟨⟨q, st⟩, todo⟩
      · cases h
      · cases st <;> simp only [Pc.statement] at h
        all_goals try split_ifs at h
        all_goals cases h
  | dispatch q snap st todo =>
      simp only [Pc.statement] at h
      split_ifs at h with hq
      subst hq
      cases st with
      | failIfActive exc =>
          exact ⟨snap, exc, todo, rfl⟩
      | loop k r bl pc =>
          cases pc <;> cases h
      | _ =>
          cases h
  | _ =>
      cases h

/-- The statement that fails a pipeline is the last of its dispatch. -/
theorem procStep_fails
    {w : World} {p : P} {db db' : Db P} {pr pr' : Proc P} {c : Choice}
    (h : procStep w db pr c = some (db', pr'))
    (hstatement : pr.pc.statement p = some .fail_if_active) :
    ¬ pr'.pc.worksOn p := by
  obtain ⟨pc, ws⟩ := pr
  obtain ⟨snap, exc, todo, rfl⟩ := statement_eq_fail hstatement
  rcases procStep_dispatch h with ⟨res, hres, -⟩ | ⟨a, hst, -, rfl⟩
  · cases hres
  · have hreturns : ∃ res, a.stage = .returning res := by
      simp only [stageStep, answerUpdate] at hst
      split_ifs at hst <;>
        rcases answer_cases hst with ⟨-, rfl⟩ | ⟨exc', -, rfl⟩ | ⟨-, rfl⟩ <;>
        exact ⟨_, rfl⟩
    obtain ⟨res, hres⟩ := hreturns
    exact fun hworks => hworks.2 res hres

/-- With one runner process, no process works on a pipeline that has failed. -/
theorem step_idle_of_failed
    {w : World} {p : P} {s s' : Sys ι P} {e : Event ι P} (hone : ∀ i j : ι, i = j)
    (h : s.step w e = some s') (hin : s.InOrder)
    (hidle : s.db.status p = .FAILED → ∀ i, ¬ (s.procs i).pc.worksOn p)
    (hfailed : s'.db.status p = .FAILED) (i : ι) :
    ¬ (s'.procs i).pc.worksOn p := by
  have hstatus := step_status h p
  rw [hfailed] at hstatus
  rcases afterStatement_eq_failed hstatus.symm with hbefore | hstatement
  · exact (Sys.OutOfService.step ⟨hbefore, hidle hbefore⟩ h hin).1.idle i
  · cases e with
    | runner j c =>
        obtain ⟨db, pr, hproc, rfl⟩ := Sys.step_runner_iff.mp h
        simp only [Sys.statement] at hstatement
        split_ifs at hstatement
        obtain rfl := hone i j
        simpa using procStep_fails hproc hstatement
    | run q =>
        simp only [Sys.statement] at hstatement
        split_ifs at hstatement
        cases hstatement
    | pause q =>
        simp only [Sys.statement] at hstatement
        split_ifs at hstatement
        cases hstatement
    | _ =>
        cases hstatement

/-- By induction on the run. -/
theorem idle_of_failed
    {w : World} {p : P} {s s' : Sys ι P} {es : List (Event ι P)} (hone : ∀ i j : ι, i = j)
    (hrun : exec (Sys.step w) s es = some s') (hin : s.InOrder)
    (hidle : s.db.status p = .FAILED → ∀ i, ¬ (s.procs i).pc.worksOn p)
    (hfailed : s'.db.status p = .FAILED) (i : ι) :
    ¬ (s'.procs i).pc.worksOn p := by
  induction es generalizing s with
  | nil =>
      obtain rfl := Option.some.inj hrun
      exact hidle hfailed i
  | cons e es ih =>
      obtain ⟨t, ht, hrest⟩ := Option.bind_eq_some_iff.mp hrun
      exact ih hrest (inOrder_step ht hin) (step_idle_of_failed hone ht hin hidle)

/-! ## A whole run -/

theorem exec_inOrder
    {w : World} {s s' : Sys ι P} {es : List (Event ι P)}
    (hrun : exec (Sys.step w) s es = some s') (hin : s.InOrder) :
    s'.InOrder := by
  induction es generalizing s with
  | nil =>
      obtain rfl := Option.some.inj hrun
      exact hin
  | cons e es ih =>
      obtain ⟨t, ht, hrest⟩ := Option.bind_eq_some_iff.mp hrun
      exact ih hrest (inOrder_step ht hin)

/-- What the dispatches deliver in a run, each item with its pipeline. -/
def deliveries (w : World) (s : Sys ι P) (es : List (Event ι P)) : List (P × Item) :=
  trace (Sys.step w) (fun s e _ => deliver [] s e) s es

/-- By induction on the run. -/
theorem Sys.OutOfService.run
    {w : World} {p : P} {s s' : Sys ι P} {es : List (Event ι P)} (hout : s.OutOfService p)
    (hrun : exec (Sys.step w) s es = some s') (hin : s.InOrder) :
    s'.OutOfService p ∧ Untouched p s.db s'.db ∧ (∀ x ∈ deliveries w s es, x.1 ≠ p) ∧
      s'.db.store.sink = applyItems s.db.store.sink ((deliveries w s es).map Prod.snd) := by
  induction es generalizing s with
  | nil =>
      obtain rfl := Option.some.inj hrun
      exact ⟨hout, .refl p _, by rintro x ⟨⟩, rfl⟩
  | cons e es ih =>
      obtain ⟨t, ht, hrest⟩ := Option.bind_eq_some_iff.mp hrun
      obtain ⟨hout', huntouched, hothers⟩ := hout.step ht hin
      obtain ⟨hend, hrest', hothers', hsink'⟩ := ih hout' hrest (inOrder_step ht hin)
      have hsink : t.db.store.sink = applyItems s.db.store.sink ((deliver [] s e).map Prod.snd) :=
        step_sink ht hin.clean rfl
      rw [deliveries, trace_cons es ht]
      refine ⟨hend, huntouched.trans hrest', fun x hx => ?_, ?_⟩
      · exact (List.mem_append.mp hx).elim (hothers x) (hothers' x)
      · rw [List.map_append, applyItems_append, ← hsink]
        exact hsink'

/-- **A failed pipeline is out of service.**  Take any state a run of the platform has reached in
which the pipeline has failed, with one runner process, or with no process in the middle of a
dispatch of it.  Whatever happens then, it stays failed, nothing works on it, its checkpoint stays,
no run is opened for it and none closed except by a recovery, and nothing is delivered for it: all
that reaches the sink is delivered for others. -/
theorem failed_pipeline_is_out_of_service
    {w : World} {p : P} {s₀ s s' : Sys ι P} {es₀ es : List (Event ι P)} (hrest : s₀.Resting)
    (hreach : exec (Sys.step w) s₀ es₀ = some s) (hfailed : s.db.status p = .FAILED)
    (hidle : (∀ i j : ι, i = j) ∨ ∀ i, ¬ (s.procs i).pc.worksOn p)
    (hrun : exec (Sys.step w) s es = some s') :
    s'.OutOfService p ∧ Untouched p s.db s'.db ∧ (∀ x ∈ deliveries w s es, x.1 ≠ p) ∧
      s'.db.store.sink = applyItems s.db.store.sink ((deliveries w s es).map Prod.snd) := by
  have hin := exec_inOrder hreach (inOrder_of_resting hrest)
  have hout : s.OutOfService p := by
    refine ⟨hfailed, fun i => ?_⟩
    rcases hidle with hone | hidle
    · refine idle_of_failed hone hreach (inOrder_of_resting hrest) (fun _ j hworks => ?_) hfailed i
      have hpc := (hrest j).1
      cases hcase : (s₀.procs j).pc with
      | dispatch q snap st todo =>
          rw [hcase] at hpc
          exact hpc
      | _ =>
          rw [hcase] at hworks
          exact hworks
    · exact hidle i
  exact hout.run hrun hin

/-- A runner that has claimed the film pipeline and cannot open a run, three times. -/
def threeFailedAttempts : List (Event Unit Unit) :=
  let refused : Event Unit Unit := .runner () (.raise (statementError "InternalError" "refused"))
  [.runner () .ok, .runner () .ok, .runner () .ok, refused, .runner () .ok, refused,
    .runner () .ok, refused, .runner () .ok]

/-- Then it is asked to run, and the runner goes on. -/
def askedAgain : List (Event Unit Unit) :=
  .run () :: List.replicate 6 (.runner () .ok) ++ [.pause ()] ++ List.replicate 6 (.runner () .ok)

theorem failed_pipeline_is_out_of_service_asked_again :
    ∃ s s' : Sys Unit Unit,
      exec (Sys.step World.plain) (Sys.polling (Db.single
        (filmPipeline .full 2 .RUN_REQUESTED) twoFilms)) threeFailedAttempts = some s ∧
      s.db.status () = .FAILED ∧ exec (Sys.step World.plain) s askedAgain = some s' ∧
      s'.OutOfService () ∧ s'.db.store.sink = s.db.store.sink := by
  have hrun : (exec (Sys.step World.plain) (Sys.polling (Db.single
      (filmPipeline .full 2 .RUN_REQUESTED) twoFilms) : Sys Unit Unit) threeFailedAttempts).any
        (fun s => decide (s.db.status () = .FAILED) &&
          (exec (Sys.step World.plain) s askedAgain).isSome) = true := by
    decide +kernel
  obtain ⟨s, hreach, hs⟩ := (Option.any_eq_true _ _).mp hrun
  obtain ⟨hfailed, hgoes⟩ := Bool.and_eq_true_iff.mp hs
  obtain ⟨s', hexec⟩ := Option.isSome_iff_exists.mp hgoes
  obtain ⟨hout, -, hnone, hsink⟩ := failed_pipeline_is_out_of_service (Sys.resting_polling _)
    hreach (of_decide_eq_true hfailed) (Or.inl fun _ _ => rfl) hexec
  refine ⟨s, s', hreach, of_decide_eq_true hfailed, hexec, hout, ?_⟩
  rw [hsink, List.eq_nil_iff_forall_not_mem.mpr fun x hx => hnone x hx rfl]
  rfl

end Platform

end EtlPlatform
