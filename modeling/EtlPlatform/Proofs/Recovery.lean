import EtlPlatform.Model.Deployment
import EtlPlatform.Proofs.StatusView

/-!
# What the startup recovery finds

The recovery lists the pipelines with status `RUNNING` and closes the run rows
of those.  A run row is opened and closed by the executor, the status is moved
by the API as well: a pause request takes a pipeline out of `RUNNING` while its
run row stays open, and a crash at that moment leaves a row the recovery does
not look for.

The recovery leaves nothing behind exactly when every open run row belongs to a
`RUNNING` pipeline at the moment it lists them.
-/

namespace EtlPlatform

open Library

section Recovery

variable {P : Type} [DecidableEq P]

/-- The startup recovery is over and the first tick has not begun. -/
def Pc.isStarted : Pc P → Bool
  | .started => true
  | _ => false

/-- The process is about to list the stuck pipelines. -/
def Pc.isListing : Pc P → Bool
  | .recovery => true
  | _ => false

namespace Db

/-- No run row and no pipeline is `RUNNING`. -/
def NothingRunning (db : Db P) : Prop :=
  (∀ r ∈ db.runs, r.status ≠ .RUNNING) ∧ ∀ p, db.status p ≠ .RUNNING

/-- Every open run row belongs to a pipeline that is `RUNNING`. -/
def RunsBelong (db : Db P) : Prop :=
  ∀ r ∈ db.runs, r.status = .RUNNING → db.status r.pipeline_id = .RUNNING

/-- Everything that is `RUNNING` is listed. -/
def Listed (db : Db P) (ids : List P) : Prop :=
  (∀ r ∈ db.runs, r.status = .RUNNING → r.pipeline_id ∈ ids) ∧
    ∀ p, db.status p = .RUNNING → p ∈ ids

instance (db : Db P) : Decidable db.RunsBelong :=
  inferInstanceAs (Decidable (∀ _ ∈ _, _))

omit [DecidableEq P] in
theorem nothingRunning_iff_listed_nil
    (db : Db P) :
    db.NothingRunning ↔ db.Listed [] := by
  constructor
  · rintro ⟨hruns, hpipes⟩
    exact ⟨fun r hr h => absurd h (hruns r hr), fun p h => absurd h (hpipes p)⟩
  · rintro ⟨hruns, hpipes⟩
    exact ⟨fun r hr h => absurd (hruns r hr h) (by simp), fun p h => absurd (hpipes p h) (by simp)⟩

omit [DecidableEq P] in
/-- The list is complete exactly when every open run row belongs to a running pipeline. -/
theorem listed_stuck_iff
    (db : Db P) :
    db.Listed db.list_stuck_running_ids ↔ db.RunsBelong := by
  constructor
  · rintro ⟨hruns, -⟩ r hr h
    exact (db.mem_list_stuck_running_ids _).mp (hruns r hr h)
  · intro h
    exact ⟨fun r hr hrun => (db.mem_list_stuck_running_ids _).mpr (h r hr hrun),
      fun p hp => (db.mem_list_stuck_running_ids p).mpr hp⟩

/-- The recovery transaction closes exactly what it was given. -/
theorem nothingRunning_recovered_iff
    (db : Db P) (ids : List P) :
    ((db.recover_running_failed_bulk ids).mark_run_requested_bulk ids).NothingRunning ↔
      db.Listed ids := by
  have hpipes : (∀ p, ((db.recover_running_failed_bulk ids).mark_run_requested_bulk
      ids).status p ≠ .RUNNING) ↔ ∀ p, db.status p = .RUNNING → p ∈ ids := by
    refine forall_congr' (fun p => ?_)
    rw [status_mark_run_requested_bulk, status_recover_running_failed_bulk]
    by_cases hp : p ∈ ids
    · by_cases hs : db.status p = .RUNNING <;> simp [hp, hs]
    · simp [hp]
  have hruns : (∀ r ∈ ((db.recover_running_failed_bulk ids).mark_run_requested_bulk ids).runs,
      r.status ≠ .RUNNING) ↔ ∀ r ∈ db.runs, r.status = .RUNNING → r.pipeline_id ∈ ids := by
    simp only [mark_run_requested_bulk, recover_running_failed_bulk, List.forall_mem_map]
    refine forall₂_congr (fun r _ => ?_)
    by_cases hr : r.pipeline_id ∈ ids
    · by_cases hs : r.status = .RUNNING <;> simp [hr, hs]
    · simp [hr]
  exact and_congr hruns hpipes

/-- A request of the API opens no run and makes no pipeline `RUNNING`. -/
theorem Listed.updateStatus
    {db : Db P} {ids : List P} (h : db.Listed ids)
    {allowed : List PipelineStatus} {new : PipelineStatus} (hnew : new ≠ .RUNNING) (q : P) :
    (db.updateStatus allowed new q).Listed ids := by
  refine ⟨by simpa using h.1, fun p hp => h.2 p ?_⟩
  rw [status_updateStatus] at hp
  split_ifs at hp
  · exact absurd hp hnew
  · exact hp

theorem Listed.patchConfig
    {db : Db P} {ids : List P} (h : db.Listed ids) (q : P) (row : EtlPipeline) :
    (db.patchConfig q row).Listed ids :=
  ⟨h.1, fun p hp => h.2 p (by simpa using hp)⟩

end Db

/-- What the single process knows during its recovery. -/
def RecoveryKnows (s : Sys Unit P) : Prop :=
  match (s.procs ()).pc with
  | .recovering ids => s.db.Listed ids
  | .started => s.db.NothingRunning
  | _ => True

omit [DecidableEq P] in
theorem outside_of_tick
    {pr : Proc P} {todo : List (P × PipelineStatus)}
    (h : pr = ⟨.polling, []⟩ ∨ pr = ⟨.tick todo, []⟩) :
    pr.pc.isStarted = false ∧ ∀ ids, pr.pc ≠ .recovering ids := by
  rcases h with rfl | rfl <;> exact ⟨rfl, by simp⟩

/-- Outside the recovery, a step ends outside it. -/
theorem procStep_recovery
    {w : World} {db db' : Db P} {pr pr' : Proc P} {c : Choice}
    (h : procStep w db pr c = some (db', pr')) :
    (pr.pc.isListing = true ∧ c = .ok ∧ db' = db ∧
        pr'.pc = if db.list_stuck_running_ids = [] then .started
          else .recovering db.list_stuck_running_ids) ∨
      (∃ ids, pr.pc = .recovering ids ∧ pr'.pc = .started ∧
        db' = (db.recover_running_failed_bulk ids).mark_run_requested_bulk ids) ∨
      (pr'.pc.isStarted = false ∧ ∀ ids, pr'.pc ≠ .recovering ids) := by
  cases procStep_effect h with
  | listed =>
      exact Or.inl ⟨rfl, rfl, rfl, rfl⟩
  | @recovered ids ws c pc hpc =>
      rcases hpc with ⟨-, rfl⟩ | ⟨-, rfl⟩
      · exact Or.inr (Or.inl ⟨ids, rfl, rfl, rfl⟩)
      · exact Or.inr (Or.inr ⟨rfl, by simp⟩)
  | offered _ hpr =>
      exact Or.inr (Or.inr (outside_of_tick hpr))
  | unclaimed _ hpr =>
      exact Or.inr (Or.inr (outside_of_tick hpr))
  | returned hpr =>
      exact Or.inr (Or.inr (outside_of_tick hpr))
  | _ =>
      exact Or.inr (Or.inr ⟨rfl, by simp⟩)

omit [DecidableEq P] in
/-- A change of the database that lists no less keeps what the process knows. -/
theorem recoveryKnows_of_db
    {s s' : Sys Unit P}
    (hs : RecoveryKnows s) (hprocs : s'.procs = s.procs)
    (hdb : ∀ ids, s.db.Listed ids → s'.db.Listed ids) :
    RecoveryKnows s' := by
  unfold RecoveryKnows at hs ⊢
  rw [hprocs]
  cases hpc : (s.procs ()).pc with
  | recovering ids =>
      rw [hpc] at hs
      exact hdb ids hs
  | started =>
      rw [hpc] at hs
      exact (Db.nothingRunning_iff_listed_nil _).mpr
        (hdb [] ((Db.nothingRunning_iff_listed_nil _).mp hs))
  | _ =>
      trivial

/-- The recovery invariant survives every event, if the list is complete when it is made. -/
theorem recoveryKnows_step
    {w : World} {s s' : Sys Unit P} {e : Event Unit P}
    (hs : RecoveryKnows s)
    (hlist : (s.procs ()).pc.isListing = true → e = .runner () .ok → s.db.RunsBelong)
    (hstep : s.step w e = some s') :
    RecoveryKnows s' := by
  cases e with
  | runner i c =>
      obtain ⟨db, pr, hproc, rfl⟩ := Sys.step_runner_iff.mp hstep
      simp only [RecoveryKnows, Function.update_self]
      rcases procStep_recovery hproc with ⟨hpc, rfl, rfl, hpr⟩ | ⟨ids, hpc, hpr, rfl⟩ | ⟨hstarted, hrec⟩
      · have hlisted := (Db.listed_stuck_iff s.db).mpr (hlist hpc rfl)
        rw [hpr]
        by_cases hnil : s.db.list_stuck_running_ids = []
        · rw [if_pos hnil]
          exact (Db.nothingRunning_iff_listed_nil s.db).mpr (hnil ▸ hlisted)
        · rw [if_neg hnil]
          exact hlisted
      · rw [hpr]
        refine (Db.nothingRunning_recovered_iff s.db ids).mpr ?_
        simpa only [RecoveryKnows, hpc] using hs
      · cases hpr : pr.pc <;> simp_all [Pc.isStarted]
  | kill i =>
      obtain rfl := Option.some.inj hstep
      simp [RecoveryKnows, Sys.setProc]
  | spawn i =>
      obtain ⟨-, rfl⟩ := Sys.step_spawn_iff.mp hstep
      simp [RecoveryKnows, Sys.setProc]
  | run q =>
      obtain rfl := Option.some.inj hstep
      exact recoveryKnows_of_db hs rfl (fun ids h => by
        rw [Db.run_pipeline_eq]
        exact h.updateStatus (by simp) q)
  | pause q =>
      obtain rfl := Option.some.inj hstep
      exact recoveryKnows_of_db hs rfl (fun ids h => by
        rw [Db.pause_pipeline_eq]
        exact h.updateStatus (by simp) q)
  | patch q row =>
      obtain rfl := Option.some.inj hstep
      exact recoveryKnows_of_db hs rfl (fun ids h => h.patchConfig q row)
  | source src =>
      obtain rfl := Option.some.inj hstep
      exact recoveryKnows_of_db hs rfl (fun ids h => h)

/-- The event lists stuck pipelines only when every open run row belongs to one. -/
def ListsAllRuns (s : Sys Unit P) : Event Unit P → Prop
  | .runner i _ => (s.procs i).pc.isListing = true → s.db.RunsBelong
  | _ => True

instance (s : Sys Unit P) : DecidablePred (ListsAllRuns s)
  | .runner i _ => inferInstanceAs
      (Decidable ((s.procs i).pc.isListing = true → s.db.RunsBelong))
  | .run _ | .pause _ | .patch _ _ | .source _ | .kill _ | .spawn _ => .isTrue trivial

/-- **Recovery leaves nothing behind**, on every run in which open run rows belong to
`RUNNING` pipelines whenever the recovery lists them. -/
theorem recovery_leaves_nothing_running
    {w : World} {s : Sys Unit P}
    (h : Reach (Sys.step w) (fun s => (s.procs ()).pc.isStarted = false ∧ s.Resting)
      ListsAllRuns s)
    (hstarted : (s.procs ()).pc.isStarted = true) :
    s.db.NothingRunning := by
  have hknows : RecoveryKnows s := by
    refine h.invariant (I := RecoveryKnows) ?_ ?_
    · rintro s ⟨hstart, hrest⟩
      have hresting := (hrest ()).1
      unfold RecoveryKnows
      cases hpc : (s.procs ()).pc <;> simp_all [Pc.isStarted, Pc.resting]
    · intro s e s' hs hallow hstep
      refine recoveryKnows_step hs ?_ hstep
      rintro hpc rfl
      exact hallow hpc
  unfold RecoveryKnows at hknows
  cases hpc : (s.procs ()).pc <;> simp_all [Pc.isStarted]

/-- The condition is exact: a recovery that no request interrupts ends with nothing
`RUNNING` if and only if every open run row belonged to a `RUNNING` pipeline. -/
theorem recovery_exact
    (w : World) {s : Sys Unit P}
    (hpc : (s.procs ()).pc = .recovery) :
    ∃ es s', exec (Sys.step w) s es = some s' ∧ (s'.procs ()).pc.isStarted = true ∧
      (s'.db.NothingRunning ↔ s.db.RunsBelong) := by
  have hlist : s.step w (.runner () .ok) = some (s.setProc ()
      ⟨if s.db.list_stuck_running_ids = [] then .started
        else .recovering s.db.list_stuck_running_ids, []⟩) := by
    simp [Sys.step, procStep, hpc, Sys.setProc]
  by_cases hnil : s.db.list_stuck_running_ids = []
  · rw [if_pos hnil] at hlist
    refine ⟨[.runner () .ok], s.setProc () ⟨.started, []⟩, by simp [exec, hlist], ?_, ?_⟩
    · simp [Sys.setProc, Pc.isStarted]
    · rw [Sys.setProc_db, Db.nothingRunning_iff_listed_nil, ← hnil]
      exact Db.listed_stuck_iff s.db
  · rw [if_neg hnil] at hlist
    set ids := s.db.list_stuck_running_ids with hids
    set t := s.setProc () ⟨.recovering ids, []⟩ with ht
    set recovered := (s.db.recover_running_failed_bulk ids).mark_run_requested_bulk ids
      with hrecovered
    have hrecover : t.step w (.runner () .ok) =
        some { t.setProc () ⟨.started, []⟩ with db := recovered } := by
      simp [ht, hrecovered, Sys.step, procStep, Sys.setProc]
    refine ⟨[.runner () .ok, .runner () .ok],
      { t.setProc () ⟨.started, []⟩ with db := recovered }, ?_, ?_, ?_⟩
    · simp only [exec, hlist, hrecover, Option.bind_some]
    · simp [Sys.setProc, Pc.isStarted]
    · exact (Db.nothingRunning_recovered_iff _ _).trans (hids ▸ Db.listed_stuck_iff s.db)

/-- A crash during an undisturbed run is recovered completely. -/
theorem recovery_after_crash :
    ∃ s : Sys Unit Unit, (s.procs ()).pc.isStarted = true ∧ s.db.runs.length = 1 ∧
      s.db.NothingRunning := by
  have hrun : ∃ s : Sys Unit Unit,
      Reach (Sys.step World.plain) (fun s => (s.procs ()).pc.isStarted = false ∧ s.Resting)
        ListsAllRuns s ∧
      (s.procs ()).pc.isStarted = true ∧ s.db.runs.length = 1 :=
    Reach.exists_of_replay (Sys.off (Db.single (filmPipeline .full 2 .RUN_REQUESTED) []))
      ([.spawn ()] ++ List.replicate 5 (.runner () .ok) ++ [.kill (), .spawn ()] ++
        List.replicate 2 (.runner () .ok))
      ⟨rfl, fun _ => ⟨trivial, rfl⟩⟩ (by decide)
  obtain ⟨s, hreach, hstarted, hlen⟩ := hrun
  exact ⟨s, hstarted, hlen, recovery_leaves_nothing_running hreach hstarted⟩

/-- A pause request before the crash hides the open run row from the recovery. -/
theorem run_left_open_after_pause_and_crash :
    ¬ ∀ s : Sys Unit Unit,
        Reach (Sys.step World.plain)
          (fun s => (s.procs ()).pc.isStarted = false ∧ s.Resting ∧ s.db.NothingRunning)
          (fun _ e => ¬ e.reconfigures) s →
        (s.procs ()).pc.isStarted = true → s.db.NothingRunning := by
  intro hall
  have hrun : ∃ s : Sys Unit Unit,
      Reach (Sys.step World.plain)
        (fun s => (s.procs ()).pc.isStarted = false ∧ s.Resting ∧ s.db.NothingRunning)
        (fun _ e => ¬ e.reconfigures) s ∧
      (s.procs ()).pc.isStarted = true ∧ (s.db.runs.any (fun r => r.status = .RUNNING)) = true :=
    Reach.exists_of_replay (Sys.off (Db.single (filmPipeline .full 2 .RUN_REQUESTED) []))
      ([.spawn ()] ++ List.replicate 5 (.runner () .ok) ++ [.pause (), .kill (), .spawn ()] ++
        [.runner () .ok])
      ⟨rfl, fun _ => ⟨trivial, rfl⟩, by simp [Sys.off, Db.single], fun _ h => by cases h⟩
      (by decide)
  obtain ⟨s, hreach, hstarted, hany⟩ := hrun
  obtain ⟨r, hr, hopen⟩ := List.any_eq_true.mp hany
  exact (hall s hreach hstarted).1 r hr (of_decide_eq_true hopen)

end Recovery

end EtlPlatform
