import EtlPlatform.Model.Deployment
import EtlPlatform.Proofs.Configuration

/-!
# Claims and the enabled flag

A tick lists the enabled pipelines with a request and then dispatches them one
after the other.  The claim that starts a dispatch looks at the status only, so
what it knows about the flag is what the list knew.

Claims find the flag set on every run on which no listed pipeline is disabled.
-/

namespace EtlPlatform

open Library

/-! ## What a claim is -/

section Claims

variable {P : Type}

/-- The candidates a process has listed and not dispatched. -/
def Pc.todo : Pc P → List (P × PipelineStatus)
  | .tick todo => todo
  | .dispatch _ _ _ todo => todo
  | _ => []

/-- The pipeline whose `claim_run_requested` the process commits with this answer. -/
def Pc.claims (c : Choice) : Pc P → Option P
  | .tick ((p, .RUN_REQUESTED) :: _) => if c = .ok ∨ c = .lost then some p else none
  | _ => none

/-- The pipeline an event moves from `RUN_REQUESTED` to `RUNNING`. -/
def Sys.claimed {ι : Type} (s : Sys ι P) : Event ι P → Option P
  | .runner i c => ((s.procs i).pc.claims c).filter (fun p => s.db.status p = .RUN_REQUESTED)
  | _ => none

theorem mem_todo_of_claims
    {pc : Pc P} {c : Choice} {p : P} (h : pc.claims c = some p) :
    (p, PipelineStatus.RUN_REQUESTED) ∈ pc.todo := by
  cases pc with
  | tick todo =>
      rcases todo with _ | ⟨⟨q, st⟩, todo⟩
      · cases h
      · cases st with
        | RUN_REQUESTED =>
            simp only [Pc.claims, Option.ite_none_right_eq_some, Option.some.injEq] at h
            obtain ⟨-, rfl⟩ := h
            exact List.mem_cons_self
        | _ =>
            cases h
  | _ =>
      cases h

variable [DecidableEq P]

/-- The claim of the first candidate, if it changes anything. -/
theorem dispatchClaim_claims
    {db db' : Db P} {q : P} {todo : List (P × PipelineStatus)} {c : Choice} {pr' : Proc P}
    (h : dispatchClaim db q todo c = some (db', pr')) (hne : db' ≠ db) :
    (Pc.tick ((q, .RUN_REQUESTED) :: todo)).claims c = some q := by
  cases c with
  | ok =>
      simp [Pc.claims]
  | lost =>
      simp [Pc.claims]
  | raise exc =>
      obtain ⟨rfl, -⟩ := Prod.mk.inj (Option.some.inj h)
      exact absurd rfl hne
  | partialBulk applied exc =>
      cases h

/-- A dispatch never makes its pipeline `RUNNING`. -/
theorem stageStep_running
    {w : World} {db : Db P} {ws : List (Write P)} {q p : P} {snap : PipelineSnapshot}
    {st : Stage P} {c : Choice} {a : After P}
    (h : stageStep w (db, ws) q snap st c = some a) (hnew : a.db.status p = .RUNNING) :
    db.status p = .RUNNING := by
  obtain ⟨hother, hmoves⟩ := stageStep_moves h
  by_cases hq : p = q
  · subst hq
    rcases hmoves.status_cases with h | ⟨-, -, h⟩ | ⟨_, -, -, h⟩ | ⟨-, -, h⟩
    · exact h ▸ hnew
    all_goals
      rw [hnew] at h
      cases h
  · exact hother p hq ▸ hnew

/-- **Only a claim makes a pipeline `RUNNING`.** -/
theorem procStep_running
    {w : World} {db db' : Db P} {pr pr' : Proc P} {c : Choice} {p : P}
    (h : procStep w db pr c = some (db', pr')) (hnew : db'.status p = .RUNNING)
    (hold : db.status p ≠ .RUNNING) :
    pr.pc.claims c = some p ∧ db.status p = .RUN_REQUESTED := by
  have hne : db' ≠ db := by
    rintro rfl
    exact hold hnew
  cases procStep_effect h with
  | recovered _ =>
      rw [Db.status_mark_run_requested_bulk, Db.status_recover_running_failed_bulk] at hnew
      split_ifs at hnew
      exact absurd hnew hold
  | offered hdb _ =>
      obtain rfl := hdb.resolve_left hne
      rw [Db.apply_pause_requested, Db.status_updateStatus] at hnew
      split_ifs at hnew
      exact absurd hnew hold
  | unclaimed hdb _ =>
      obtain rfl := hdb.resolve_left hne
      rw [status_claim_run_requested] at hnew
      split_ifs at hnew with hq
      · obtain ⟨rfl, hreq⟩ := hq
        exact ⟨dispatchClaim_claims h hne, hreq⟩
      · exact absurd hnew hold
  | claimed hreq =>
      rw [status_claim_run_requested] at hnew
      split_ifs at hnew with hq
      · obtain ⟨rfl, -⟩ := hq
        exact ⟨dispatchClaim_claims h hne, hreq⟩
      · exact absurd hnew hold
  | stepped hst =>
      exact absurd (stageStep_running hst hnew) hold
  | _ =>
      exact absurd rfl hne

variable {ι : Type} [DecidableEq ι]

/-- A pipeline is `RUNNING` after an event because it was, or because the event claims it. -/
theorem running_of_step
    {w : World} {s s' : Sys ι P} {e : Event ι P} {p : P}
    (h : s.step w e = some s') (hnew : s'.db.status p = .RUNNING) :
    s.db.status p = .RUNNING ∨ s.claimed e = some p := by
  by_cases hold : s.db.status p = .RUNNING
  · exact Or.inl hold
  · cases e with
    | run q =>
        obtain rfl := Option.some.inj h
        simp only [Db.run_pipeline_eq, Db.request_run, Db.status_updateStatus] at hnew
        split_ifs at hnew
        exact absurd hnew hold
    | pause q =>
        obtain rfl := Option.some.inj h
        simp only [Db.pause_pipeline_eq, Db.request_pause, Db.status_updateStatus] at hnew
        split_ifs at hnew
        exact absurd hnew hold
    | patch q row =>
        obtain rfl := Option.some.inj h
        exact Or.inl (by simpa using hnew)
    | source src =>
        obtain rfl := Option.some.inj h
        exact Or.inl hnew
    | kill i =>
        obtain rfl := Option.some.inj h
        exact Or.inl hnew
    | spawn i =>
        obtain ⟨-, rfl⟩ := Sys.step_spawn_iff.mp h
        exact Or.inl hnew
    | runner i c =>
        obtain ⟨db, pr, hproc, rfl⟩ := Sys.step_runner_iff.mp h
        obtain ⟨hclaims, hreq⟩ := procStep_running hproc hnew hold
        exact Or.inr (by simp [Sys.claimed, hclaims, hreq])

end Claims

/-! ## The enabled flag -/

section Enabled

variable {ι P : Type} [DecidableEq ι] [DecidableEq P]

/-- The stored flag of a pipeline. -/
def Db.enabled (db : Db P) (p : P) : Bool :=
  (db.pipelines p).enabled

/-- A process has listed the pipeline for a claim. -/
def Sys.Lists (s : Sys ι P) (p : P) : Prop :=
  ∃ i, (p, PipelineStatus.RUN_REQUESTED) ∈ (s.procs i).pc.todo

/-- No `PATCH` disables a pipeline that a process has listed for a claim. -/
def KeepsListedEnabled (s : Sys ι P) : Event ι P → Prop
  | .patch p row => row.enabled = false → ¬ s.Lists p
  | _ => True

/-- Whenever the event moves a pipeline from `RUN_REQUESTED` to `RUNNING`, it is enabled. -/
def ClaimsEnabled (s : Sys ι P) (s' : Sys ι P) : Prop :=
  ∀ p, s.db.status p = .RUN_REQUESTED → s'.db.status p = .RUNNING → s.db.enabled p = true

omit [DecidableEq P] in
theorem SameConfig.enabled_eq
    {db db' : Db P} (h : SameConfig db db') (p : P) :
    db'.enabled p = db.enabled p :=
  congrArg PipelineSnapshot.enabled (h.2 p)

omit [DecidableEq P] in
theorem enabled_of_mem_get_active
    {db : Db P} {p : P} {st : PipelineStatus} (h : (p, st) ∈ db.get_active) :
    db.enabled p = true := by
  simp only [Db.get_active, List.mem_map, List.mem_insertionSort, List.mem_filter,
    Bool.and_eq_true, Prod.mk.injEq] at h
  obtain ⟨q, ⟨-, henabled, -⟩, rfl, -⟩ := h
  exact henabled

omit [DecidableEq P] in
theorem todo_of_tick
    {pr : Proc P} {todo : List (P × PipelineStatus)}
    (h : pr = ⟨.polling, []⟩ ∨ pr = ⟨.tick todo, []⟩) {x : P × PipelineStatus}
    (hx : x ∈ pr.pc.todo) :
    x ∈ todo := by
  rcases h with rfl | rfl
  · cases hx
  · exact hx

/-- What a process has listed after a step, it had listed before or has just read. -/
theorem procStep_todo
    {w : World} {db db' : Db P} {pr pr' : Proc P} {c : Choice} {x : P × PipelineStatus}
    (h : procStep w db pr c = some (db', pr')) (hx : x ∈ pr'.pc.todo) :
    x ∈ pr.pc.todo ∨ x ∈ db.get_active := by
  cases procStep_effect h with
  | listed =>
      split_ifs at hx <;> cases hx
  | recovered hpc =>
      rcases hpc with ⟨-, rfl⟩ | ⟨-, rfl⟩ <;> cases hx
  | died _ =>
      cases hx
  | began _ =>
      exact Or.inr hx
  | waits _ =>
      cases hx
  | skipped _ _ =>
      exact Or.inl (List.mem_cons_of_mem _ hx)
  | offered _ hpr =>
      exact Or.inl (List.mem_cons_of_mem _ (todo_of_tick hpr hx))
  | unclaimed _ hpr =>
      exact Or.inl (List.mem_cons_of_mem _ (todo_of_tick hpr hx))
  | claimed _ =>
      exact Or.inl (List.mem_cons_of_mem _ hx)
  | returned hpr =>
      exact Or.inl (todo_of_tick hpr hx)
  | stepped _ =>
      exact Or.inl hx

/-- Listed pipelines are enabled. -/
def ListedEnabled (s : Sys ι P) : Prop :=
  ∀ p, s.Lists p → s.db.enabled p = true

omit [DecidableEq ι] [DecidableEq P] in
theorem listedEnabled_of_resting
    {s : Sys ι P} (h : s.Resting) :
    ListedEnabled s := by
  rintro p ⟨i, hmem⟩
  have hrest := (h i).1
  cases hpc : (s.procs i).pc with
  | tick todo =>
      rw [hpc] at hrest
      exact hrest.elim
  | dispatch q snap st todo =>
      rw [hpc] at hrest
      exact hrest.elim
  | _ =>
      rw [hpc] at hmem
      cases hmem

omit [DecidableEq P] in
/-- A process without candidates lists nothing new. -/
theorem ListedEnabled.setProc
    {s : Sys ι P} (h : ListedEnabled s) (i : ι) {pr : Proc P} (hpr : pr.pc.todo = []) :
    ListedEnabled (s.setProc i pr) := by
  rintro p ⟨j, hmem⟩
  by_cases hj : j = i
  · subst hj
    simp [Sys.setProc, hpr] at hmem
  · refine h p ⟨j, ?_⟩
    simpa [Sys.setProc, hj] using hmem

/-- **One event** that disables no listed pipeline keeps the listed ones enabled. -/
theorem ListedEnabled.step
    {w : World} {s s' : Sys ι P} {e : Event ι P}
    (hs : ListedEnabled s) (hallow : KeepsListedEnabled s e) (h : s.step w e = some s') :
    ListedEnabled s' := by
  cases e with
  | run q =>
      have hconfig := step_sameConfig h (by simp)
      obtain rfl := Option.some.inj h
      exact fun p hlists => (hconfig.enabled_eq p).trans (hs p hlists)
  | pause q =>
      have hconfig := step_sameConfig h (by simp)
      obtain rfl := Option.some.inj h
      exact fun p hlists => (hconfig.enabled_eq p).trans (hs p hlists)
  | patch q row =>
      obtain rfl := Option.some.inj h
      rintro p hlists
      by_cases hq : p = q
      · subst hq
        have henabled : row.enabled = true := by
          by_contra hoff
          exact hallow (by simpa using hoff) hlists
        simpa [Db.enabled, Db.patchConfig, Db.setPipeline] using henabled
      · have hold : s.db.enabled p = true := hs p hlists
        simpa [Db.enabled, Db.patchConfig, Db.setPipeline, hq] using hold
  | source src =>
      obtain rfl := Option.some.inj h
      exact hs
  | kill i =>
      obtain rfl := Option.some.inj h
      exact hs.setProc i rfl
  | spawn i =>
      obtain ⟨-, rfl⟩ := Sys.step_spawn_iff.mp h
      exact hs.setProc i rfl
  | runner i c =>
      obtain ⟨db, pr, hproc, rfl⟩ := Sys.step_runner_iff.mp h
      have hconfig := procStep_sameConfig hproc
      rintro p ⟨j, hmem⟩
      refine (hconfig.enabled_eq p).trans ?_
      by_cases hj : j = i
      · subst hj
        have hmem' : (p, PipelineStatus.RUN_REQUESTED) ∈ pr.pc.todo := by simpa using hmem
        rcases procStep_todo hproc hmem' with hbefore | hread
        · exact hs p ⟨j, hbefore⟩
        · exact enabled_of_mem_get_active hread
      · exact hs p ⟨j, by simpa [hj] using hmem⟩

/-- **Only enabled pipelines are claimed** on a run on which no `PATCH` disables a pipeline
between the query that lists it and its dispatch. -/
theorem claims_enabled_of_kept
    {w : World} {s s' : Sys ι P} {e : Event ι P}
    (hreach : Reach (Sys.step w) Sys.Resting KeepsListedEnabled s)
    (h : s.step w e = some s') :
    ClaimsEnabled s s' := by
  have hlisted : ListedEnabled s :=
    hreach.invariant (fun _ => listedEnabled_of_resting) (fun _ _ _ hs ha hst => hs.step ha hst)
  intro p hreq hrun
  rcases running_of_step h hrun with hbefore | hclaimed
  · rw [hreq] at hbefore
    cases hbefore
  · cases e with
    | runner i c =>
        simp only [Sys.claimed, Option.filter_eq_some_iff] at hclaimed
        exact hlisted p ⟨i, mem_todo_of_claims hclaimed.1⟩
    | _ =>
        cases hclaimed

/-! ## One runner and one pipeline -/

instance (n : ℕ) (s : Sys (Fin n) P) (p : P) : Decidable (s.Lists p) :=
  inferInstanceAs (Decidable (∃ i, (p, PipelineStatus.RUN_REQUESTED) ∈ (s.procs i).pc.todo))

instance (n : ℕ) (s : Sys (Fin n) P) : DecidablePred (KeepsListedEnabled s)
  | .patch p row => inferInstanceAs (Decidable (row.enabled = false → ¬ s.Lists p))
  | .run _ | .pause _ | .source _ | .kill _ | .spawn _ | .runner _ _ => .isTrue trivial

/-- The film pipeline as an update that disables it stores it. -/
def filmDisabled : EtlPipeline :=
  { filmPipeline .full 2 .IDLE with enabled := false }

/-- Disabled, enabled again, requested and claimed. -/
theorem claims_enabled_after_reenabling :
    ∃ s s' : Sys (Fin 1) Unit,
      s.db.status () = .RUN_REQUESTED ∧ s'.db.status () = .RUNNING ∧ ClaimsEnabled s s' := by
  have hrun : ∃ s : Sys (Fin 1) Unit,
      Reach (Sys.step World.plain) Sys.Resting KeepsListedEnabled s ∧
      s.db.status () = .RUN_REQUESTED ∧
      (s.step World.plain (.runner 0 .ok)).any (fun t =>
        decide (t.db.status () = .RUNNING)) = true :=
    Reach.exists_of_replay (Sys.polling (Db.single (filmPipeline .full 2 .IDLE) []))
      [.patch () filmDisabled, .run (), .runner 0 .ok, .runner 0 .ok,
        .patch () (filmPipeline .full 2 .IDLE), .runner 0 .ok]
      (Sys.resting_polling _) (by decide +kernel)
  obtain ⟨s, hreach, hreq, hany⟩ := hrun
  obtain ⟨s', hstep, hrunning⟩ := (Option.any_eq_true _ _).mp hany
  exact ⟨s, s', hreq, of_decide_eq_true hrunning, claims_enabled_of_kept hreach hstep⟩

/-- An update disables the pipeline after the tick has listed it, and the tick claims it. -/
theorem disabled_pipeline_claimed :
    ¬ ∀ (s s' : Sys (Fin 1) Unit) (e : Event (Fin 1) Unit),
        Reach (Sys.step World.plain) Sys.Resting (fun _ _ => True) s →
        s.step World.plain e = some s' →
        ClaimsEnabled s s' := by
  intro hall
  have hrun : ∃ s : Sys (Fin 1) Unit,
      Reach (Sys.step World.plain) Sys.Resting (fun _ _ => True) s ∧
      (s.db.status () = .RUN_REQUESTED ∧ s.db.enabled () = false) ∧
      (s.step World.plain (.runner 0 .ok)).any (fun t =>
        decide (t.db.status () = .RUNNING)) = true :=
    Reach.exists_of_replay (Sys.polling (Db.single (filmPipeline .full 2 .IDLE) []))
      [.run (), .runner 0 .ok, .patch () filmDisabled]
      (Sys.resting_polling _) (by decide +kernel)
  obtain ⟨s, hreach, ⟨hreq, hoff⟩, hany⟩ := hrun
  obtain ⟨s', hstep, hrunning⟩ := (Option.any_eq_true _ _).mp hany
  have hon := hall s s' _ hreach hstep () hreq (of_decide_eq_true hrunning)
  rw [hoff] at hon
  cases hon

end Enabled

end EtlPlatform
