import EtlPlatform.Proofs.ExactRuns

/-!
# Rounds of an incremental loop

A run of either incremental runner decodes the stored checkpoint and goes round
a loop.  `Round` says what a round has done that was not the last, `Rounds`
what several of them have, one after the other over a source that stays as it
is.  A loop that is given as much fuel as there are rounds has done exactly
these, and what it does with more fuel it does from there on.
-/

namespace EtlPlatform
namespace Sequential

open Library

/-! ## One round -/

section Round

variable {P : Type} [DecidableEq P]

omit [DecidableEq P] in
/-- What a row has that a cursor was taken from. -/
theorem tailCursor_eq_ok_inv
    {inc_key id_key : String} {left : List Row} {c : Cursor}
    (h : tailCursor inc_key id_key left = .ok c) :
    ∃ tail t id, left.getLast? = some tail ∧ tail.get? inc_key = some (.datetime t) ∧
      tail.get? id_key = some id ∧ c = { last_ts := t, last_id := id.str } := by
  rw [tailCursor] at h
  cases hlast : left.getLast? with
  | none =>
      rw [hlast] at h
      cases h
  | some tail =>
      cases hts : tail.get? inc_key with
      | none =>
          simp only [hlast, hts] at h
          cases h
      | some ts =>
          cases hid : tail.get? id_key with
          | none =>
              simp only [hlast, hts, hid] at h
              cases ts <;> cases h
          | some id =>
              simp only [hlast, hts, hid] at h
              cases ts with
              | datetime t =>
                  exact ⟨tail, t, id, rfl, hts, hid, (Except.ok.inj h).symm⟩
              | _ =>
                  cases h

/-- A round that has read `rows` and is not the last of its loop. -/
structure Round (w : World) (source : Source) (p : P) (plan : IncrementalPlan)
    (v : LoopVars) (s : Session P) (rows : List Row) (v' : LoopVars) (s' : Session P) : Prop where
  fetched : incrementalBatch w.collation source plan.base plan.inc_key plan.id_key v.cursor
    plan.limit = .ok rows
  nonempty : rows ≠ []
  delivered : ∃ res items c,
    plan.transform rows = .ok res ∧
      (plan.loop w p).itemsOf res.rows = .ok items ∧
      tailCursor plan.inc_key plan.id_key res.left = .ok c ∧
      v' = { v with
        cursor := some c
        total_read := v.total_read + rows.length
        total_written := v.total_written + items.length } ∧
      s' = ((s.queried (batchQuery plan v.cursor) (.ok rows)).written plan.writer items).checkpointed
        p c

variable {w : World} {source : Source} {p : P} {plan : IncrementalPlan}
variable {v v' u : LoopVars} {s s' : Session P} {rows : List Row}

/-- **A loop goes on after a round exactly if the round has done all its statements.** -/
theorem planRound_eq_some_iff :
    planRound w source p plan v s = .ok (some v') s' ↔
      ∃ rows, Round w source p plan v s rows v' s' := by
  rw [planRound_eq]
  constructor
  · intro h
    cases hquery : incrementalBatch w.collation source plan.base plan.inc_key plan.id_key
        v.cursor plan.limit with
    | error exc =>
        rw [hquery] at h
        cases h
    | ok rows =>
        by_cases hnil : rows = []
        · simp only [hquery, hnil, if_true] at h
          cases h
        · simp only [hquery, hnil, if_false] at h
          cases hres : plan.transform rows with
          | error exc =>
              simp only [hres] at h
              cases h
          | ok res =>
              cases hitems : (plan.loop w p).itemsOf res.rows with
              | error exc =>
                  simp only [hres, hitems] at h
                  cases h
              | ok items =>
                  cases htail : tailCursor plan.inc_key plan.id_key res.left with
                  | error exc =>
                      simp only [hres, hitems, htail] at h
                      cases h
                  | ok c =>
                      simp only [hres, hitems, htail] at h
                      injection h with hv hs
                      exact ⟨rows, hquery, hnil, res, items, c, hres, hitems, htail,
                        (Option.some.inj hv).symm, hs.symm⟩
  · rintro ⟨rows, hquery, hnil, res, items, c, hres, hitems, htail, rfl, rfl⟩
    simp only [hquery, hnil, if_false, hres, hitems, htail]

/-- A round leaves its cursor as the stored checkpoint. -/
theorem Round.stored
    (h : Round w source p plan v s rows v' s') :
    ∃ c, v'.cursor = some c ∧ s'.store.etl_state p = some (encodeState c) := by
  obtain ⟨-, -, res, items, c, -, -, -, rfl, rfl⟩ := h
  exact ⟨c, rfl, checkpointed_etl_state _ _ _⟩

/-- The batch of a round is what it adds to the batches read. -/
theorem Round.read
    (h : Round w source p plan v s rows v' s') :
    batchesRead s'.seen = batchesRead s.seen ++ [rows] := by
  obtain ⟨-, -, res, items, c, -, -, -, -, rfl⟩ := h
  simp [Session.checkpointed, Session.queried, batchesRead]

/-- The totals decide nothing. -/
theorem Round.congr
    (h : Round w source p plan v s rows v' s') (hcursor : u.cursor = v.cursor) :
    ∃ u', Round w source p plan u s rows u' s' ∧ u'.cursor = v'.cursor := by
  obtain ⟨hquery, hnil, res, items, c, hres, hitems, htail, rfl, rfl⟩ := h
  exact ⟨_, ⟨hcursor ▸ hquery, hnil, res, items, c, hres, hitems, htail, rfl, by rw [hcursor]⟩,
    rfl⟩

end Round

/-! ## Rounds one after the other -/

section Rounds

variable {P : Type} [DecidableEq P]

/-- Rounds that have read these batches. -/
inductive Rounds (w : World) (source : Source) (p : P) (plan : IncrementalPlan) :
    LoopVars → Session P → List (List Row) → LoopVars → Session P → Prop
  | start (v : LoopVars) (s : Session P) : Rounds w source p plan v s [] v s
  | next {v v₁ v' : LoopVars} {s s₁ s' : Session P} {rows : List Row}
      {batches : List (List Row)} :
      Round w source p plan v s rows v₁ s₁ →
      Rounds w source p plan v₁ s₁ batches v' s' →
      Rounds w source p plan v s (rows :: batches) v' s'

variable {w : World} {source : Source} {p : P} {plan : IncrementalPlan}
variable {v v' u : LoopVars} {s s' : Session P} {batches batches' : List (List Row)}

/-- Rounds can be looked at in two parts. -/
theorem Rounds.split
    (h : Rounds w source p plan v s (batches ++ batches') v' s') :
    ∃ v₁ s₁, Rounds w source p plan v s batches v₁ s₁ ∧
      Rounds w source p plan v₁ s₁ batches' v' s' := by
  induction batches generalizing v s with
  | nil =>
      exact ⟨v, s, .start v s, h⟩
  | cons rows batches ih =>
      cases h with
      | next hround hrest =>
          obtain ⟨v₁, s₁, hfirst, hsecond⟩ := ih hrest
          exact ⟨v₁, s₁, .next hround hfirst, hsecond⟩

theorem Rounds.read
    (h : Rounds w source p plan v s batches v' s') :
    batchesRead s'.seen = batchesRead s.seen ++ batches := by
  induction h with
  | start =>
      exact (List.append_nil _).symm
  | next hround _ ih =>
      rw [ih, hround.read, List.append_assoc, List.singleton_append]

theorem Rounds.congr
    (h : Rounds w source p plan v s batches v' s') (hcursor : u.cursor = v.cursor) :
    ∃ u', Rounds w source p plan u s batches u' s' ∧ u'.cursor = v'.cursor := by
  induction h generalizing u with
  | start v s =>
      exact ⟨u, .start u s, hcursor⟩
  | next hround _ ih =>
      obtain ⟨u₁, hround', hcursor₁⟩ := hround.congr hcursor
      obtain ⟨u', hrounds, hcursor'⟩ := ih hcursor₁
      exact ⟨u', .next hround' hrounds, hcursor'⟩

/-- What the last of several rounds has done. -/
theorem Rounds.last
    (h : Rounds w source p plan v s batches v' s') (hne : batches ≠ []) :
    ∃ u t, Round w source p plan u t (batches.getLast hne) v' s' := by
  induction h with
  | start =>
      exact absurd rfl hne
  | next hround hrest ih =>
      rename_i rows batches
      by_cases hnil : batches = []
      · subst hnil
        cases hrest
        exact ⟨_, _, hround⟩
      · rw [List.getLast_cons hnil]
        exact ih hnil

/-! ### The loop -/

variable (env : Surroundings) (batch_no : ℕ)

/-- A loop that is not paused goes on behind its rounds. -/
theorem planLoop_of_rounds
    (h : Rounds w source p plan v s batches v' s') (hsource : ∀ i, env.source i = source)
    (hstatus : ∀ i, i < batches.length → env.status (batch_no + i) ≠ .PAUSE_REQUESTED)
    (fuel : ℕ) :
    planLoop w env p plan (batches.length + fuel) batch_no v s =
      planLoop w env p plan fuel (batch_no + batches.length) v' s' := by
  induction h generalizing batch_no with
  | start =>
      simp only [List.length_nil, zero_add, add_zero]
  | next hround _ ih =>
      rename_i rows batches _
      have hstart : env.status batch_no ≠ .PAUSE_REQUESTED :=
        hstatus 0 (Nat.succ_pos _)
      have hrest : ∀ i, i < batches.length →
          env.status (batch_no + 1 + i) ≠ .PAUSE_REQUESTED := by
        intro i hi
        have hnext := hstatus (i + 1) (Nat.succ_lt_succ hi)
        rwa [Nat.add_right_comm, Nat.add_assoc]
      have hstep := planRound_eq_some_iff.mpr ⟨_, hround⟩
      rw [List.length_cons, Nat.add_right_comm, planLoop, bind_apply, hsource, hstep]
      simp only [hstart, if_false]
      rw [ih _ hrest, Nat.add_assoc, Nat.add_comm 1]

/-- A loop with as much fuel as it has rounds before it ends has done these rounds. -/
theorem rounds_of_planLoop
    {fuel : ℕ} (hsource : ∀ i, env.source i = source)
    (h : planLoop w env p plan fuel batch_no v s = .ok none s') :
    ∃ batches v', batches.length = fuel ∧ Rounds w source p plan v s batches v' s' := by
  induction fuel generalizing batch_no v s with
  | zero =>
      obtain ⟨-, rfl⟩ : (none : Option (ℕ × ℕ)) = none ∧ s = s' := by
        simpa [planLoop] using h
      exact ⟨[], v, rfl, .start v s⟩
  | succ fuel ih =>
      rw [planLoop, bind_apply, hsource] at h
      cases hround : planRound w source p plan v s with
      | error exc s₁ =>
          rw [hround] at h
          cases h
      | ok answer s₁ =>
          rw [hround] at h
          cases answer with
          | none =>
              cases h
          | some v₁ =>
              dsimp only at h
              split_ifs at h
              · cases h
              · obtain ⟨rows, hdone⟩ := planRound_eq_some_iff.mp hround
                obtain ⟨batches, v', hlen, hrest⟩ := ih _ h
                exact ⟨rows :: batches, v', by rw [List.length_cons, hlen], .next hdone hrest⟩

end Rounds

/-! ## What a run comes to -/

section Outcomes

variable {P : Type}

/-- Whether a run ended by itself, or the exception it raised, and the session it leaves; the
totals it returns count from where it was started. -/
def outcome : EStateM.Result Exc (Session P) (Option (ℕ × ℕ)) → Except Exc Bool × Session P
  | .ok totals s => (.ok totals.isSome, s)
  | .error exc s => (.error exc, s)

/-- What a loop looks at in the answer of a round. -/
def cursorOnly : EStateM.Result Exc (Session P) (Option LoopVars) →
    EStateM.Result Exc (Session P) (Option (Option Cursor))
  | .ok answer s => .ok (answer.map LoopVars.cursor) s
  | .error exc s => .error exc s

variable [DecidableEq P]

/-- A round does not look at the totals. -/
theorem planRound_congr
    (w : World) (source : Source) (p : P) (plan : IncrementalPlan) {v u : LoopVars}
    (hcursor : u.cursor = v.cursor) (s : Session P) :
    cursorOnly (planRound w source p plan u s) = cursorOnly (planRound w source p plan v s) := by
  rw [planRound_eq, planRound_eq, hcursor]
  cases incrementalBatch w.collation source plan.base plan.inc_key plan.id_key v.cursor
      plan.limit with
  | error exc =>
      rfl
  | ok rows =>
      dsimp only
      by_cases hnil : rows = []
      · simp only [hnil, if_true]
      · simp only [hnil, if_false]
        cases plan.transform rows with
        | error exc =>
            rfl
        | ok res =>
            dsimp only
            cases (plan.loop w p).itemsOf res.rows with
            | error exc =>
                rfl
            | ok items =>
                dsimp only
                cases tailCursor plan.inc_key plan.id_key res.left <;> rfl

/-- A source that stays as it is, and nobody who asks for a pause. -/
def steady (source : Source) : Surroundings where
  source := fun _ => source
  status := fun _ => .RUNNING

/-- **What a loop comes to depends on its cursor**, not on its totals or on how often it has
gone round. -/
theorem planLoop_outcome
    {w : World} {source : Source} {p : P} {plan : IncrementalPlan} {v u : LoopVars}
    (hcursor : u.cursor = v.cursor) (fuel batch_no batch_no' : ℕ) (s : Session P) :
    outcome (planLoop w (steady source) p plan fuel batch_no u s) =
      outcome (planLoop w (steady source) p plan fuel batch_no' v s) := by
  induction fuel generalizing batch_no batch_no' u v s with
  | zero =>
      rfl
  | succ fuel ih =>
      rw [planLoop, planLoop, bind_apply, bind_apply]
      have hround := planRound_congr w source p plan hcursor s
      simp only [steady] at *
      cases hu : planRound w source p plan u s with
      | error exc s₁ =>
          cases hv : planRound w source p plan v s with
          | error exc' s₂ =>
              rw [hu, hv] at hround
              obtain ⟨rfl, rfl⟩ : exc = exc' ∧ s₁ = s₂ := by
                simpa [cursorOnly] using hround
              rfl
          | ok answer s₂ =>
              rw [hu, hv] at hround
              cases hround
      | ok answer s₁ =>
          cases hv : planRound w source p plan v s with
          | error exc s₂ =>
              rw [hu, hv] at hround
              cases hround
          | ok answer' s₂ =>
              rw [hu, hv] at hround
              obtain ⟨hanswer, rfl⟩ :
                  answer.map LoopVars.cursor = answer'.map LoopVars.cursor ∧ s₁ = s₂ := by
                simpa [cursorOnly] using hround
              cases answer with
              | none =>
                  obtain rfl : answer' = none := by
                    simpa using hanswer.symm
                  rfl
              | some u₁ =>
                  obtain ⟨v₁, rfl, hnext⟩ := Option.map_eq_some_iff.mp hanswer.symm
                  exact ih hnext.symm _ _ _

end Outcomes

/-! ## Both runners -/

section Runners

variable {P : Type} [DecidableEq P]

/-- The two incremental runners. -/
inductive Runner where
  | sql
  | tasks

/-- The run of a runner. -/
def Runner.run (w : World) (p : P) (pl : PipelineSnapshot) :
    Runner → Surroundings → ℕ → RunnerM P (Option (ℕ × ℕ))
  | .sql, env, fuel => run_sql_incremental_pipeline w env p pl fuel
  | .tasks, env, fuel => run_tasks_incremental w env p pl fuel

/-- What a runner makes of the rows of a batch before it writes them. -/
def Runner.transform (w : World) (pl : PipelineSnapshot) :
    Runner → List Row → Except Exc Transformed
  | .sql, rows => do
      let transformer ← resolve_transformer pl
      transformer.transform w.modules rows
  | .tasks, rows => do
      let py_fns ← loadTransforms w pl
      return applyTransforms py_fns rows

/-- The run decodes the stored checkpoint and goes round the loop of the plan. -/
def FollowsPlan (w : World) (p : P) (plan : IncrementalPlan)
    (run : Surroundings → ℕ → RunnerM P (Option (ℕ × ℕ))) : Prop :=
  ∀ env fuel s, run env fuel s =
    match decodeState (s.store.etl_state p) with
    | .error exc => .error exc s
    | .ok c => planLoop w env p plan fuel 1 (LoopVars.initial c) s

/-- The run stops at a check and touches nothing. -/
def Stops (run : Surroundings → ℕ → RunnerM P (Option (ℕ × ℕ))) : Prop :=
  ∃ exc, ∀ env fuel s, run env fuel s = .error exc s

omit [DecidableEq P] in
theorem ofExcept_bind
    {α β : Type} (x : Except Exc α) (f : α → Except Exc β) :
    (ofExcept (x >>= f) : RunnerM P β) = ofExcept x >>= fun a => ofExcept (f a) := by
  cases x <;> rfl

omit [DecidableEq P] in
/-- The stored checkpoint is read and decoded. -/
theorem decode_then
    {α : Type} (p : P) (f : Option Cursor → RunnerM P α) (s : Session P) :
    (do let last ← ofExcept (decodeState ((← get).store.etl_state p)); f last) s =
      match decodeState (s.store.etl_state p) with
      | .error exc => .error exc s
      | .ok c => f c s := by
  rw [bind_apply, get_apply]
  dsimp only
  rw [bind_apply]
  cases decodeState (s.store.etl_state p) <;> rfl

/-- The checks `run_sql_incremental_pipeline` makes before it reads anything. -/
def sqlChecks (pl : PipelineSnapshot) : Except Exc (String × String × Transformer) := do
  if pl.mode ≠ .incremental then
    throw (valueError "Unsupported pipeline.mode: full")
  if !PyText.truthy pl.source_query then
    throw (valueError "Pipeline has empty source_query")
  if !PyText.truthy pl.incremental_key then
    throw (valueError "Incremental pipeline requires incremental_key")
  let inc_key ← validate_sql_ident (pl.incremental_key.getD "") "incremental_key"
  let id_key ← validate_sql_ident (targetOr pl.incremental_id_key "film_id") "incremental_id_key"
  let transformer ← resolve_transformer pl
  return (inc_key, id_key, transformer)

theorem run_sql_eq_checks
    (w : World) (env : Surroundings) (p : P) (pl : PipelineSnapshot) (fuel : ℕ) :
    run_sql_incremental_pipeline w env p pl fuel = (do
      let (inc_key, id_key, transformer) ← ofExcept (sqlChecks pl)
      let last ← ofExcept (decodeState ((← get).store.etl_state p))
      sqlLoop w env p (baseQuery (pl.source_query.getD "")) inc_key id_key
        (batchSizeOr pl.batch_size) transformer (resolve_writer pl.target_table) pl.target_table
        fuel 1 last 0 0) := by
  by_cases hmode : pl.mode ≠ .incremental
  · simp only [run_sql_incremental_pipeline, sqlChecks, if_pos hmode]
    rfl
  by_cases hquery : (!PyText.truthy pl.source_query) = true
  · simp only [run_sql_incremental_pipeline, sqlChecks, if_neg hmode, if_pos hquery]
    rfl
  by_cases hkey : (!PyText.truthy pl.incremental_key) = true
  · simp only [run_sql_incremental_pipeline, sqlChecks, if_neg hmode, if_neg hquery, if_pos hkey]
    rfl
  · simp only [run_sql_incremental_pipeline, sqlChecks, if_neg hmode, if_neg hquery, if_neg hkey,
      ofExcept_bind, bind_assoc]
    rfl

/-- The run stops at its checks. -/
theorem run_sql_stops
    (w : World) (p : P) {pl : PipelineSnapshot} {exc : Exc} (hchecks : sqlChecks pl = .error exc) :
    Stops (Runner.run w p pl .sql) := by
  refine ⟨exc, fun env fuel s => ?_⟩
  rw [Runner.run, run_sql_eq_checks, hchecks]
  rfl

/-- Behind its checks the run is the loop of its plan. -/
theorem run_sql_follows
    (w : World) (p : P) {pl : PipelineSnapshot} {checked : String × String × Transformer}
    (hchecks : sqlChecks pl = .ok checked) :
    ∃ transformer, resolve_transformer pl = .ok transformer ∧
      FollowsPlan w p (sqlPlan pl (transformer.transform w.modules)) (Runner.run w p pl .sql) := by
  obtain ⟨inc_key, id_key, transformer⟩ := checked
  have hall := hchecks
  simp only [sqlChecks, check_eq_ok_iff, bind_eq_ok_iff, pure_eq_ok_iff] at hall
  obtain ⟨-, -, -, _, hinc, _, hid, transformer, hresolved, heq⟩ := hall
  obtain ⟨rfl, rfl, rfl⟩ := by simpa using heq
  refine ⟨transformer, hresolved, fun env fuel s => ?_⟩
  rw [Runner.run, run_sql_eq_checks, hchecks, validate_sql_ident_eq_ok hinc,
    validate_sql_ident_eq_ok hid]
  rw [ofExcept_ok, pure_bind]
  refine (decode_then p _ s).trans ?_
  cases decodeState (s.store.etl_state p) with
  | error exc =>
      rfl
  | ok c =>
      exact congrFun (sqlLoop_eq_planLoop w env p pl transformer fuel 1 (LoopVars.initial c)) s

theorem run_sql_follows_or_stops
    (w : World) (p : P) (pl : PipelineSnapshot) :
    (∃ transformer, resolve_transformer pl = .ok transformer ∧
      FollowsPlan w p (sqlPlan pl (transformer.transform w.modules))
        (Runner.run w p pl .sql)) ∨
      Stops (Runner.run w p pl .sql) := by
  cases hchecks : sqlChecks pl with
  | error exc =>
      exact .inr (run_sql_stops w p hchecks)
  | ok checked =>
      exact .inl (run_sql_follows w p hchecks)

/-- The checks `run_tasks_incremental` makes before it reads anything, behind its first. -/
def tasksChecks (w : World) (pl : PipelineSnapshot) :
    Except Exc (String × String × List TransformFn) := do
  if pl.mode ≠ .incremental then
    throw (valueError
      "Tasks incremental runner requires pipeline.mode='incremental', got 'full'")
  if !PyText.truthy pl.incremental_key then
    throw (valueError "Incremental pipeline requires incremental_key")
  let inc_key ← validate_sql_ident (pl.incremental_key.getD "") "incremental_key"
  let id_key ← validate_sql_ident (targetOr pl.incremental_id_key "film_id") "incremental_id_key"
  if !is_allowed_target (finalTarget pl) then
    throw (valueError ("Task-level target_table is not allowed: '" ++ finalTarget pl ++ "'"))
  let py_fns ← loadTransforms w pl
  return (inc_key, id_key, py_fns)

theorem run_tasks_eq_checks
    (w : World) (env : Surroundings) (p : P) (pl : PipelineSnapshot) {reader : TaskSnapshot}
    {rest : List TaskSnapshot} (htasks : pl.tasks = reader :: rest) (fuel : ℕ) :
    run_tasks_incremental w env p pl fuel = (do
      let (inc_key, id_key, py_fns) ← ofExcept (tasksChecks w pl)
      let last ← ofExcept (decodeState ((← get).store.etl_state p))
      tasksLoop w env p (baseQuery reader.body) inc_key id_key (batchSizeOr pl.batch_size) py_fns
        (resolve_writer (finalTarget pl)) (finalTarget pl) fuel 1 last 0 0) := by
  by_cases hmode : pl.mode ≠ .incremental
  · simp only [run_tasks_incremental, htasks, tasksChecks, if_pos hmode]
    rfl
  by_cases hkey : (!PyText.truthy pl.incremental_key) = true
  · simp only [run_tasks_incremental, htasks, tasksChecks, if_neg hmode, if_pos hkey]
    rfl
  by_cases htarget : (!is_allowed_target (finalTarget pl)) = true
  · simp only [run_tasks_incremental, htasks, tasksChecks, if_neg hmode, if_neg hkey,
      if_pos htarget, ofExcept_bind, bind_assoc]
    rfl
  · simp only [run_tasks_incremental, htasks, tasksChecks, if_neg hmode, if_neg hkey,
      if_neg htarget, ofExcept_bind, bind_assoc]
    rfl

theorem run_tasks_follows_or_stops
    (w : World) (p : P) (pl : PipelineSnapshot) :
    (∃ reader fns, loadTransforms w pl = .ok fns ∧
      FollowsPlan w p (tasksPlan pl reader (fun rows => .ok (applyTransforms fns rows)))
        (Runner.run w p pl .tasks)) ∨
      Stops (Runner.run w p pl .tasks) := by
  cases htasks : pl.tasks with
  | nil =>
      refine .inr ⟨valueError "Tasks runner requires non-empty tasks", fun env fuel s => ?_⟩
      rw [Runner.run, run_tasks_incremental, htasks]
      rfl
  | cons reader rest =>
      cases hchecks : tasksChecks w pl with
      | error exc =>
          refine .inr ⟨exc, fun env fuel s => ?_⟩
          rw [Runner.run, run_tasks_eq_checks w env p pl htasks, hchecks]
          rfl
      | ok checked =>
          obtain ⟨inc_key, id_key, fns⟩ := checked
          have hall := hchecks
          simp only [tasksChecks, check_eq_ok_iff, bind_eq_ok_iff, pure_eq_ok_iff] at hall
          obtain ⟨-, -, _, hinc, _, hid, -, fns, hloaded, heq⟩ := hall
          obtain ⟨rfl, rfl, rfl⟩ := by simpa using heq
          refine .inl ⟨reader, fns, hloaded, fun env fuel s => ?_⟩
          rw [Runner.run, run_tasks_eq_checks w env p pl htasks, hchecks,
            validate_sql_ident_eq_ok hinc, validate_sql_ident_eq_ok hid, ofExcept_ok, pure_bind]
          refine (decode_then p _ s).trans ?_
          cases decodeState (s.store.etl_state p) with
          | error exc =>
              rfl
          | ok c =>
              exact congrFun
                (tasksLoop_eq_planLoop w env p pl reader fns fuel 1 (LoopVars.initial c)) s

/-- **A run is the loop of a plan behind a decoded checkpoint**, or stops before that. -/
theorem Runner.follows_or_stops
    (w : World) (p : P) (pl : PipelineSnapshot) (runner : Runner) :
    (∃ plan, plan.inc_key = incKey pl ∧ plan.id_key = idKey pl ∧
      plan.limit = batchSizeOr pl.batch_size ∧ plan.transform = runner.transform w pl ∧
      FollowsPlan w p plan (runner.run w p pl)) ∨
      Stops (runner.run w p pl) := by
  cases runner with
  | sql =>
      refine (run_sql_follows_or_stops w p pl).imp_left ?_
      rintro ⟨transformer, hresolved, hfollows⟩
      refine ⟨_, rfl, rfl, rfl, ?_, hfollows⟩
      funext rows
      rw [Runner.transform, hresolved]
      rfl
  | tasks =>
      refine (run_tasks_follows_or_stops w p pl).imp_left ?_
      rintro ⟨reader, fns, hloaded, hfollows⟩
      refine ⟨_, rfl, rfl, rfl, ?_, hfollows⟩
      funext rows
      rw [Runner.transform, hloaded]
      rfl

end Runners

end Sequential
end EtlPlatform
