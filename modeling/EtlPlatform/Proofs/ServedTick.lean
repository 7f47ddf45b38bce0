import EtlPlatform.Proofs.DueRows
import EtlPlatform.Proofs.TickService
import EtlPlatform.Proofs.UndisturbedRuns

/-!
# An undisturbed tick delivers

A tick serves its candidates one after the other.  When every statement succeeds
and every requested pipeline can run, the tick comes to its end, and what it has
done to the database can be told without its statements: each requested pipeline
has delivered the rows it had before it and is idle, each pause request is
applied, and nothing else has changed.
-/

namespace EtlPlatform

open Library

section Turns

variable {P : Type} [DecidableEq P]

/-- The row of a successful run in the history. -/
def successRow (p : P) (rows_read rows_written : ℕ) : EtlRun P where
  pipeline_id := p
  status := .SUCCESS
  rows_read := rows_read
  rows_written := rows_written
  error_message := none

/-- The database after a run of `p` that has written `items`. -/
def Db.served (w : World) (db : Db P) (p : P) (items : List Item) : Db P :=
  db.completed p (db.due w p).length items.length
    (db.store.delivered p items ((db.config p).mark (db.due w p)))

/-- What a run of `p` writes, page by page. -/
def Writes (w : World) (db : Db P) (p : P) (bl : BatchLoop P) (written : List (List Item)) :
    Prop :=
  (pages (batchSizeOr (db.config p).batch_size) (db.due w p)).mapM bl.items = .ok written

variable {w : World} {db db' : Db P} {p q : P} {bl : BatchLoop P} {written : List (List Item)}

/-- **A requested pipeline that can run is served.** -/
theorem Runnable.leads
    (h : Runnable w db p bl) (hmax : 1 ≤ w.max_attempts) (hreq : db.status p = .RUN_REQUESTED)
    (hwrites : Writes w db p bl written) (todo : List (P × PipelineStatus)) :
    Leads w (db, ⟨.tick ((p, .RUN_REQUESTED) :: todo), []⟩)
      (db.served w p written.flatten, ⟨.tick todo, []⟩) := by
  obtain ⟨v, written', v', hsetup, hruns, hread, hwritten⟩ := h.exhausts
  obtain rfl : written' = written := Except.ok.inj (hruns.items_eq.symm.trans hwrites)
  have hleads : Leads w (db, ⟨.tick ((p, .RUN_REQUESTED) :: todo), []⟩) (_, ⟨.tick todo, []⟩) :=
    Leads.completed hmax hreq h.body hsetup hruns
  rw [hread, hwritten] at hleads
  exact hleads

/-- The same as far as a run of `q` can tell. -/
structure Unmoved (q : P) (db db' : Db P) : Prop where
  status : db'.status q = db.status q
  config : db'.config q = db.config q
  source : db'.store.source = db.store.source
  etl_state : db'.store.etl_state q = db.store.etl_state q

omit [DecidableEq P] in
theorem Unmoved.refl
    (q : P) (db : Db P) :
    Unmoved q db db :=
  ⟨rfl, rfl, rfl, rfl⟩

omit [DecidableEq P] in
theorem Unmoved.due_eq
    (h : Unmoved q db db') :
    db'.due w q = db.due w q := by
  simp only [Db.due, h.config, h.source, h.etl_state]

theorem Unmoved.runnable
    (h : Unmoved q db db') (hrun : Runnable w db q bl) :
    Runnable w db' q bl where
  body := by
    rw [h.config]
    exact hrun.body
  source := by
    rw [h.config, h.source]
    exact hrun.source
  accepts := by
    rw [h.config, h.source]
    exact hrun.accepts
  incremental := by
    rw [h.config, h.source, h.etl_state]
    exact hrun.incremental

omit [DecidableEq P] in
theorem Unmoved.writes
    (h : Unmoved q db db') (hwrites : Writes w db q bl written) :
    Writes w db' q bl written := by
  rw [Writes, h.config, h.due_eq]
  exact hwrites

/-- A run of `p` is nothing to `q`. -/
theorem unmoved_served
    (hq : q ≠ p) (w : World) (db : Db P) (items : List Item) :
    Unmoved q db (db.served w p items) where
  status := by
    rw [Db.served, status_completed, if_neg hq]
  config := by
    have hrow : (db.served w p items).pipelines q = db.pipelines q :=
      Function.update_of_ne hq _ _
    rw [Db.config, hrow]
    rfl
  source := rfl
  etl_state := by
    simp only [Db.served, Db.completed, Store.delivered]
    cases (db.config p).mark (db.due w p) with
    | none =>
        rfl
    | some s =>
        exact Function.update_of_ne hq _ _

/-- A pause of `p` is nothing to `q`. -/
theorem unmoved_paused
    (hq : q ≠ p) (db : Db P) :
    Unmoved q db (db.apply_pause_requested p) where
  status := by
    rw [Db.apply_pause_requested, Db.status_updateStatus, if_neg (fun h => hq h.1)]
  config := (sameConfig_updateStatus _ _ db p).config_eq q
  source := by
    rw [Db.apply_pause_requested, Db.store_updateStatus]
  etl_state := by
    rw [Db.apply_pause_requested, Db.store_updateStatus]

/-! ## One candidate after the other -/

/-- The turn of a candidate whose status is still the one listed. -/
def Db.turn (w : World) (items : P → List Item) (db : Db P) : P × PipelineStatus → Db P
  | (p, .RUN_REQUESTED) => db.served w p (items p)
  | (p, .PAUSE_REQUESTED) => db.apply_pause_requested p
  | _ => db

theorem unmoved_turn
    {x : P × PipelineStatus} (hq : q ≠ x.1) (items : P → List Item) :
    Unmoved q db (db.turn w items x) := by
  obtain ⟨p, s⟩ := x
  cases s with
  | RUN_REQUESTED =>
      exact unmoved_served hq w db (items p)
  | PAUSE_REQUESTED =>
      exact unmoved_paused hq db
  | _ =>
      exact Unmoved.refl q db

/-- What a tick takes to serve its candidates: their statuses stand as listed, and the
requested ones can run. -/
structure Servable (w : World) (db : Db P) (items : P → List Item)
    (todo : List (P × PipelineStatus)) : Prop where
  once : (todo.map Prod.fst).Nodup
  listed : ∀ x ∈ todo, db.status x.1 = x.2
  runnable : ∀ x ∈ todo, x.2 = .RUN_REQUESTED → ∃ bl written, Runnable w db x.1 bl ∧
    Writes w db x.1 bl written ∧ written.flatten = items x.1

variable {items : P → List Item} {x : P × PipelineStatus} {todo : List (P × PipelineStatus)}

/-- The turn of a candidate leaves the others what they need. -/
theorem Servable.tail
    (h : Servable w db items (x :: todo)) :
    Servable w (db.turn w items x) items todo := by
  obtain ⟨hnot, honce⟩ := List.nodup_cons.mp h.once
  have hunmoved : ∀ y ∈ todo, Unmoved y.1 db (db.turn w items x) := by
    intro y hy
    refine unmoved_turn (fun heq => hnot ?_) items
    exact heq ▸ List.mem_map_of_mem hy
  refine ⟨honce, fun y hy => ?_, fun y hy hrun => ?_⟩
  · rw [(hunmoved y hy).status]
    exact h.listed y (List.mem_cons_of_mem _ hy)
  · obtain ⟨bl, written, hbl, hwrites, hitems⟩ := h.runnable y (List.mem_cons_of_mem _ hy) hrun
    exact ⟨bl, written, (hunmoved y hy).runnable hbl, (hunmoved y hy).writes hwrites, hitems⟩

/-- **A turn.** -/
theorem Leads.turn
    (h : Servable w db items (x :: todo)) (hmax : 1 ≤ w.max_attempts) :
    Leads w (db, ⟨.tick (x :: todo), []⟩) (db.turn w items x, ⟨.tick todo, []⟩) := by
  obtain ⟨p, s⟩ := x
  cases s with
  | RUN_REQUESTED =>
      obtain ⟨bl, written, hbl, hwrites, hitems⟩ := h.runnable _ List.mem_cons_self rfl
      have hserved := hbl.leads hmax (h.listed _ List.mem_cons_self) hwrites todo
      rw [hitems] at hserved
      exact hserved
  | _ =>
      exact Leads.step rfl

/-- **A tick is its turns**, by induction on the candidates. -/
theorem Leads.turns
    (h : Servable w db items todo) (hmax : 1 ≤ w.max_attempts) :
    Leads w (db, ⟨.tick todo, []⟩) (todo.foldl (Db.turn w items) db, ⟨.polling, []⟩) := by
  induction todo generalizing db with
  | nil =>
      exact Leads.step rfl
  | cons x todo ih =>
      exact (Leads.turn h hmax).trans (ih h.tail)

end Turns

/-! ## What a tick has done -/

section Outcome

variable {P : Type} [DecidableEq P]

/-- The candidates that are to run, in order. -/
def toRun (todo : List (P × PipelineStatus)) : List P :=
  (todo.filter (fun x => x.2 = .RUN_REQUESTED)).map Prod.fst

/-- The status a candidate is left with when its turn goes through. -/
def statusAfter (todo : List (P × PipelineStatus)) (p : P) (status : PipelineStatus) :
    PipelineStatus :=
  if (p, .RUN_REQUESTED) ∈ todo then .IDLE
  else if (p, .PAUSE_REQUESTED) ∈ todo then .PAUSED
  else status

/-- The tick with these candidates has delivered `items`, and done nothing else. -/
structure TickOutcome (w : World) (items : P → List Item) (todo : List (P × PipelineStatus))
    (db db' : Db P) : Prop where
  history : db'.runs = db.runs ++
    (toRun todo).map (fun p => successRow p (db.due w p).length (items p).length)
  sink : db'.store.sink = applyItems db.store.sink ((toRun todo).flatMap items)
  checkpoint : ∀ p, db'.store.etl_state p =
    if p ∈ toRun todo then ((db.config p).mark (db.due w p)).or (db.store.etl_state p)
    else db.store.etl_state p
  status : ∀ p, db'.status p = statusAfter todo p (db.status p)
  source : db'.store.source = db.store.source
  config : SameConfig db db'

omit [DecidableEq P] in
theorem mem_toRun_iff
    {todo : List (P × PipelineStatus)} {p : P} :
    p ∈ toRun todo ↔ (p, .RUN_REQUESTED) ∈ todo := by
  simp [toRun]

variable {w : World} {items : P → List Item} {db db' db'' : Db P} {x : P × PipelineStatus}
variable {todo : List (P × PipelineStatus)}

/-- One turn. -/
theorem tickOutcome_turn
    (hlisted : db.status x.1 = x.2) :
    TickOutcome w items [x] db (db.turn w items x) := by
  obtain ⟨p, s⟩ := x
  have hstatus : db.status p = s := hlisted
  have hskip : s ≠ .RUN_REQUESTED → s ≠ .PAUSE_REQUESTED →
      TickOutcome w items [(p, s)] db db := by
    intro hrun hpause
    refine ⟨by simp [toRun, hrun], by simp [toRun, hrun], fun q => by simp [toRun, hrun],
      fun q => ?_, rfl, SameConfig.refl db⟩
    simp [statusAfter, Ne.symm hrun, Ne.symm hpause]
  cases s with
  | RUN_REQUESTED =>
      refine ⟨rfl, ?_, fun q => ?_, fun q => ?_, rfl, rfl, fun q => ?_⟩
      · simp [toRun, Db.turn, Db.served, Db.completed, Store.delivered]
      · simp only [Db.turn, Db.served, Db.completed, Store.delivered, mem_toRun_iff,
          List.mem_singleton, Prod.mk.injEq, and_true]
        by_cases hq : q = p
        · subst hq
          cases (db.config q).mark (db.due w q) <;> simp
        · rw [if_neg hq]
          cases (db.config p).mark (db.due w p) <;> simp [hq]
      · simp only [Db.turn, Db.served, status_completed, statusAfter, List.mem_singleton,
          Prod.mk.injEq, and_true, reduceCtorEq, and_false, if_false]
      · by_cases hq : q = p
        · subst hq
          simp [Db.turn, Db.served, Db.completed, Db.setStatus, Db.setPipeline, snapshot_pipeline]
        · simp [Db.turn, Db.served, Db.completed, Db.setStatus, Db.setPipeline, hq]
  | PAUSE_REQUESTED =>
      have hstore : (db.apply_pause_requested p).store = db.store := Db.store_updateStatus _ _ db p
      refine ⟨?_, ?_, fun q => ?_, fun q => ?_, congrArg Store.source hstore,
        sameConfig_updateStatus _ _ db p⟩
      · simp [toRun, Db.turn, Db.apply_pause_requested]
      · simp [toRun, Db.turn, hstore]
      · simp [toRun, Db.turn, hstore]
      · simp [Db.turn, Db.apply_pause_requested, Db.status_updateStatus, statusAfter, hstatus]
  | _ =>
      exact hskip (by decide) (by decide)

/-- One turn and the rest of the tick. -/
theorem TickOutcome.cons
    (h : TickOutcome w items [x] db db') (h' : TickOutcome w items todo db' db'')
    (hnot : x.1 ∉ todo.map Prod.fst) (hunmoved : ∀ q, q ≠ x.1 → Unmoved q db db') :
    TickOutcome w items (x :: todo) db db'' := by
  have hne : ∀ {q : P} {s : PipelineStatus}, (q, s) ∈ todo → q ≠ x.1 := by
    intro q s hq heq
    exact hnot (heq ▸ List.mem_map_of_mem hq)
  have hruns : toRun (x :: todo) = toRun [x] ++ toRun todo := by
    rw [toRun, ← List.singleton_append, List.filter_append, List.map_append]
    rfl
  have hmem : ∀ (q : P) (s : PipelineStatus),
      (q, s) ∈ x :: todo ↔ (q, s) ∈ [x] ∨ (q, s) ∈ todo := by
    simp
  constructor
  · rw [h'.history, h.history, hruns, List.map_append, List.append_assoc]
    congr 2
    refine List.map_congr_left fun q hq => ?_
    rw [(hunmoved q (hne (mem_toRun_iff.mp hq))).due_eq]
  · rw [h'.sink, h.sink, hruns, List.flatMap_append, applyItems_append]
  · intro q
    rw [h'.checkpoint q, hruns]
    by_cases hq : q ∈ toRun todo
    · have hun := hunmoved q (hne (mem_toRun_iff.mp hq))
      rw [if_pos hq, if_pos (List.mem_append_right _ hq), hun.config, hun.due_eq, hun.etl_state]
    · rw [if_neg hq, h.checkpoint q]
      simp only [List.mem_append, hq, or_false]
  · intro q
    rw [h'.status q, h.status q]
    simp only [statusAfter, hmem]
    by_cases hq : q = x.1
    · -- the turn of `q` is the first one
      have hnone : ∀ s, (q, s) ∉ todo := fun s hs => hne hs hq
      simp [hnone]
    · have hnone : ∀ s, (q, s) ∉ [x] := fun s hs =>
        hq (congrArg Prod.fst (List.mem_singleton.mp hs))
      simp [hnone]
  · rw [h'.source, h.source]
  · exact ⟨h'.config.1.trans h.config.1, fun q => (h'.config.2 q).trans (h.config.2 q)⟩

/-- **The turns of a tick deliver.** -/
theorem Servable.outcome
    (h : Servable w db items todo) :
    TickOutcome w items todo db (todo.foldl (Db.turn w items) db) := by
  induction todo generalizing db with
  | nil =>
      refine ⟨by simp [toRun], by simp [toRun], fun q => by simp [toRun],
        fun q => by simp [statusAfter], rfl, SameConfig.refl db⟩
  | cons x todo ih =>
      have hnot := (List.nodup_cons.mp h.once).1
      exact (tickOutcome_turn (h.listed x List.mem_cons_self)).cons (ih h.tail) hnot
        (fun q hq => unmoved_turn hq items)

end Outcome

/-! ## The tick of a process -/

section Ticks

variable {ι P : Type} [DecidableEq ι] [DecidableEq P]

/-- What a process does when its statements succeed, it does in the system. -/
theorem Leads.exec_eq
    {w : World} {x y : Db P × Proc P} (h : Leads w x y) {s : Sys ι P} {i : ι}
    (hdb : s.db = x.1) (hproc : s.procs i = x.2) :
    ∃ n, exec (Sys.step w) s (List.replicate n (.runner i .ok)) =
      some { db := y.1, procs := Function.update s.procs i y.2 } := by
  induction h using Relation.ReflTransGen.head_induction_on generalizing s with
  | refl =>
      refine ⟨0, ?_⟩
      rw [← hdb, ← hproc, Function.update_eq_self]
      rfl
  | @head x₁ y₁ hstep _ ih =>
      have hfirst : s.step w (.runner i .ok) =
          some { db := y₁.1, procs := Function.update s.procs i y₁.2 } := by
        rw [Sys.step, hdb, hproc, hstep]
        rfl
      obtain ⟨n, hrest⟩ := ih (s := { db := y₁.1, procs := Function.update s.procs i y₁.2 }) rfl
        (Function.update_self _ _ _)
      refine ⟨n + 1, ?_⟩
      rw [List.replicate_succ, exec, hfirst, Option.bind_some, hrest, Function.update_idem]

/-- The candidates of a tick over pipelines that can run are servable. -/
theorem servable_get_active
    {w : World} {db : Db P} {written : P → List (List Item)}
    (hrunnable : ∀ p, (db.pipelines p).enabled = true → db.status p = .RUN_REQUESTED →
      ∃ bl, Runnable w db p bl ∧ Writes w db p bl (written p)) :
    Servable w db (fun p => (written p).flatten) db.get_active where
  once := get_active_nodup db
  listed := by
    intro x hx
    exact (mem_get_active_iff.mp hx).2.symm
  runnable := by
    intro x hx hrun
    obtain ⟨⟨hon, -⟩, hlisted⟩ := mem_get_active_iff.mp hx
    obtain ⟨bl, hbl, hwrites⟩ := hrunnable x.1 hon (hlisted.symm.trans hrun)
    exact ⟨bl, _, hbl, hwrites, rfl⟩

/-- What the runs of pipelines that can run write. -/
theorem exists_written
    {w : World} {db : Db P}
    (hrunnable : ∀ p, (db.pipelines p).enabled = true → db.status p = .RUN_REQUESTED →
      ∃ bl, Runnable w db p bl) :
    ∃ written : P → List (List Item),
      ∀ p, (db.pipelines p).enabled = true → db.status p = .RUN_REQUESTED →
        ∃ bl, Runnable w db p bl ∧ Writes w db p bl (written p) := by
  classical
  have hone : ∀ p, ∃ written, (db.pipelines p).enabled = true → db.status p = .RUN_REQUESTED →
      ∃ bl, Runnable w db p bl ∧ Writes w db p bl written := by
    intro p
    by_cases hreq : (db.pipelines p).enabled = true ∧ db.status p = .RUN_REQUESTED
    · obtain ⟨bl, hbl⟩ := hrunnable p hreq.1 hreq.2
      obtain ⟨v, written, v', -, hruns, -, -⟩ := hbl.exhausts
      exact ⟨written, fun _ _ => ⟨bl, hbl, hruns.items_eq⟩⟩
    · exact ⟨[], fun hon hrun => absurd ⟨hon, hrun⟩ hreq⟩
  exact ⟨fun p => (hone p).choose, fun p => (hone p).choose_spec⟩

/--
**An undisturbed tick delivers every request.**  When the statements of a tick
succeed and every pipeline it finds requested can run, the tick ends; each of
these pipelines has read the rows it had before it, written what its pages are
transformed to and stored the mark of the last row, its run is in the history
with exact counters, and it is idle.  Nothing else has changed, but for the
pause requests, which are applied.
-/
theorem tick_delivers_requests
    {w : World} {s : Sys ι P} {i : ι}
    (hmax : 1 ≤ w.max_attempts)
    (hpc : (s.procs i).pc = .started ∨ (s.procs i).pc = .polling)
    (hrunnable : ∀ p, (s.db.pipelines p).enabled = true → s.db.status p = .RUN_REQUESTED →
      ∃ bl, Runnable w s.db p bl) :
    ∃ (written : P → List (List Item)) (n : ℕ) (s' : Sys ι P),
      (∀ p, (s.db.pipelines p).enabled = true → s.db.status p = .RUN_REQUESTED →
        ∃ bl, _run_body w p (s.db.config p) = .ok bl ∧ Writes w s.db p bl (written p)) ∧
      exec (Sys.step w) s (List.replicate n (.runner i .ok)) = some s' ∧
      s'.procs = Function.update s.procs i ⟨.polling, []⟩ ∧
      TickOutcome w (fun p => (written p).flatten) s.db.get_active s.db s'.db := by
  obtain ⟨written, hwritten⟩ := exists_written hrunnable
  have hservable := servable_get_active hwritten
  have hbegin : procStep w s.db (s.procs i) .ok =
      some (s.db, ⟨.tick s.db.get_active, []⟩) := by
    rcases hpc with hpc | hpc <;> simp [procStep, hpc]
  have hleads := (Leads.step hbegin).trans (Leads.turns hservable hmax)
  obtain ⟨n, hexec⟩ := hleads.exec_eq (s := s) rfl rfl
  refine ⟨written, n, _, fun p hon hrun => ?_, hexec, rfl, hservable.outcome⟩
  obtain ⟨bl, hbl, hwrites⟩ := hwritten p hon hrun
  exact ⟨bl, hbl.body, hwrites⟩

/-- Three films, two a page, and a run request. -/
def threeFilmsRequested : Sys Unit Unit :=
  Sys.polling (Db.single (filmPipeline .incremental 2 .RUN_REQUESTED) Sequential.threeFilms)

theorem runnable_threeFilms :
    ∃ bl, Runnable World.plain threeFilmsRequested.db () bl := by
  set pl := snapshot_pipeline (filmPipeline .incremental 2 .RUNNING) with hpl
  have hconfig : threeFilmsRequested.db.config () = pl := by
    decide +kernel
  have hquery : pl.readerQuery = filmQuery := by
    decide +kernel
  have hsource : threeFilmsRequested.db.store.source pl.readerQuery =
      .ok Sequential.threeFilms := by
    rw [hquery]
    change filmSource Sequential.threeFilms filmQuery = _
    rw [filmSource, if_pos rfl]
  have hkeys : incKey pl = "updated_at" ∧ idKey pl = "film_id" := by
    decide +kernel
  obtain ⟨bl, hbody⟩ : ∃ bl, _run_body World.plain () pl = .ok bl := by
    cases h : _run_body World.plain () pl with
    | ok bl =>
        exact ⟨bl, rfl⟩
    | error exc =>
        have hok : (_run_body World.plain () pl).toBool = true := by
          decide +kernel
        rw [h] at hok
        cases hok
  have hbl : bl = (sqlPlan pl (Transformer.noOp.transform World.plain.modules)).loop
      World.plain () := by
    rw [run_body_of_no_tasks _ _ rfl rfl] at hbody
    obtain ⟨tr, htr, rfl⟩ := run_sql_incremental_pipeline_eq_ok hbody
    have hnone : resolve_transformer pl = .ok .noOp := rfl
    obtain rfl := Except.ok.inj (htr.symm.trans hnone)
    rfl
  refine ⟨bl, by rw [hconfig]; exact hbody, ⟨Sequential.threeFilms, ?_⟩, ?_, fun _ => ⟨?_, ?_, ?_⟩⟩
  · rw [hconfig, hsource]
  · intro rows hrows
    rw [hconfig, rowsOf_of_ok hsource] at hrows
    obtain ⟨out, items, hout, hwrite⟩ := Sequential.accepts_threeFilms rows hrows
    subst hbl
    exact ⟨items, bind_eq_ok_iff.mpr ⟨_, hout, Sequential.itemsOf_of_write () hwrite⟩⟩
  · rw [hconfig, rowsOf_of_ok hsource, hkeys.1, hkeys.2]
    exact ⟨.text, Sequential.keysetTable_threeFilms⟩
  · exact ⟨none, rfl⟩
  · subst hbl
    intro rows res hres
    obtain rfl := Except.ok.inj hres
    rfl

/-- All three are read, and the checkpoint is that of the last. -/
theorem tick_delivers_three_films :
    ∃ (n : ℕ) (s' : Sys Unit Unit),
      exec (Sys.step World.plain) threeFilmsRequested (List.replicate n (.runner () .ok)) =
        some s' ∧
      s'.db.status () = .IDLE ∧ s'.db.runs.map EtlRun.rows_read = [3] ∧
      s'.db.store.etl_state () = some ⟨some "2024-01-05T00:00:00+00:00", some "f3"⟩ := by
  obtain ⟨written, n, s', -, hexec, -, houtcome⟩ :=
    tick_delivers_requests (w := World.plain) (s := threeFilmsRequested) (i := ()) (by decide)
      (Or.inr rfl) (fun _ _ _ => runnable_threeFilms)
  have hactive : threeFilmsRequested.db.get_active = [((), .RUN_REQUESTED)] := by
    decide +kernel
  rw [hactive] at houtcome
  have hdue : (threeFilmsRequested.db.due World.plain ()).length = 3 ∧
      (threeFilmsRequested.db.config ()).mark (threeFilmsRequested.db.due World.plain ()) =
        some ⟨some "2024-01-05T00:00:00+00:00", some "f3"⟩ := by
    decide +kernel
  refine ⟨n, s', hexec, ?_, ?_, ?_⟩
  · rw [houtcome.status ()]
    rfl
  · have hruns : threeFilmsRequested.db.runs = [] := rfl
    rw [houtcome.history, hruns]
    simp [toRun, successRow, hdue.1]
  · rw [houtcome.checkpoint ()]
    simp [toRun, hdue.2]

end Ticks

end EtlPlatform
