import EtlPlatform.Model.Deployment
import EtlPlatform.Proofs.FullRounds

/-!
# What a full run reads

An unpaused run of `run_sql_full_pipeline` over a source that is only appended
to ends when a query finds nothing behind the rows already fetched.  Its batches
are then, one after the other, the whole source as this query found it, and the
sink has got the items of their transforms in the same order.
-/

namespace EtlPlatform
namespace FullRuns

open Library
open EtlPlatform.Sequential (Surroundings)

/-! ## Logs -/

section Logs

/-- The session a run is started with. -/
def Session.opened (sink : Sink) : Session where
  sink := sink
  pending := []
  seen := []

/-- The answers of the batch queries, in order. -/
def pagesRead (log : List Seen) : List (List Row) :=
  log.filterMap (fun e =>
    match e with
    | .query _ (.ok rows) => some rows
    | _ => none)

theorem pagesRead_append
    (log log' : List Seen) :
    pagesRead (log ++ log') = pagesRead log ++ pagesRead log' :=
  List.filterMap_append

theorem pagesRead_queried
    (s : Session) (q : PageQuery) (rows : List Row) :
    pagesRead (s.queried q (.ok rows)).seen = pagesRead s.seen ++ [rows] :=
  pagesRead_append _ _

theorem pagesRead_served
    (s : Session) (items : List Item) :
    pagesRead (s.served items).seen = pagesRead s.seen :=
  (pagesRead_append _ _).trans (List.append_nil _)

theorem pagesRead_withoutOffsets
    (s : Session) :
    pagesRead s.withoutOffsets.seen = pagesRead s.seen := by
  obtain ⟨sink, pending, seen⟩ := s
  rw [Session.withoutOffsets, pagesRead, pagesRead, List.filterMap_map]
  refine List.filterMap_congr fun e _ => ?_
  rcases e with ⟨q, exc | rows⟩ | sink <;> rfl

end Logs

/-! ## Runs that end by themselves -/

section Runs

variable {w : World} {env : Surroundings} {plan : FullPlan} {batch : ℕ → List Row}
variable {fuel i total_read total_written : ℕ} {totals : ℕ × ℕ} {s s' : Session}

/-- **A run that ends by itself** has served every batch before an empty one. -/
theorem windowRun_eq_some
    (hunpaused : ∀ i, env.status i ≠ .PAUSE_REQUESTED)
    (h : windowRun w env plan batch fuel i total_read total_written s = .ok (some totals) s') :
    ∃ n itemss, batch (i + n) = [] ∧
      pagesRead s'.seen = pagesRead s.seen ++ (List.range' i n).map batch ++ [[]] ∧
      List.Forall₂ (fun rows items => plan.items w rows = .ok items)
        ((List.range' i n).map batch) itemss ∧
      totals = (total_read + ((List.range' i n).map batch).flatten.length,
        total_written + itemss.flatten.length) ∧
      s'.sink = applyItems s.sink itemss.flatten := by
  induction fuel generalizing i total_read total_written s with
  | zero =>
      cases h
  | succ fuel ih =>
      rw [windowRun] at h
      by_cases hnil : batch i = []
      · simp only [hnil, if_true] at h
        obtain ⟨htotals, rfl⟩ := EStateM.Result.ok.inj h
        refine ⟨0, [], hnil, ?_, .nil, (Option.some.inj htotals).symm, rfl⟩
        rw [pagesRead_queried]
        simp
      · simp only [hnil, if_false] at h
        cases hitems : plan.items w (batch i) with
        | error exc =>
            rw [hitems] at h
            cases h
        | ok items =>
            simp only [hitems, hunpaused, if_false] at h
            obtain ⟨n, itemss, hend, hread, hserved, htotals, hsink⟩ := ih h
            have hrange : (List.range' i (n + 1)).map batch =
                batch i :: (List.range' (i + 1) n).map batch := by
              rw [List.range'_succ, List.map_cons]
            refine ⟨n + 1, items :: itemss, ?_, ?_, ?_, ?_, ?_⟩
            · rw [← hend, Nat.add_assoc, Nat.add_comm 1]
            · rw [hread, pagesRead_served, pagesRead_queried, hrange]
              simp
            · rw [hrange]
              exact .cons hitems hserved
            · rw [htotals, hrange]
              simp only [List.flatten_cons, List.length_append, Nat.add_assoc]
            · rw [hsink, List.flatten_cons, applyItems_append]
              rfl

/-- A run that has not ended has read rows in every round. -/
theorem ne_nil_of_windowRun_eq_none
    (h : windowRun w env plan batch fuel i total_read total_written s = .ok none s') :
    ∀ j < fuel, batch (i + j) ≠ [] := by
  induction fuel generalizing i total_read total_written s with
  | zero =>
      exact fun j hj => absurd hj (Nat.not_lt_zero j)
  | succ fuel ih =>
      rw [windowRun] at h
      by_cases hnil : batch i = []
      · simp only [hnil, if_true] at h
        cases h
      · simp only [hnil, if_false] at h
        cases hitems : plan.items w (batch i) with
        | error exc =>
            rw [hitems] at h
            cases h
        | ok items =>
            rw [hitems] at h
            dsimp only at h
            split_ifs at h
            · cases h
            · intro j hj
              cases j with
              | zero =>
                  exact hnil
              | succ j =>
                  have hrest := ih h j (Nat.lt_of_succ_lt_succ hj)
                  rwa [Nat.add_assoc, Nat.add_comm 1] at hrest

/-- **A run that continues behind the rows it has fetched covers the list.** -/
theorem windowRun_covers
    {table : ℕ → List Row} {sink : Sink} (hgrow : Appended table) (hlimit : 0 < plan.limit)
    (hunpaused : ∀ i, env.status i ≠ .PAUSE_REQUESTED)
    (h : windowRun w env plan
        (fun i => window plan.limit (followed plan.limit table i) (table i)) fuel 0 0 0
        (Session.opened sink) = .ok (some totals) s') :
    ∃ n itemss, (pagesRead s'.seen).length = n + 1 ∧ (pagesRead s'.seen).getLast? = some [] ∧
      (pagesRead s'.seen).flatten = table n ∧
      List.Forall₂ (fun rows items => plan.items w rows = .ok items)
        (pagesRead s'.seen).dropLast itemss ∧
      totals = ((table n).length, itemss.flatten.length) ∧
      s'.sink = applyItems sink itemss.flatten := by
  obtain ⟨n, itemss, hend, hread, hserved, htotals, hsink⟩ := windowRun_eq_some hunpaused h
  rw [Nat.zero_add] at hend
  have hflat := hgrow.flatten_windows_of_nil hlimit hend
  rw [← List.range_eq_range'] at hread hserved htotals
  have hpages : pagesRead s'.seen = (List.range n).map (fun i =>
      window plan.limit (followed plan.limit table i) (table i)) ++ [[]] := hread
  refine ⟨n, itemss, ?_, ?_, ?_, ?_, ?_, hsink⟩
  · rw [hpages, List.length_append, List.length_map, List.length_range, List.length_singleton]
  · rw [hpages, List.getLast?_concat]
  · rw [hpages, List.flatten_append, hflat, List.flatten_cons, List.flatten_nil, List.append_nil,
      List.append_nil]
  · rw [hpages, List.dropLast_concat]
    exact hserved
  · rw [htotals, hflat, Nat.zero_add, Nat.zero_add]

end Runs

/-! ## The SQL runner -/

section SqlRunner

/-- The checks `run_sql_full_pipeline` makes before it reads anything. -/
def sqlChecks (pl : PipelineSnapshot) : Except Exc Transformer := do
  if pl.mode ≠ .full then
    throw (valueError "Unsupported pipeline.mode: incremental")
  if !PyText.truthy pl.source_query then
    throw (valueError "Pipeline has empty source_query")
  resolve_transformer pl

theorem run_sql_eq_checks
    (w : World) (env : Surroundings) (pl : PipelineSnapshot) (fuel : ℕ) :
    run_sql_full_pipeline w env pl fuel = (do
      let transformer ← ofExcept (sqlChecks pl)
      pageLoop w env (sqlPlan w pl transformer) behindRows fuel 1 0 0 0) := by
  simp only [← sqlLoop_eq_pageLoop]
  by_cases hmode : pl.mode ≠ .full
  · simp only [run_sql_full_pipeline, sqlChecks, if_pos hmode]
    rfl
  by_cases hquery : (!PyText.truthy pl.source_query) = true
  · simp only [run_sql_full_pipeline, sqlChecks, if_neg hmode, if_pos hquery]
    rfl
  · simp only [run_sql_full_pipeline, sqlChecks, if_neg hmode, if_neg hquery]

/-- What a run that ended by itself has read and left behind: its batches are the table as the
last query found it, and their items are in the sink. -/
structure Covers (w : World) (pl : PipelineSnapshot) (table : ℕ → List Row) (sink : Sink)
    (totals : ℕ × ℕ) (s' : Session) : Prop where
  complete : ∃ n, (pagesRead s'.seen).length = n + 1 ∧
    (pagesRead s'.seen).getLast? = some [] ∧
    (pagesRead s'.seen).flatten = table n ∧ totals.1 = (table n).length
  written : ∃ transformer itemss, resolve_transformer pl = .ok transformer ∧
    List.Forall₂ (fun rows items => ∃ res, transformer.transform w.modules rows = .ok res ∧
        (resolve_writer pl.target_table).write w.storeRow pl.target_table res.rows = .ok items)
      (pagesRead s'.seen).dropLast itemss ∧
    totals.2 = itemss.flatten.length ∧ s'.sink = applyItems sink itemss.flatten

variable {w : World} {env : Surroundings} {pl : PipelineSnapshot} {table : ℕ → List Row}

theorem sqlPlan_items_eq_ok_iff
    {transformer : Transformer} {rows : List Row} {items : List Item} :
    (sqlPlan w pl transformer).items w rows = .ok items ↔
      ∃ res, transformer.transform w.modules rows = .ok res ∧
        (resolve_writer pl.target_table).write w.storeRow pl.target_table res.rows =
          .ok items := by
  simp only [FullPlan.items, sqlPlan, bind_eq_ok_iff]

/-- A run behind its checks reads the windows behind the rows it has fetched. -/
theorem run_sql_eq_windowRun
    {transformer : Transformer} (hchecks : sqlChecks pl = .ok transformer)
    (hsource : ∀ i, env.source (i + 1) (baseQuery (pl.source_query.getD "")) = .ok (table i))
    (sink : Sink) :
    ∃ plan, plan = sqlPlan w pl transformer ∧ plan.limit = batchSizeOr pl.batch_size ∧
      ∀ fuel, withoutOffsets (run_sql_full_pipeline w env pl fuel (Session.opened sink)) =
        windowRun w env plan (fun i => window plan.limit (followed plan.limit table i) (table i))
          fuel 0 0 0 (Session.opened sink) := by
  refine ⟨_, rfl, rfl, fun fuel => ?_⟩
  rw [run_sql_eq_checks, hchecks, ofExcept_ok, pure_bind]
  exact pageLoop_eq_windowRun (sqlPlan w pl transformer) behindRows
    (followed (sqlPlan w pl transformer).limit table) hsource (fun _ => rfl) rfl fuel 0 0 0

/--
**A full run covers an append-only source.**  If a run that is not paused ends
without raising, its batches are the source as its last, empty query found it,
each row once and in order, and the sink has got their items in this order.  If
nothing is appended, the run ends.
-/
theorem full_run_covers
    (w : World) (env : Surroundings) (pl : PipelineSnapshot) (table : ℕ → List Row)
    (sink : Sink)
    (hsource : ∀ i, env.source (i + 1) (baseQuery (pl.source_query.getD "")) = .ok (table i))
    (hgrow : ∀ i, table i <+: table (i + 1))
    (hunpaused : ∀ i, env.status i ≠ .PAUSE_REQUESTED) :
    (∀ fuel totals s',
      run_sql_full_pipeline w env pl fuel (Session.opened sink) = .ok (some totals) s' →
        Covers w pl table sink totals s') ∧
      ((∀ i, table i = table 0) → ∀ fuel, (table 0).length < fuel →
        (∃ exc s', run_sql_full_pipeline w env pl fuel (Session.opened sink) = .error exc s') ∨
          ∃ totals s',
            run_sql_full_pipeline w env pl fuel (Session.opened sink) = .ok (some totals) s') := by
  cases hchecks : sqlChecks pl with
  | error exc =>
      have hrun : ∀ fuel, run_sql_full_pipeline w env pl fuel (Session.opened sink) =
          .error exc (Session.opened sink) := by
        intro fuel
        rw [run_sql_eq_checks, hchecks]
        rfl
      refine ⟨fun fuel totals s' hok => ?_, fun _ fuel _ => .inl ⟨exc, _, hrun fuel⟩⟩
      rw [hrun] at hok
      cases hok
  | ok transformer =>
      obtain ⟨plan, hplan, hlimit, hrun⟩ := run_sql_eq_windowRun (w := w) hchecks hsource sink
      have hresolved : resolve_transformer pl = .ok transformer := by
        simp only [sqlChecks, check_eq_ok_iff] at hchecks
        exact hchecks.2.2
      have hpos : 0 < plan.limit := hlimit ▸ batchSizeOr_pos _
      constructor
      · intro fuel totals s' hok
        have hwindows := hrun fuel
        rw [hok] at hwindows
        obtain ⟨n, itemss, hlen, hlast, hflat, hserved, rfl, hsink⟩ :=
          windowRun_covers hgrow hpos hunpaused hwindows.symm
        rw [pagesRead_withoutOffsets] at hlen hlast hflat hserved
        refine ⟨⟨n, hlen, hlast, hflat, rfl⟩, transformer, itemss, hresolved, ?_, rfl, hsink⟩
        refine hserved.imp fun rows items hitems => ?_
        rw [hplan] at hitems
        exact sqlPlan_items_eq_ok_iff.mp hitems
      · intro hstill fuel hfuel
        have hwindows := hrun fuel
        cases hresult : run_sql_full_pipeline w env pl fuel (Session.opened sink) with
        | error exc s' =>
            exact .inl ⟨exc, s', rfl⟩
        | ok answer s' =>
            cases answer with
            | some totals =>
                exact .inr ⟨totals, s', rfl⟩
            | none =>
                rw [hresult] at hwindows
                have hne := ne_nil_of_windowRun_eq_none hwindows.symm
                simp only [Nat.zero_add] at hne
                have hle := le_followed hne
                have hread : followed plan.limit table fuel ≤ (table fuel).length :=
                  Appended.followed_le hgrow
                rw [hstill fuel] at hread
                omega

/-! ### A film that is added during the run -/

/-- One film, and a second one behind it from the second query on. -/
def growingFilms : ℕ → List Row
  | 0 => [filmExample]
  | _ + 1 => twoFilms

theorem growingFilms_appended
    (i : ℕ) :
    growingFilms i <+: growingFilms (i + 1) := by
  cases i with
  | zero =>
      exact List.prefix_append [filmExample] _
  | succ i =>
      exact List.prefix_rfl

/-- What a run sees of them. -/
def whileFilmsGrow : Surroundings where
  source := fun batch_no => filmSource (growingFilms (batch_no - 1))
  status := fun _ => .RUNNING

theorem whileFilmsGrow_source
    (i : ℕ) :
    whileFilmsGrow.source (i + 1)
        (baseQuery ((snapshot_pipeline (filmPipeline .full 2 .RUNNING)).source_query.getD "")) =
      .ok (growingFilms i) := by
  have hquery : baseQuery
      ((snapshot_pipeline (filmPipeline .full 2 .RUNNING)).source_query.getD "") = filmQuery := by
    decide +kernel
  rw [hquery]
  rfl

/-- The second film comes while a short batch is being written. -/
theorem full_run_covers_growing_films :
    ∃ s', run_sql_full_pipeline World.plain whileFilmsGrow
        (snapshot_pipeline (filmPipeline .full 2 .RUNNING)) 3 (Session.opened fun _ => none) =
          .ok (some (2, 2)) s' ∧
      Covers World.plain (snapshot_pipeline (filmPipeline .full 2 .RUNNING)) growingFilms
        (fun _ => none) (2, 2) s' := by
  refine ⟨_, rfl, ?_⟩
  exact (full_run_covers World.plain whileFilmsGrow _ growingFilms (fun _ => none)
    whileFilmsGrow_source growingFilms_appended (fun _ h => by cases h)).1 3 _ _ rfl

end SqlRunner

end FullRuns
end EtlPlatform
