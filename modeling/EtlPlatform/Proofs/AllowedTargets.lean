import EtlPlatform.Proofs.BatchRule
import EtlPlatform.Proofs.SinkRows

/-!
# The allowlist of targets

A target string is stripped, tested for its prefix and dispatched in several
places of the source.  `destinationOf` says once where the rows for it go; the
allowlist, the choice of the writer and the writers themselves all agree with
it.  Whatever strings a pipeline and its tasks carry, a runner therefore writes
to the allowed tables and indexes only, and so does the platform as a whole, in
every run.
-/

namespace EtlPlatform

open Library

/-! ## Destinations -/

/-- Where rows are physically written to. -/
inductive Destination where
  | table (name : String)
  | index (name : String)
deriving DecidableEq

/-- The destination a cell belongs to. -/
def Cell.destination : Cell → Destination
  | .row table _ => .table table
  | .field index _ _ => .index index

/-- The destination is on the allowlist. -/
def Destination.Allowed : Destination → Prop
  | .table name => name ∈ ALLOWED_TARGET_TABLES
  | .index name => name ∈ ALLOWED_ES_INDEXES

/-- The target without surrounding white space and, for Elasticsearch, without its prefix. -/
def destinationOf (target : String) : Destination :=
  if PyText.startswith (PyText.strip target) ES_TARGET_PREFIX then
    .index (PyText.strip (PyText.removeprefix (PyText.strip target) ES_TARGET_PREFIX))
  else .table (PyText.strip target)

/-- No table of the allowlist looks like an index, and no index is empty. -/
theorem allowlist_wellFormed :
    (∀ table ∈ ALLOWED_TARGET_TABLES, PyText.startswith table ES_TARGET_PREFIX = false) ∧
      "" ∉ ALLOWED_ES_INDEXES := by
  decide

/-- **The allowlist speaks about destinations.** -/
theorem is_allowed_target_iff
    (target : String) :
    is_allowed_target target = true ↔ (destinationOf target).Allowed := by
  obtain ⟨htables, hindexes⟩ := allowlist_wellFormed
  cases hpre : PyText.startswith (PyText.strip target) ES_TARGET_PREFIX with
  | true =>
      have hnot : PyText.strip target ∉ ALLOWED_TARGET_TABLES := by
        intro hmem
        exact absurd hpre (by rw [htables _ hmem]; decide)
      simp only [is_allowed_target, destinationOf, Destination.Allowed, hpre, hnot, if_true,
        if_false, Bool.and_eq_true, decide_eq_true_eq, and_iff_right_iff_imp]
      intro hmem hnil
      exact hindexes (hnil ▸ hmem)
  | false =>
      simp [is_allowed_target, destinationOf, Destination.Allowed, hpre]

/-- The two stripping tests agree. -/
@[simp] theorem is_allowed_target_strip
    (target : String) :
    is_allowed_target (PyText.strip target) = is_allowed_target target := by
  rw [is_allowed_target, is_allowed_target, PyText.strip_strip]

/-! ## Writers -/

section Writers

/-- The columns a writer cannot do without. -/
def requiredColumns : Destination → List String
  | .table name =>
      if name = "analytics.film_rating_agg" then ["film_id", "avg_rating", "rating_count"]
      else ["film_id", "title"]
  | .index _ => ["film_id"]

/-- The row has the columns its destination requires, and a table takes them. -/
structure WellFormed (store : StoreRow) (d : Destination) (r : Row) : Prop where
  columns : ∀ name ∈ requiredColumns d, ∃ v, r.get? name = some v
  stored : ∀ table payload, d = .table table → PostgresWriter.payload table r = .ok payload →
    ∃ columns, store table payload = .ok columns

variable {store : StoreRow} {target : String} {r : Row} {item : Item}

/-- What the chosen writer does with a row of an allowed target. -/
theorem Writer.item_of_allowed
    (hallowed : is_allowed_target target = true) :
    (resolve_writer target).item store target r =
      match destinationOf target with
      | .table name => PostgresWriter.item store name r
      | .index name => ElasticsearchWriter.item name r := by
  have hdest := hallowed
  rw [is_allowed_target_iff] at hdest
  cases hpre : PyText.startswith (PyText.strip target) ES_TARGET_PREFIX with
  | true =>
      have hne : PyText.strip (PyText.removeprefix (PyText.strip target) ES_TARGET_PREFIX) ≠ "" := by
        intro hnil
        simp only [destinationOf, hpre, if_true, hnil] at hdest
        exact allowlist_wellFormed.2 hdest
      simp only [resolve_writer, Writer.item, destinationOf, ElasticsearchWriter._index_from_target,
        hpre, is_allowed_target_strip, hallowed, if_true, if_neg hne]
      rfl
  | false =>
      simp only [resolve_writer, Writer.item, destinationOf, hpre, is_allowed_target_strip,
        hallowed, if_true, if_false, Bool.false_eq_true]

/-- A target that is not allowed is refused, whatever the row. -/
theorem Writer.item_of_not_allowed
    (hallowed : is_allowed_target target = false) (wr : Writer) :
    wr.item store target r =
      .error (valueError ("target_table '" ++ PyText.strip target ++ "' is not allowed")) := by
  simp only [Writer.item, is_allowed_target_strip, hallowed, if_false, Bool.false_eq_true]

/-- **An item goes to the destination of its target**, which is allowed. -/
theorem Writer.item_destination
    (h : (resolve_writer target).item store target r = .ok item) :
    (destinationOf target).Allowed ∧ ∀ a ∈ item, a.1.destination = destinationOf target := by
  cases hallowed : is_allowed_target target with
  | false =>
      rw [Writer.item_of_not_allowed hallowed] at h
      cases h
  | true =>
      rw [← is_allowed_target_iff]
      refine ⟨hallowed, ?_⟩
      rw [Writer.item_of_allowed hallowed] at h
      cases hdest : destinationOf target with
      | table name =>
          rw [hdest] at h
          obtain ⟨cols, k, data, -, -, rfl⟩ := PostgresWriter.item_eq_ok h
          intro a ha
          rw [List.mem_singleton.mp ha]
          rfl
      | index name =>
          rw [hdest] at h
          obtain ⟨v, -, rfl⟩ := ElasticsearchWriter.item_eq_ok h
          intro a ha
          obtain ⟨c, -, rfl⟩ := List.mem_map.mp ha
          rfl

/-- A table of the allowlist has a payload for every row with its columns. -/
theorem PostgresWriter.payload_of_columns
    {name : String} (hname : name ∈ ALLOWED_TARGET_TABLES)
    (hcolumns : ∀ column ∈ requiredColumns (.table name), ∃ v, r.get? column = some v) :
    ∃ payload, PostgresWriter.payload name r = .ok payload := by
  have hget : ∀ column ∈ requiredColumns (.table name), ∃ v, r.getItem column = .ok v := by
    intro column hcolumn
    obtain ⟨v, hv⟩ := hcolumns column hcolumn
    exact ⟨v, by rw [Row.getItem, hv]⟩
  simp only [ALLOWED_TARGET_TABLES, List.mem_cons, List.not_mem_nil, or_false] at hname
  rcases hname with rfl | rfl
  · obtain ⟨film_id, hid⟩ := hget "film_id" (by decide)
    obtain ⟨title, htitle⟩ := hget "title" (by decide)
    exact ⟨_, by rw [PostgresWriter.payload, if_pos rfl, hid, htitle]; rfl⟩
  · obtain ⟨film_id, hid⟩ := hget "film_id" (by decide)
    obtain ⟨avg_rating, havg⟩ := hget "avg_rating" (by decide)
    obtain ⟨rating_count, hcount⟩ := hget "rating_count" (by decide)
    exact ⟨_, by
      rw [PostgresWriter.payload, if_neg (by decide), if_pos rfl, hid, havg, hcount]; rfl⟩

/-- A well-formed row is refused only for its target. -/
theorem Writer.exists_item_iff
    (hrow : WellFormed store (destinationOf target) r) :
    (∃ item, (resolve_writer target).item store target r = .ok item) ↔
      is_allowed_target target = true := by
  constructor
  · rintro ⟨item, hitem⟩
    obtain ⟨hdest, -⟩ := Writer.item_destination hitem
    rwa [is_allowed_target_iff]
  · intro hallowed
    have hdest := hallowed
    rw [is_allowed_target_iff] at hdest
    rw [Writer.item_of_allowed hallowed]
    obtain ⟨hcolumns, hstored⟩ := hrow
    cases hname : destinationOf target with
    | table name =>
        rw [hname] at hdest hcolumns hstored
        obtain ⟨payload, hpayload⟩ := PostgresWriter.payload_of_columns hdest hcolumns
        obtain ⟨columns, hcols⟩ := hstored name payload rfl hpayload
        refine ⟨[(.row name columns.1, .columns columns.2)], ?_⟩
        exact bind_eq_ok_iff.mpr ⟨payload, hpayload, bind_eq_ok_iff.mpr ⟨columns, hcols, rfl⟩⟩
    | index name =>
        rw [hname] at hcolumns
        obtain ⟨v, hv⟩ := hcolumns "film_id" (List.mem_singleton.mpr rfl)
        exact ⟨_, by
          simp only [ElasticsearchWriter.item, ElasticsearchWriter._id_field_for_index, hv]
          rfl⟩

end Writers

/-! ## Runners -/

section Runners

variable {P : Type} [DecidableEq P]

/-- The loop of one of the four runners, on any snapshot. -/
def RunnerLoop (w : World) (p : P) (pl : PipelineSnapshot) (bl : BatchLoop P) : Prop :=
  run_sql_full_pipeline w pl = .ok bl ∨ run_sql_incremental_pipeline w p pl = .ok bl ∨
    run_tasks_full w pl = .ok bl ∨ run_tasks_incremental w p pl = .ok bl

/-- The items stay on the allowlist. -/
def Confined (items : List Item) : Prop :=
  ∀ item ∈ items, ∀ a ∈ item, a.1.destination.Allowed

/-- Every loop writes for one target, with the writer that target gets, and puts nothing but
its own checkpoint next to the upserts. -/
theorem RunnerLoop.writes
    {w : World} {p : P} {pl : PipelineSnapshot} {bl : BatchLoop P} (h : RunnerLoop w p pl bl) :
    (∃ target, bl.write = (resolve_writer target).write w.storeRow target) ∧
      ∀ v rows left n v' ws, bl.advance v rows left n = .ok (v', ws) →
        ws = [] ∨ ∃ e, ws = [.state p e] := by
  rcases h with h | h | h | h
  · simp only [run_sql_full_pipeline, check_eq_ok_iff, bind_eq_ok_iff, pure_eq_ok_iff] at h
    obtain ⟨-, -, tr, -, rfl⟩ := h
    refine ⟨⟨pl.target_table, by dsimp only⟩, fun v rows left n v' ws hadv => Or.inl ?_⟩
    exact (Prod.mk.inj (Except.ok.inj hadv)).2.symm
  · obtain ⟨tr, -, rfl⟩ := run_sql_incremental_pipeline_eq_ok h
    refine ⟨⟨pl.target_table, by simp only [IncrementalPlan.loop, sqlPlan]⟩,
      fun v rows left n v' ws hadv => Or.inr ?_⟩
    obtain ⟨c, -, -, rfl⟩ := IncrementalPlan.advanceIncremental_eq_ok hadv
    exact ⟨_, rfl⟩
  · cases htasks : pl.tasks with
    | nil =>
        simp only [run_tasks_full, htasks] at h
        cases h
    | cons reader rest =>
        simp only [run_tasks_full, htasks, check_eq_ok_iff, bind_eq_ok_iff, pure_eq_ok_iff] at h
        obtain ⟨-, fns, -, rfl⟩ := h
        refine ⟨⟨finalTarget pl, by dsimp only⟩, fun v rows left n v' ws hadv => Or.inl ?_⟩
        exact (Prod.mk.inj (Except.ok.inj hadv)).2.symm
  · obtain ⟨reader, rest, fns, -, -, rfl⟩ := run_tasks_incremental_eq_ok h
    refine ⟨⟨finalTarget pl, by simp only [IncrementalPlan.loop, tasksPlan]⟩,
      fun v rows left n v' ws hadv => Or.inr ?_⟩
    obtain ⟨c, -, -, rfl⟩ := IncrementalPlan.advanceIncremental_eq_ok hadv
    exact ⟨_, rfl⟩

/-- No upsert is among what an advance adds. -/
theorem RunnerLoop.advance_no_upsert
    {w : World} {p : P} {pl : PipelineSnapshot} {bl : BatchLoop P} (h : RunnerLoop w p pl bl)
    {v v' : LoopVars} {rows left : List Row} {n : ℕ} {ws : List (Write P)}
    (hadv : bl.advance v rows left n = .ok (v', ws)) (item : Item) :
    .upsert item ∉ ws := by
  rcases h.writes.2 v rows left n v' ws hadv with rfl | ⟨e, rfl⟩ <;> simp

/-- The body of an attempt runs one of the four. -/
theorem runnerLoop_of_run_body
    {w : World} {p : P} {pl : PipelineSnapshot} {bl : BatchLoop P}
    (h : _run_body w p pl = .ok bl) :
    ∃ snap, RunnerLoop w p snap bl := by
  unfold _run_body at h
  split_ifs at h with htasks
  · obtain ⟨snap, -, h⟩ := bind_eq_ok_iff.mp h
    refine ⟨snap, ?_⟩
    cases hmode : snap.mode with
    | full =>
        rw [hmode] at h
        exact Or.inr (Or.inr (Or.inl h))
    | incremental =>
        rw [hmode] at h
        exact Or.inr (Or.inr (Or.inr h))
  · refine ⟨pl, ?_⟩
    cases hmode : pl.mode with
    | full =>
        rw [hmode] at h
        exact Or.inl h
    | incremental =>
        rw [hmode] at h
        exact Or.inr (Or.inl h)

/-- What a loop writes is confined. -/
theorem RunnerLoop.confined
    {w : World} {p : P} {pl : PipelineSnapshot} {bl : BatchLoop P} (h : RunnerLoop w p pl bl)
    {rows : List Row} {items : List Item} (hitems : bl.write rows = .ok items) :
    Confined items := by
  obtain ⟨⟨target, hwrite⟩, -⟩ := h.writes
  rw [hwrite, Writer.write_eq_ok_iff] at hitems
  intro item hitem a ha
  obtain ⟨r, -, hr⟩ := mem_of_mapM hitems hitem
  obtain ⟨hallowed, hdest⟩ := Writer.item_destination hr
  rwa [hdest a ha]

/--
**Writes never leave the allowlist, and the allowlist is what the writers
accept.**  Every item of the four runners goes to an allowed table or index.
The writer chosen for a target takes a batch of well-formed rows if and only if
the target is allowed, and then writes to the destination of the target.
-/
theorem writes_on_allowlist
    (w : World) (p : P) :
    (∀ pl bl rows items, RunnerLoop w p pl bl → bl.write rows = .ok items → Confined items) ∧
      ∀ target rows, rows ≠ [] →
        (∀ r ∈ rows, WellFormed w.storeRow (destinationOf target) r) →
        ((∃ items, (resolve_writer target).write w.storeRow target rows = .ok items) ↔
            is_allowed_target target = true) ∧
          ∀ items, (resolve_writer target).write w.storeRow target rows = .ok items →
            ∀ item ∈ items, ∀ a ∈ item, a.1.destination = destinationOf target := by
  refine ⟨fun pl bl rows items h hitems => h.confined hitems, ?_⟩
  intro target rows hne hrows
  simp only [Writer.write_eq_ok_iff]
  refine ⟨⟨?_, ?_⟩, ?_⟩
  · rintro ⟨items, hitems⟩
    obtain ⟨r, hr⟩ := List.exists_mem_of_ne_nil rows hne
    obtain ⟨item, -, hitem⟩ := exists_mem_of_mapM hitems hr
    exact (Writer.exists_item_iff (hrows r hr)).mp ⟨item, hitem⟩
  · intro hallowed
    exact exists_mapM_eq_ok fun r hr => (Writer.exists_item_iff (hrows r hr)).mpr hallowed
  · intro items hitems item hitem a ha
    obtain ⟨r, -, hr⟩ := mem_of_mapM hitems hitem
    exact (Writer.item_destination hr).2 a ha

theorem wellFormed_filmExample
    {target : String} (h : destinationOf target ≠ .table "analytics.film_rating_agg") :
    WellFormed storeAsGiven (destinationOf target) filmExample where
  columns := by
    intro name hname
    cases hdest : destinationOf target with
    | index index =>
        rw [hdest] at hname
        exact ⟨.text "f1", by rw [List.mem_singleton.mp hname]; rfl⟩
    | table table =>
        have htable : table ≠ "analytics.film_rating_agg" := fun heq => h (heq ▸ hdest)
        simp only [hdest, requiredColumns, if_neg htable, List.mem_cons, List.not_mem_nil,
          or_false] at hname
        rcases hname with rfl | rfl
        · exact ⟨.text "f1", rfl⟩
        · exact ⟨.text "Alien", rfl⟩
  stored _ _ _ _ := ⟨_, rfl⟩

/-- The film pipeline, with blanks around the index it writes to. -/
def filmToBlanks : PipelineSnapshot :=
  { snapshot_pipeline (filmPipeline .full 2 .RUN_REQUESTED) with target_table := " es: film_dim " }

theorem filmToBlanks_loop :
    ∃ bl, RunnerLoop World.plain () filmToBlanks bl ∧
      bl.write = (resolve_writer " es: film_dim ").write World.plain.storeRow " es: film_dim " :=
  ⟨_, Or.inl rfl, rfl⟩

/-- Blanks around an index are harmless, a prefix in capitals is refused. -/
theorem writes_on_allowlist_blanks_and_capitals :
    (∃ (bl : BatchLoop Unit) (items : List Item), RunnerLoop World.plain () filmToBlanks bl ∧
      bl.write [filmExample] = .ok items ∧ Confined items ∧
      ∀ item ∈ items, ∀ a ∈ item, a.1.destination = .index "film_dim") ∧
    ¬ ∃ items, (resolve_writer "ES:film_dim").write World.plain.storeRow "ES:film_dim"
      [filmExample] = .ok items := by
  obtain ⟨hconfined, hwriter⟩ := writes_on_allowlist World.plain ()
  have hrows : ∀ target, destinationOf target ≠ .table "analytics.film_rating_agg" →
      ∀ r ∈ [filmExample], WellFormed World.plain.storeRow (destinationOf target) r :=
    fun target htarget => List.forall_mem_singleton.mpr (wellFormed_filmExample htarget)
  have hblanks := hwriter " es: film_dim " [filmExample] (List.cons_ne_nil _ _)
    (hrows _ (by decide +kernel))
  have hcapitals := hwriter "ES:film_dim" [filmExample] (List.cons_ne_nil _ _)
    (hrows _ (by decide +kernel))
  have hindex : destinationOf " es: film_dim " = .index "film_dim" := by
    decide +kernel
  obtain ⟨bl, hloop, hwrite⟩ := filmToBlanks_loop
  obtain ⟨items, hitems⟩ := hblanks.1.mpr (by decide +kernel)
  refine ⟨⟨bl, items, hloop, ?_, ?_, ?_⟩, fun h => absurd (hcapitals.1.mp h) (by decide +kernel)⟩
  · rw [hwrite, hitems]
  · exact hconfined _ bl _ items hloop (by rw [hwrite, hitems])
  · rw [← hindex]
    exact hblanks.2 items hitems

end Runners

/-! ## Runs of the platform -/

section Runs

variable {ι P : Type} [DecidableEq ι] [DecidableEq P]

/-- Items on the allowlist leave every other cell alone. -/
theorem applyItems_of_confined
    {sink : Sink} {items : List Item} (h : Confined items) {cell : Cell}
    (hcell : ¬ cell.destination.Allowed) :
    applyItems sink items cell = sink cell := by
  rw [applyItems, assignAll_of_not_mem]
  intro hmem
  obtain ⟨a, ha, rfl⟩ := List.mem_map.mp hmem
  obtain ⟨item, hitem, hin⟩ := List.mem_flatten.mp ha
  exact hcell (h item hitem a hin)

/-- The upserts of an open transaction stay on the allowlist. -/
def ConfinedWrites (ws : List (Write P)) : Prop :=
  ∀ item, Write.upsert item ∈ ws → ∀ a ∈ item, a.1.destination.Allowed

/-- So does their commit. -/
theorem commit_of_confined
    {st : Store P} {ws : List (Write P)} (h : ConfinedWrites ws) {cell : Cell}
    (hcell : ¬ cell.destination.Allowed) :
    (st.commit ws).sink cell = st.sink cell := by
  induction ws generalizing st with
  | nil =>
      rfl
  | cons wr ws ih =>
      have htail : ConfinedWrites ws := fun item hitem => h item (List.mem_cons_of_mem _ hitem)
      have hhead : (st.write wr).sink cell = st.sink cell := by
        cases wr with
        | state p e =>
            rfl
        | upsert item =>
            have hitem : Confined [item] := by
              intro item' hitem'
              rw [List.mem_singleton.mp hitem']
              exact h item List.mem_cons_self
            have happly : applyItems st.sink [item] cell = st.sink cell :=
              applyItems_of_confined hitem hcell
            rw [applyItems, List.flatten_singleton] at happly
            exact happly
      exact (ih htail).trans hhead

/-- The sink off the allowlist, under any loop of the four runners. -/
def confinement (w : World) (k₀ : Sink) :
    BatchInvariant (P := P) (fun p bl => ∃ pl, RunnerLoop w p pl bl) (fun _ _ => True) where
  idle st := ∀ cell : Cell, ¬ cell.destination.Allowed → st.sink cell = k₀ cell
  holds _ st ws _ :=
    (∀ cell : Cell, ¬ cell.destination.Allowed → st.sink cell = k₀ cell) ∧ ConfinedWrites ws
  idle_of_holds _ _ _ _ h := h.1
  idle_source _ _ h _ := h
  holds_source _ _ _ _ _ h _ := h
  setup _ _ _ _ _ h _ := ⟨h, by simp [ConfinedWrites]⟩
  query _ _ _ _ _ _ h _ _ := h
  transform _ _ _ _ _ _ _ h _ := h
  skip _ _ _ _ _ h _ := h
  session _ _ _ _ _ _ _ hruns h _ hitems _ := by
    obtain ⟨pl, hruns⟩ := hruns
    refine ⟨h.1, fun item hitem => ?_⟩
    simp only [List.mem_map, Write.upsert.injEq, exists_eq_right] at hitem
    exact hruns.confined hitems item hitem
  direct _ _ _ _ _ _ _ hruns h _ hitems _ := by
    obtain ⟨pl, hruns⟩ := hruns
    exact ⟨fun cell hcell =>
      (applyItems_of_confined (hruns.confined hitems) hcell).trans (h.1 cell hcell), h.2⟩
  interrupted _ _ _ _ _ _ _ _ hruns h _ hitems _ hpart cell hcell := by
    obtain ⟨pl, hruns⟩ := hruns
    have hconfined : Confined _ := fun item hitem =>
      hruns.confined hitems item (hpart.subset hitem)
    exact (applyItems_of_confined hconfined hcell).trans (h.1 cell hcell)
  advance _ _ _ _ _ _ _ _ _ _ hruns h hadv := by
    obtain ⟨pl, hruns⟩ := hruns
    refine ⟨h.1, fun item hitem => ?_⟩
    rcases List.mem_append.mp hitem with hitem | hitem
    · exact h.2 item hitem
    · exact absurd hitem (hruns.advance_no_upsert hadv item)
  commit _ _ _ _ h := by
    refine ⟨fun cell hcell => ?_, by simp [ConfinedWrites]⟩
    rw [commit_of_confined h.2 hcell]
    exact h.1 cell hcell

/-- **The platform writes nothing off the allowlist**: any number of runners, any requests,
configurations and crashes. -/
theorem sink_off_allowlist_of_reach
    {w : World} {s₀ s : Sys ι P} (hrest : s₀.Resting)
    (h : Reach (Sys.step w) (fun s => s = s₀) (fun _ _ => True) s) {cell : Cell}
    (hcell : ¬ cell.destination.Allowed) :
    s.db.store.sink cell = s₀.db.store.sink cell := by
  refine BatchInvariant.idle_of_reach (I := confinement w s₀.db.store.sink) ?_ ?_
    (fun _ _ => trivial) hrest (fun _ _ => rfl) h cell hcell
  · intro p pl bl hbody
    exact runnerLoop_of_run_body hbody
  · intro p st st' ws pc hholds hidle
    exact ⟨hidle, hholds.2⟩

end Runs

end EtlPlatform
