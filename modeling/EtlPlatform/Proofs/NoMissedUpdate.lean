import EtlPlatform.Model.Deployment
import EtlPlatform.Proofs.BatchRule
import EtlPlatform.Proofs.SinkRows

/-!
# Incremental mode misses no update

The source gives every row it inserts or replaces a key above all keys it
holds, and `run_sql_incremental_pipeline` follows it by its checkpoint.  Then
every source row up to the committed checkpoint is in the sink in its current
version, and the checkpoint never moves back: whatever the source does between
two statements of a batch, and wherever an attempt fails, is retried, paused or
killed.
-/

namespace EtlPlatform

open Library
open IncrementalPlan

section Configuration

/-- The plan of a pipeline without tasks whose rows pass through unchanged. -/
def passThroughPlan (pl : PipelineSnapshot) : IncrementalPlan :=
  sqlPlan pl (fun rows => .ok (NoOpTransformer rows))

theorem resolve_transformer_noOp
    {pl : PipelineSnapshot} {tr : Transformer}
    (htype : pl.type ≠ .PYTHON) (h : resolve_transformer pl = .ok tr) :
    tr = .noOp := by
  rw [resolve_transformer, if_pos htype] at h
  exact (Except.ok.inj h).symm

theorem loop_eq_passThroughPlan
    {P : Type} [DecidableEq P] {w : World} {p : P} {pl : PipelineSnapshot} {bl : BatchLoop P}
    (htasks : pl.tasks = []) (hmode : pl.mode = .incremental) (htype : pl.type ≠ .PYTHON)
    (h : _run_body w p pl = .ok bl) :
    bl = (passThroughPlan pl).loop w p := by
  rw [run_body_of_no_tasks w p htasks hmode] at h
  obtain ⟨tr, htr, rfl⟩ := run_sql_incremental_pipeline_eq_ok h
  obtain rfl := resolve_transformer_noOp htype htr
  rfl

end Configuration

section NoMissedUpdate

variable (w : World) (τ : IdType) (pl : PipelineSnapshot)

/-- The item the writer of the pipeline sends for a row. -/
def sinkItem : Row → Except Exc Item :=
  (resolve_writer pl.target_table).item w.storeRow pl.target_table

/-- The position of a row in the feed of the pipeline. -/
abbrev feedKey : Row → List ℤ ×ₗ ℚ :=
  rowKey w.collation (incKey pl)

abbrev feedId : Row → List ℤ ×ₗ ℚ :=
  rowId w.collation (idKey pl)

/-- The source table of the pipeline: all rows keep the contract, no two share an id. -/
structure FeedTable (src : Source) (table : List Row) : Prop where
  answers : src (baseQuery (pl.source_query.getD "")) = .ok table
  keyed : ∀ r ∈ table, Keyed τ (incKey pl) (idKey pl) r
  distinct : (table.map (feedId w pl)).Nodup

/-- The source inserts or replaces rows, with keys above all it holds. -/
def FeedGrows (src src' : Source) : Prop :=
  ∀ table, FeedTable w τ pl src table →
    ∃ table', FeedTable w τ pl src' table' ∧ Touch (feedKey w pl) (feedId w pl) table table'

/-- **No missed update.**  Every source row up to the committed checkpoint is in the sink
in its current version. -/
def NoMissedUpdate (st : Store Unit) : Prop :=
  ∀ table, FeedTable w τ pl st.source table →
    Covered (feedKey w pl) (feedId w pl) (InSink (sinkItem w pl) st.sink) table
      (checkpoint w.collation τ (st.etl_state ()))

/-- Some source row has at least the key of the committed checkpoint. -/
def CheckpointHeld (st : Store Unit) : Prop :=
  ∀ table, FeedTable w τ pl st.source table →
    Held (feedKey w pl) table (checkpoint w.collation τ (st.etl_state ()))

/-- What holds between any two steps, with a bound the checkpoint has passed. -/
structure Followed (bound : WithBot FeedPosition) (st : Store Unit) : Prop where
  feeds : ∃ table, FeedTable w τ pl st.source table
  covered : NoMissedUpdate w τ pl st
  held : CheckpointHeld w τ pl st
  passed : bound ≤ checkpoint w.collation τ (st.etl_state ())

/-- The batch in the hands of the loop is a window of the feed. -/
def Reading (st : Store Unit) (rows : List Row) : Prop :=
  ∃ tail, rows.getLast? = some tail ∧ (∀ r ∈ rows, Keyed τ (incKey pl) (idKey pl) r) ∧
    ∀ table, FeedTable w τ pl st.source table →
      Window (feedKey w pl) (feedId w pl) table rows
        (checkpoint w.collation τ (st.etl_state ()))
        (position (feedKey w pl) (feedId w pl) tail)

/-- What the loop has in hand at each of its await points. -/
def FeedInFlight (st : Store Unit) (ws : List (Write Unit)) : LoopPc → Prop
  | .fetch v => decodeState (st.etl_state ()) = .ok v.cursor
  | .transform _ rows => Reading w τ pl st rows
  | .write _ rows res => Reading w τ pl st rows ∧ res = NoOpTransformer rows
  | .advance _ rows left _ =>
      Reading w τ pl st rows ∧ left = rows ∧ (st.commit ws).etl_state = st.etl_state ∧
        NoMissedUpdate w τ pl (st.commit ws) ∧
        ∀ r ∈ rows, InSink (sinkItem w pl) (st.commit ws).sink r
  | .commit v =>
      decodeState ((st.commit ws).etl_state ()) = .ok v.cursor ∧
        Followed w τ pl (checkpoint w.collation τ (st.etl_state ())) (st.commit ws)
  | _ => False

variable {w τ pl}

theorem FeedTable.unique
    {src : Source} {table table' : List Row}
    (h : FeedTable w τ pl src table) (h' : FeedTable w τ pl src table') :
    table = table' :=
  Except.ok.inj (h.answers.symm.trans h'.answers)

theorem checkpoint_of_fresh
    {st : Store Unit} (h : st.etl_state () = none) :
    checkpoint w.collation τ (st.etl_state ()) = ⊥ := by
  rw [h]
  rfl

/-- A pipeline without a checkpoint has missed nothing. -/
theorem NoMissedUpdate.of_fresh
    {st : Store Unit} (h : st.etl_state () = none) :
    NoMissedUpdate w τ pl st := by
  intro table _
  rw [checkpoint_of_fresh h]
  exact covered_bot _ _

theorem CheckpointHeld.of_fresh
    {st : Store Unit} (h : st.etl_state () = none) :
    CheckpointHeld w τ pl st := by
  intro table _
  rw [checkpoint_of_fresh h]
  exact held_bot _

/-! ## The source moves -/

theorem NoMissedUpdate.touch
    {st : Store Unit} {src : Source}
    (hfeeds : ∃ table, FeedTable w τ pl st.source table)
    (h : NoMissedUpdate w τ pl st) (hheld : CheckpointHeld w τ pl st)
    (hsrc : FeedGrows w τ pl st.source src) :
    NoMissedUpdate w τ pl { st with source := src } := by
  intro table' htable'
  obtain ⟨table, htable⟩ := hfeeds
  obtain ⟨table'', htable'', htouch⟩ := hsrc table htable
  obtain rfl := htable''.unique htable'
  exact (h table htable).touch (hheld table htable) htouch

theorem Followed.touch
    {bound : WithBot FeedPosition} {st : Store Unit} {src : Source}
    (h : Followed w τ pl bound st) (hsrc : FeedGrows w τ pl st.source src) :
    Followed w τ pl bound { st with source := src } := by
  obtain ⟨⟨table, htable⟩, hcovered, hheld, hpassed⟩ := h
  obtain ⟨table', htable', htouch⟩ := hsrc table htable
  refine ⟨⟨table', htable'⟩, hcovered.touch ⟨table, htable⟩ hheld hsrc, ?_, hpassed⟩
  intro table'' htable''
  obtain rfl := htable'.unique htable''
  exact (hheld table htable).touch htouch

theorem Reading.touch
    {st : Store Unit} {src : Source} {rows : List Row}
    (hfeeds : ∃ table, FeedTable w τ pl st.source table)
    (h : Reading w τ pl st rows) (hsrc : FeedGrows w τ pl st.source src) :
    Reading w τ pl { st with source := src } rows := by
  obtain ⟨tail, hlast, hkeyed, hwindow⟩ := h
  refine ⟨tail, hlast, hkeyed, ?_⟩
  intro table' htable'
  obtain ⟨table, htable⟩ := hfeeds
  obtain ⟨table'', htable'', htouch⟩ := hsrc table htable
  obtain rfl := htable''.unique htable'
  exact (hwindow table htable).touch htouch

/-! ## The loop moves -/

/-- A batch query opens a window behind the checkpoint. -/
theorem reading_of_query
    {st : Store Unit} {v : LoopVars} {rows : List Row}
    (hfeeds : ∃ table, FeedTable w τ pl st.source table)
    (hcursor : decodeState (st.etl_state ()) = .ok v.cursor)
    (hquery : ((passThroughPlan pl).loop w ()).query st v = .ok rows)
    (hne : rows ≠ []) :
    Reading w τ pl st rows := by
  obtain ⟨table, htable⟩ := hfeeds
  obtain ⟨table', hanswers, rfl⟩ := incrementalBatch_eq_ok hquery
  obtain rfl : table' = table := Except.ok.inj (hanswers.symm.trans htable.answers)
  refine ⟨_, List.getLast?_eq_some_getLast hne, fun r hr => htable.keyed r (mem_page _ hr).1, ?_⟩
  intro table'' htable''
  obtain rfl := htable.unique htable''
  rw [checkpoint_of_decodeState hcursor]
  exact Window.of_page (rowLe_iff _ _ _)
    (fun r hr => batchWhere_iff (htable.keyed r hr).toHasKeys v.cursor) htable.distinct hne

/-- Rows of a batch differ in their ids, and so do a row covered before and a row of the
batch. -/
theorem apart_of_rowId_ne
    (hstore : KeepsIds τ w.storeRow) {r r' : Row}
    (hr : Keyed τ (incKey pl) (idKey pl) r) (hr' : Keyed τ (incKey pl) (idKey pl) r')
    (hne : feedId w pl r ≠ feedId w pl r') :
    Apart (sinkItem w pl) r r' :=
  Writer.apart_item hstore hr hr' (fun h => hne ((rowId_eq_iff hr.toHasKeys hr'.toHasKeys).mpr h))

/-- **Delivering a batch**, or a part of it, keeps what was covered. -/
theorem NoMissedUpdate.deliver
    {st : Store Unit} {rows : List Row} {items part : List Item}
    (hstore : KeepsIds τ w.storeRow)
    (h : NoMissedUpdate w τ pl st)
    (hreading : Reading w τ pl st rows)
    (hitems : rows.mapM (sinkItem w pl) = .ok items)
    (hpart : ∀ item ∈ part, item ∈ items) :
    NoMissedUpdate w τ pl { st with sink := applyItems st.sink part } := by
  obtain ⟨tail, -, hkeyed, hwindow⟩ := hreading
  intro table htable
  refine (h table htable).deliver (hwindow table htable) ?_
  intro r hr hid hin
  refine hin.keep hitems hpart (fun b hb => ?_)
  refine apart_of_rowId_ne hstore (htable.keyed r hr) (hkeyed b hb) (fun heq => ?_)
  exact hid (heq ▸ List.mem_map_of_mem hb)

/-- After a complete delivery every row of the batch is in the sink. -/
theorem inSink_of_delivery
    {st : Store Unit} {rows : List Row} {items : List Item}
    (hstore : KeepsIds τ w.storeRow)
    (hfeeds : ∃ table, FeedTable w τ pl st.source table)
    (hreading : Reading w τ pl st rows)
    (hitems : rows.mapM (sinkItem w pl) = .ok items) :
    ∀ r ∈ rows, InSink (sinkItem w pl) (applyItems st.sink items) r := by
  obtain ⟨tail, -, hkeyed, hwindow⟩ := hreading
  obtain ⟨table, htable⟩ := hfeeds
  intro r hr
  refine inSink_of_write (Writer.consistent_item _ _ _) hitems ?_ st.sink hr
  intro b hb b' hb' hne
  refine apart_of_rowId_ne hstore (hkeyed b hb) (hkeyed b' hb') (fun heq => hne ?_)
  exact eq_of_id_eq (hwindow table htable).distinct hb hb' heq

/-- **Storing the checkpoint** of a delivered batch keeps the promise, and moves on. -/
theorem Followed.advance
    {bound : WithBot FeedPosition} {st : Store Unit} {ws : List (Write Unit)} {rows : List Row}
    {c : Cursor}
    (h : Followed w τ pl bound st)
    (hreading : Reading w τ pl st rows)
    (hstate : (st.commit ws).etl_state = st.etl_state)
    (hcovered : NoMissedUpdate w τ pl (st.commit ws))
    (hin : ∀ r ∈ rows, InSink (sinkItem w pl) (st.commit ws).sink r)
    (htail : tailCursor (incKey pl) (idKey pl) rows = .ok c) :
    decodeState ((st.commit (ws ++ [.state () (encodeState c)])).etl_state ()) = .ok (some c) ∧
      Followed w τ pl (checkpoint w.collation τ (st.etl_state ()))
        (st.commit (ws ++ [.state () (encodeState c)])) := by
  obtain ⟨tail, hlast, hkeyed, hwindow⟩ := hreading
  have hmem : tail ∈ rows := List.mem_of_getLast? hlast
  obtain ⟨hpos, hid⟩ :=
    tailCursor_position (C := w.collation) hlast (hkeyed tail hmem).toHasKeys htail
  have hsource : (st.commit ws).source = st.source := Store.commit_source st ws
  have hdecode := decodeState_encodeState hid
  have hmark : checkpoint w.collation τ (some (encodeState c)) =
      (position (feedKey w pl) (feedId w pl) tail : WithBot FeedPosition) := by
    rw [checkpoint_of_decodeState hdecode, mark, hpos]
  rw [Store.commit_append, Store.commit_state]
  simp only [Function.update_self]
  refine ⟨hdecode, ⟨?_, ?_, ?_, ?_⟩⟩
  · rw [hsource]
    exact h.feeds
  · intro table htable
    simp only [Function.update_self, hmark]
    have hbefore := hcovered table htable
    rw [hstate] at hbefore
    rw [hsource] at htable
    exact hbefore.advance (hwindow table htable) hin
  · intro table htable
    simp only [Function.update_self, hmark]
    rw [hsource] at htable
    exact (hwindow table htable).held_last
  · obtain ⟨table, htable⟩ := h.feeds
    simp only [Function.update_self, hmark]
    exact (hwindow table htable).upto

/-- The items of the loop's write are those of its rows. -/
theorem mapM_of_write
    {rows : List Row} {items : List Item}
    (h : ((passThroughPlan pl).loop w ()).write rows = .ok items) :
    rows.mapM (sinkItem w pl) = .ok items := by
  rw [sinkItem, ← Writer.write_eq_ok_iff]
  simpa only [IncrementalPlan.loop, passThroughPlan, sqlPlan] using h

theorem FeedInFlight.touch
    {bound : WithBot FeedPosition} {st : Store Unit} {ws : List (Write Unit)} {pc : LoopPc}
    {src : Source}
    (hidle : Followed w τ pl bound st)
    (h : FeedInFlight w τ pl st ws pc) (hsrc : FeedGrows w τ pl st.source src) :
    FeedInFlight w τ pl { st with source := src } ws pc := by
  have hcommit := Store.commit_with_source st src ws
  cases pc with
  | transform v rows =>
      exact Reading.touch hidle.feeds h hsrc
  | write v rows res =>
      exact ⟨h.1.touch hidle.feeds hsrc, h.2⟩
  | advance v rows left n =>
      obtain ⟨hreading, hleft, hstate, hcovered, hin⟩ := h
      have hsource : (st.commit ws).source = st.source := Store.commit_source st ws
      have hfeeds : ∃ table, FeedTable w τ pl (st.commit ws).source table := by
        rw [hsource]
        exact hidle.feeds
      have hheld : CheckpointHeld w τ pl (st.commit ws) := by
        intro table htable
        rw [hsource] at htable
        rw [hstate]
        exact hidle.held table htable
      refine ⟨hreading.touch hidle.feeds hsrc, hleft, ?_⟩
      rw [hcommit]
      exact ⟨hstate, hcovered.touch hfeeds hheld (hsource ▸ hsrc), hin⟩
  | commit v =>
      have hsource : (st.commit ws).source = st.source := Store.commit_source st ws
      refine ⟨?_, ?_⟩
      · rw [hcommit]
        exact h.1
      · rw [hcommit]
        exact h.2.touch (hsource ▸ hsrc)
  | _ =>
      exact h

/-- **The feed is followed, statement by statement.** -/
def following (τ : IdType) (pl : PipelineSnapshot) (bound : WithBot FeedPosition)
    (hstore : KeepsIds τ w.storeRow) :
    BatchInvariant (fun _ bl => bl = (passThroughPlan pl).loop w ()) (FeedGrows w τ pl) where
  idle st := Followed w τ pl bound st
  holds _ st ws pc := Followed w τ pl bound st ∧ FeedInFlight w τ pl st ws pc
  idle_of_holds _ _ _ _ h := h.1
  idle_source _ _ h hsrc := h.touch hsrc
  holds_source _ _ _ _ _ h hsrc := ⟨h.1.touch hsrc, h.2.touch h.1 hsrc⟩
  setup := by
    rintro p bl st v rfl hidle hsetup
    exact ⟨hidle, setup_eq_ok hsetup⟩
  query := by
    rintro p bl st v rows rfl ⟨hidle, hcursor⟩ hquery hne
    exact ⟨hidle, reading_of_query hidle.feeds hcursor hquery hne⟩
  transform := by
    rintro p bl st v rows res rfl ⟨hidle, hreading⟩ hres
    exact ⟨hidle, hreading, (Except.ok.inj hres).symm⟩
  skip := by
    rintro p st v rows res ⟨hidle, ⟨tail, hlast, -⟩, rfl⟩ hnil
    obtain rfl : rows = [] := hnil
    cases hlast
  session := by
    rintro p bl st v rows res items rfl ⟨hidle, hreading, rfl⟩ - hwrite -
    have hitems := mapM_of_write hwrite
    refine ⟨hidle, hreading, rfl, ?_⟩
    rw [Store.commit_upserts]
    exact ⟨rfl, hidle.covered.deliver hstore hreading hitems (fun _ => id),
      inSink_of_delivery hstore hidle.feeds hreading hitems⟩
  direct := by
    rintro p bl st v rows res items rfl ⟨hidle, hreading, rfl⟩ - hwrite -
    have hitems := mapM_of_write hwrite
    have hcovered := hidle.covered.deliver hstore hreading hitems (fun _ => id)
    exact ⟨⟨hidle.feeds, hcovered, hidle.held, hidle.passed⟩, hreading, rfl, rfl, hcovered,
      inSink_of_delivery hstore hidle.feeds hreading hitems⟩
  interrupted := by
    rintro p bl st v rows res items part rfl ⟨hidle, hreading, rfl⟩ - hwrite - hpart
    have hcovered := hidle.covered.deliver hstore hreading (mapM_of_write hwrite)
      (fun _ hitem => hpart.subset hitem)
    exact ⟨hidle.feeds, hcovered, hidle.held, hidle.passed⟩
  advance := by
    rintro p bl st ws v v' rows left n ws' rfl
      ⟨hidle, hreading, rfl, hstate, hcovered, hin⟩ hadv
    obtain ⟨c, htail, hcursor, rfl⟩ := advanceIncremental_eq_ok hadv
    obtain ⟨hdecode, hfollowed⟩ := hidle.advance hreading hstate hcovered hin htail
    refine ⟨hidle, ?_, hfollowed⟩
    rw [hcursor]
    exact hdecode
  commit := by
    rintro p st ws v ⟨hidle, hdecode, hfollowed⟩
    exact ⟨⟨hfollowed.feeds, hfollowed.covered, hfollowed.held,
      hidle.passed.trans hfollowed.passed⟩, hdecode⟩

/--
**Incremental mode misses no update.**  One runner runs one pipeline without
tasks whose rows pass through unchanged, from a resting state that has missed
nothing (for instance one without a checkpoint), while the source grows.  In
every reachable state every source row up to the committed checkpoint is in the
sink in its current version, and no step moves the checkpoint back.
-/
theorem incremental_misses_no_update
    {w : World} {τ : IdType} {s₀ s : Sys Unit Unit}
    (htasks : s₀.db.tasks () = [])
    (hmode : (s₀.db.pipelines ()).mode = .incremental)
    (htype : (s₀.db.pipelines ()).type ≠ .PYTHON)
    (hstore : KeepsIds τ w.storeRow)
    (hrest : s₀.Resting)
    (hfeeds : ∃ table, FeedTable w τ (s₀.db.config ()) s₀.db.store.source table)
    (hcovered : NoMissedUpdate w τ (s₀.db.config ()) s₀.db.store)
    (hheld : CheckpointHeld w τ (s₀.db.config ()) s₀.db.store)
    (h : Reach (Sys.step w) (fun s => s = s₀)
      (fun s e => e.keepsConfig (FeedGrows w τ (s₀.db.config ())) s) s) :
    NoMissedUpdate w τ (s₀.db.config ()) s.db.store ∧
      ∀ e s', e.keepsConfig (FeedGrows w τ (s₀.db.config ())) s → s.step w e = some s' →
        checkpoint w.collation τ (s.db.store.etl_state ()) ≤
          checkpoint w.collation τ (s'.db.store.etl_state ()) := by
  have hbody : ∀ p bl, _run_body w p (s₀.db.config p) = .ok bl →
      bl = (passThroughPlan (s₀.db.config ())).loop w () := by
    intro p bl hruns
    refine loop_eq_passThroughPlan ?_ hmode htype hruns
    rw [Db.config, htasks]
    rfl
  have hinv := (following τ (s₀.db.config ()) ⊥ hstore).inv_of_reach hbody hrest ⟨hfeeds, hcovered, hheld, bot_le⟩ h
  refine ⟨hinv.idle.covered, fun e s' hallow hstep => ?_⟩
  -- the same invariant, with the checkpoint of this moment as the bound
  let now := checkpoint w.collation τ (s.db.store.etl_state ())
  have hraise : Followed w τ (s₀.db.config ()) ⊥ s.db.store →
      Followed w τ (s₀.db.config ()) now s.db.store :=
    fun hfollowed => ⟨hfollowed.feeds, hfollowed.covered, hfollowed.held, le_rfl⟩
  have hnow : (following τ (s₀.db.config ()) now hstore).Inv s₀.db.config s := by
    refine BatchInvariant.inv_mono hraise ?_ hinv
    rintro p ws pc ⟨hidle, hflight⟩
    exact ⟨hraise hidle, hflight⟩
  exact ((following τ (s₀.db.config ()) now hstore).inv_step hbody hnow hallow hstep).idle.passed

/-! ## A film that is revised while its batch is in flight -/

/-- The source replaces `filmExample` by `filmRevised`. -/
def FilmRevised (src src' : Source) : Prop :=
  src filmQuery = .ok [filmExample] ∧ src' filmQuery = .ok [filmRevised]

instance (src src' : Source) : Decidable (FilmRevised src src') :=
  inferInstanceAs (Decidable (_ ∧ _))

/-- One film, one incremental pipeline that was asked to run, and a polling runner. -/
def filmStart : Sys Unit Unit :=
  Sys.polling (Db.single (filmPipeline .incremental 2 .RUN_REQUESTED) [filmExample])

theorem keyed_filmRow
    (film_id title : String) (t : Datetime) (hne : film_id ≠ "") :
    Keyed .text "updated_at" "film_id" (filmRow film_id title t) where
  ts := ⟨t, rfl⟩
  id := ⟨film_id, hne, rfl⟩
  inc_named _ hv := (Option.some.inj hv).symm
  id_named _ hv := (Option.some.inj hv).symm
  sink_key := rfl

theorem feedTable_film
    {src : Source} {title : String} {t : Datetime}
    (h : src filmQuery = .ok [filmRow "f1" title t]) :
    FeedTable World.plain .text (filmStart.db.config ()) src [filmRow "f1" title t] := by
  have hbase : baseQuery ((filmStart.db.config ()).source_query.getD "") = filmQuery := by
    decide +kernel
  have hinc : incKey (filmStart.db.config ()) = "updated_at" := by decide +kernel
  have hid : idKey (filmStart.db.config ()) = "film_id" := by decide +kernel
  refine ⟨hbase ▸ h, ?_, List.nodup_singleton _⟩
  intro r hr
  rw [List.mem_singleton.mp hr, hinc, hid]
  exact keyed_filmRow "f1" title t (by decide)

/-- The revision comes with a later key. -/
theorem FilmRevised.feedGrows
    {src src' : Source} (h : FilmRevised src src') :
    FeedGrows World.plain .text (filmStart.db.config ()) src src' := by
  intro table htable
  obtain rfl : table = [filmExample] := htable.unique (feedTable_film h.1)
  refine ⟨[filmRevised], feedTable_film h.2, [filmRevised], List.nodup_singleton _, ?_, ?_⟩
  · intro x hx r hr
    obtain rfl := List.mem_singleton.mp hx
    obtain rfl := List.mem_singleton.mp hr
    have hinc : incKey (filmStart.db.config ()) = "updated_at" := by decide +kernel
    have hkey : filmExample.column (foldIdent "updated_at") = .datetime (january 1 (by decide)) :=
      rfl
    have hkey' : filmRevised.column (foldIdent "updated_at") = .datetime (january 2 (by decide)) :=
      rfl
    rw [feedKey, rowKey, rowKey, hinc, hkey, hkey', Value.rank, Value.rank, Prod.Lex.toLex_lt_toLex]
    exact Or.inl (by decide)
  · -- both versions carry the id `f1`
    have hid : feedId World.plain (filmStart.db.config ()) filmExample =
        feedId World.plain (filmStart.db.config ()) filmRevised := rfl
    simp [hid]

theorem keepsIds_storeAsGiven
    (τ : IdType) :
    KeepsIds τ storeAsGiven := by
  intro target payload payload' k cols cols' id id' h hid h' hid'
  obtain ⟨hk, -⟩ := Prod.mk.inj (Except.ok.inj h)
  obtain ⟨hk', -⟩ := Prod.mk.inj (Except.ok.inj h')
  rw [hid, Option.getD_some] at hk
  rw [hid', Option.getD_some] at hk'
  exact τ.value_injective (hk.trans hk'.symm)

/--
The film is revised between the fetch and the commit of its batch, the runner
dies after the commit, and its successor delivers the revision.
-/
theorem incremental_misses_no_update_film_revised :
    ∃ s : Sys Unit Unit,
      s.db.store.sink filmCell =
        some (.columns [("title", .text "Alien (1979)"), ("rating", .null)]) ∧
      NoMissedUpdate World.plain .text (filmStart.db.config ()) s.db.store := by
  have hrun : ∃ s : Sys Unit Unit,
      Reach (Sys.step World.plain) (fun s => s = filmStart)
        (fun s e => e.keepsConfig FilmRevised s) s ∧
      s.db.store.sink filmCell =
        some (.columns [("title", .text "Alien (1979)"), ("rating", .null)]) :=
    Reach.exists_of_replay filmStart
      (List.replicate 10 (.runner () .ok) ++ [.source (filmSource [filmRevised])] ++
        [.runner () .ok, .kill (), .spawn ()] ++ List.replicate 13 (.runner () .ok))
      rfl (by decide +kernel)
  obtain ⟨s, hreach, hsink⟩ := hrun
  refine ⟨s, hsink, (incremental_misses_no_update rfl rfl (by decide)
    (keepsIds_storeAsGiven .text) (Sys.resting_polling _) ⟨_, feedTable_film rfl⟩
    (.of_fresh rfl) (.of_fresh rfl) (hreach.mono ?_)).1⟩
  intro s e hallow
  cases e with
  | source src =>
      exact FilmRevised.feedGrows hallow
  | _ =>
      exact hallow

end NoMissedUpdate

end EtlPlatform
