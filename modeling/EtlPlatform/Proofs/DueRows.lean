import EtlPlatform.Library.Pages
import EtlPlatform.Proofs.BatchMeaning
import EtlPlatform.Proofs.Configuration
import EtlPlatform.Proofs.ExactRuns
import EtlPlatform.Proofs.LoopProgress

/-!
# The rows a run has before it

A full run has the whole table of its reader before it, an incremental run the
rows above the stored checkpoint.  Both kinds of loop page through these rows:
`PagesThrough` says what that takes, and the meaning of such a loop is to read
the rows in pages, to write what the pages are transformed to, and to store the
mark of the last row.
-/

namespace EtlPlatform

open Library

/-! ## Loops that page through rows -/

section Paging

variable {P : Type} [DecidableEq P]

/-- The tables after `items` are written and the checkpoint `mark`, if there is one, is
stored. -/
def Store.delivered (st : Store P) (p : P) (items : List Item) (mark : Option EtlState) :
    Store P :=
  { st with
    sink := applyItems st.sink items
    etl_state := mark.elim st.etl_state (fun s => Function.update st.etl_state p (some s)) }

theorem Store.commit_delivered
    (st : Store P) (p : P) (items : List Item) (mark : Option EtlState) :
    st.commit (items.map .upsert ++ mark.toList.map (.state p)) = st.delivered p items mark := by
  rw [Store.commit_append, Store.commit_upserts]
  cases mark <;> rfl

/-- One delivery after the other. -/
theorem Store.delivered_delivered
    (st : Store P) (p : P) (items items' : List Item) (mark mark' : Option EtlState) :
    (st.delivered p items mark).delivered p items' mark' =
      st.delivered p (items ++ items') (mark'.or mark) := by
  cases mark <;> cases mark' <;> simp [Store.delivered, applyItems_append]

/-- The loop takes pages of at most `limit` off the rows that are `left`, and leaves the `mark`
of what it has read. -/
structure BatchLoop.PagesThrough (bl : BatchLoop P) (src : Source) (p : P) (limit : ℕ)
    (left : LoopVars → List Row) (mark : List Row → Option EtlState) : Prop where
  limit_pos : 0 < limit
  query : ∀ {st : Store P} (v : LoopVars), st.source = src →
    bl.query st v = .ok ((left v).take limit)
  accepts : ∀ {v : LoopVars}, left v ≠ [] → ∃ items, bl.items ((left v).take limit) = .ok items
  advances : ∀ {v : LoopVars} {res : Transformed} (n : ℕ), left v ≠ [] →
    bl.transform ((left v).take limit) = .ok res →
      ∃ v', bl.advance v ((left v).take limit) res.left n =
          .ok (v', (mark ((left v).take limit)).toList.map (.state p)) ∧
        left v' = (left v).drop limit ∧
        v'.total_read = v.total_read + ((left v).take limit).length ∧
        v'.total_written = v.total_written + n
  mark_nil : mark [] = none
  mark_page : ∀ {v : LoopVars}, left v ≠ [] →
    mark (left v) = (mark ((left v).drop limit)).or (mark ((left v).take limit))

variable {bl : BatchLoop P} {src : Source} {p : P} {limit : ℕ} {left : LoopVars → List Row}
variable {mark : List Row → Option EtlState}

/-- **A loop that pages through rows delivers them**: by induction on the rows left. -/
theorem BatchLoop.PagesThrough.exhausts
    (h : bl.PagesThrough src p limit left mark) {st : Store P} (hsrc : st.source = src)
    (v : LoopVars) :
    ∃ written v',
      bl.Exhausts st v (pages limit (left v)) written
        (st.delivered p written.flatten (mark (left v))) v' ∧
      v'.total_read = v.total_read + (left v).length ∧
      v'.total_written = v.total_written + written.flatten.length := by
  generalize hlen : (left v).length = n
  induction n using Nat.strong_induction_on generalizing v st with
  | _ n ih =>
      by_cases hnil : left v = []
      · have hquery : bl.query st v = .ok ((left v).take limit) := h.query v hsrc
        rw [hnil, List.take_nil] at hquery
        obtain rfl : 0 = n := by rw [← hlen, hnil, List.length_nil]
        refine ⟨[], v, ?_, rfl, rfl⟩
        rw [hnil, pages_nil, h.mark_nil]
        exact .done hquery
      · set page := (left v).take limit with hpage
        obtain ⟨items, hitems⟩ := h.accepts hnil
        obtain ⟨res, hres, hwrite⟩ := bind_eq_ok_iff.mp hitems
        obtain ⟨v₁, hadvance, hleft, hread, hwritten⟩ := h.advances items.length hnil hres
        have hpos : 0 < (left v).length := List.length_pos_iff.mpr hnil
        have hlimit := h.limit_pos
        have hne : page ≠ [] := by
          rw [hpage, Ne, List.take_eq_nil_iff]
          rintro (h0 | h0)
          · exact absurd h0 hlimit.ne'
          · exact hnil h0
        have hbatch : bl.Batch st v page items (st.delivered p items (mark page)) v₁ := by
          rw [← Store.commit_delivered]
          exact .mk (h.query v hsrc) hne hres hwrite hadvance
        have hsource : (st.delivered p items (mark page)).source = src := hsrc
        have hshorter : (left v₁).length < n := by
          rw [hleft, List.length_drop]
          omega
        obtain ⟨written, v', hruns, hread', hwritten'⟩ :=
          ih _ hshorter hsource v₁ rfl
        rw [Store.delivered_delivered, hleft, ← h.mark_page hnil] at hruns
        refine ⟨items :: written, v', ?_, ?_, ?_⟩
        · rw [pages_of_ne_nil hlimit hnil, List.flatten_cons]
          exact .batch hbatch hruns
        · have hsum : ((left v).take limit).length + (left v₁).length = n := by
            rw [hleft, ← List.length_append, List.take_append_drop, hlen]
          rw [hread', hread]
          omega
        · rw [hwritten', hwritten, List.flatten_cons, List.length_append]
          omega

end Paging

/-! ## The two kinds of loop -/

section Plans

variable {P : Type} {w : World} {src : Source} {p : P} {table : List Row}

/-- The mark of an incremental run: the checkpoint of the last row. -/
def tailMark (inc_key id_key : String) (rows : List Row) : Option EtlState :=
  (tailCursor inc_key id_key rows).toOption.map encodeState

/-- An incremental loop pages through the rows after its cursor. -/
theorem IncrementalPlan.pagesThrough
    {plan : IncrementalPlan} {τ : IdType} (hlimit : 0 < plan.limit)
    (hsource : src plan.base = .ok table)
    (htable : Sequential.KeysetTable τ plan.inc_key plan.id_key table)
    (hpure : (plan.loop w p).Pure)
    (haccept : ∀ rows ⊆ table, ∃ items, (plan.loop w p).items rows = .ok items) :
    (plan.loop w p).PagesThrough src p plan.limit
      (fun v => Sequential.rowsAfter w.collation plan.inc_key plan.id_key table v.cursor)
      (tailMark plan.inc_key plan.id_key) where
  limit_pos := hlimit
  query := by
    rintro st v rfl
    exact htable.incrementalBatch_eq hsource w.collation v.cursor plan.limit
  accepts := by
    intro v _
    exact haccept _ fun r hr => (mem_page _ hr).1
  advances := by
    intro v res n hne hres
    have hpage : (Sequential.rowsAfter w.collation plan.inc_key plan.id_key table v.cursor).take
        plan.limit ≠ [] := by
      rw [Ne, List.take_eq_nil_iff]
      rintro (h0 | h0)
      · exact absurd h0 hlimit.ne'
      · exact hne h0
    obtain ⟨c, htail, -, -, hrest⟩ := htable.rowsAfter_of_page hpage
    have hleft : res.left = _ := hpure _ _ hres
    refine ⟨{ v with
      cursor := some c
      total_read := v.total_read +
        ((Sequential.rowsAfter w.collation plan.inc_key plan.id_key table v.cursor).take
          plan.limit).length
      total_written := v.total_written + n }, ?_, hrest, rfl, rfl⟩
    simp [IncrementalPlan.loop, advanceIncremental, hleft, htail, tailMark, bind, Except.bind,
      pure, Except.pure, Except.toOption]
  mark_nil := rfl
  mark_page := by
    intro v hne
    -- the last row is that of the rest, unless the page was all there was
    set rows := Sequential.rowsAfter w.collation plan.inc_key plan.id_key table v.cursor
    have hlast : ∀ front rest : List Row, rest ≠ [] →
        tailCursor plan.inc_key plan.id_key (front ++ rest) =
          tailCursor plan.inc_key plan.id_key rest := by
      intro front rest hrest
      rw [tailCursor, tailCursor, List.getLast?_append_of_ne_nil _ hrest]
    by_cases hrest : rows.drop plan.limit = []
    · have hall : rows.take plan.limit = rows := by
        rw [List.take_eq_self_iff]
        exact List.drop_eq_nil_iff.mp hrest
      rw [hrest, hall]
      rfl
    · have hmem : (rows.drop plan.limit).getLast hrest ∈ table :=
        (mem_ordered.mp (List.mem_of_mem_drop (List.getLast_mem hrest))).1
      obtain ⟨c, hc⟩ := Sequential.tailCursor_of_keysetRow
        (List.getLast?_eq_some_getLast hrest) (htable.keys _ hmem)
      have hwhole := hlast (rows.take plan.limit) _ hrest
      rw [List.take_append_drop] at hwhole
      rw [tailMark, tailMark, hwhole, hc]
      rfl

/-- A full loop pages through the rows behind its offset. -/
theorem FullRuns.FullPlan.pagesThrough
    {plan : FullRuns.FullPlan} {next : ℕ → List Row → ℕ} (hlimit : 0 < plan.limit)
    (hsource : src (baseQuery plan.base) = .ok table)
    (hnext : ∀ offset, table.drop (next offset (window plan.limit offset table)) =
      (table.drop offset).drop plan.limit)
    (haccept : ∀ rows ⊆ table, ∃ items, (plan.loop w next : BatchLoop P).items rows = .ok items) :
    (plan.loop w next : BatchLoop P).PagesThrough src p plan.limit
      (fun v => table.drop v.offset) (fun _ => none) where
  limit_pos := hlimit
  query := by
    rintro st v rfl
    exact FullRuns.wrap_query_eq_window hsource plan.limit v.offset
  accepts := by
    intro v _
    exact haccept _ fun r hr => List.mem_of_mem_drop (List.mem_of_mem_take hr)
  advances := by
    intro v res n _ _
    exact ⟨FullRuns.nextVars next v (window plan.limit v.offset table) n, rfl, hnext v.offset,
      rfl, rfl⟩
  mark_nil := rfl
  mark_page := fun _ => rfl

end Plans

/-! ## The runner a pipeline gets -/

section Due

variable {P : Type} [DecidableEq P]

/-- The rows a run of `p` has before it. -/
def Db.due (w : World) (db : Db P) (p : P) : List Row :=
  let pl := db.config p
  let table := rowsOf db.store.source pl.readerQuery
  match pl.mode with
  | .full => table
  | .incremental =>
      match decodeState (db.store.etl_state p) with
      | .ok c => Sequential.rowsAfter w.collation (incKey pl) (idKey pl) table c
      | .error _ => []

/-- The checkpoint of a run that has read `rows`, if it leaves one. -/
def PipelineSnapshot.mark (pl : PipelineSnapshot) (rows : List Row) : Option EtlState :=
  match pl.mode with
  | .full => none
  | .incremental => tailMark (incKey pl) (idKey pl) rows

/--
What a run of `p` takes to go through: a configuration its runner accepts, a
reader whose rows are transformed and written without an error, and for an
incremental run a table with distinct keys, a checkpoint that can be decoded and
a transform that leaves the rows it is handed alone.
-/
structure Runnable (w : World) (db : Db P) (p : P) (bl : BatchLoop P) : Prop where
  body : _run_body w p (db.config p) = .ok bl
  source : ∃ table, db.store.source (db.config p).readerQuery = .ok table
  accepts : ∀ rows ⊆ rowsOf db.store.source (db.config p).readerQuery,
    ∃ items, bl.items rows = .ok items
  incremental : (db.config p).mode = .incremental →
    (∃ τ, Sequential.KeysetTable τ (incKey (db.config p)) (idKey (db.config p))
      (rowsOf db.store.source (db.config p).readerQuery)) ∧
    (∃ c, decodeState (db.store.etl_state p) = .ok c) ∧ bl.Pure

variable {w : World} {db : Db P} {p : P} {bl : BatchLoop P} {pl : PipelineSnapshot}

/-- The loop of a full pipeline is that of a plan over its reader. -/
theorem exists_fullPlan
    (h : _run_body w p pl = .ok bl) (hmode : pl.mode = .full) :
    ∃ (plan : FullRuns.FullPlan) (next : ℕ → List Row → ℕ), bl = plan.loop w next ∧
      baseQuery plan.base = pl.readerQuery ∧ plan.limit = batchSizeOr pl.batch_size ∧
      ∀ (table : List Row) offset, table.drop (next offset (window plan.limit offset table)) =
        (table.drop offset).drop plan.limit := by
  by_cases htasks : pl.tasks = []
  · simp only [_run_body, htasks, ne_eq, not_true_eq_false, if_false, hmode] at h
    obtain ⟨tr, -, rfl⟩ := FullRuns.run_sql_full_pipeline_eq_ok h
    refine ⟨_, _, rfl, (readerQuery_of_no_tasks htasks).symm, rfl, fun table offset => ?_⟩
    rw [FullRuns.behindRows, length_window, List.drop_drop]
    rcases le_total (FullRuns.sqlPlan w pl tr).limit (table.length - offset) with hfull | hshort
    · rw [min_eq_left hfull]
    · -- a short page was the last one
      rw [min_eq_right hshort, List.drop_eq_nil_of_le (by omega), List.drop_eq_nil_of_le (by omega)]
  · rw [_run_body, if_pos htasks] at h
    obtain ⟨snap, hvalid, h⟩ := bind_eq_ok_iff.mp h
    obtain ⟨-, rfl⟩ := (validate_tasks_v1_eq_ok_iff htasks).mp hvalid
    simp only [hmode] at h
    obtain ⟨reader, rest, fns, hsorted, -, rfl⟩ := FullRuns.run_tasks_full_eq_ok h
    refine ⟨_, _, rfl, (readerQuery_of_sorted hsorted).symm, rfl, fun table offset => ?_⟩
    rw [List.drop_drop]
    rfl

/-- The loop of an incremental pipeline is that of a plan over its reader and its keys. -/
theorem exists_incrementalPlan
    (h : _run_body w p pl = .ok bl) (hmode : pl.mode = .incremental) :
    ∃ plan : IncrementalPlan, bl = plan.loop w p ∧ plan.base = pl.readerQuery ∧
      plan.limit = batchSizeOr pl.batch_size ∧ plan.inc_key = incKey pl ∧
      plan.id_key = idKey pl := by
  by_cases htasks : pl.tasks = []
  · rw [run_body_of_no_tasks w p htasks hmode] at h
    obtain ⟨tr, -, rfl⟩ := run_sql_incremental_pipeline_eq_ok h
    exact ⟨_, rfl, (readerQuery_of_no_tasks htasks).symm, rfl, rfl, rfl⟩
  · rw [_run_body, if_pos htasks] at h
    obtain ⟨snap, hvalid, h⟩ := bind_eq_ok_iff.mp h
    obtain ⟨-, rfl⟩ := (validate_tasks_v1_eq_ok_iff htasks).mp hvalid
    simp only [hmode] at h
    obtain ⟨reader, rest, fns, hsorted, -, rfl⟩ := run_tasks_incremental_eq_ok h
    exact ⟨_, rfl, (readerQuery_of_sorted hsorted).symm, rfl, rfl, rfl⟩

/-- An incremental run can start at the checkpoint. -/
def Db.Decodes (db : Db P) (p : P) (st : Store P) : Prop :=
  (db.config p).mode = .incremental → ∃ c, decodeState (st.etl_state p) = .ok c

/-- The loop pages through the rows a run has before it, wherever the checkpoint stands, and
after a page it finds the checkpoint at the rows behind it, or starts all over. -/
structure BatchLoop.ReadsDue (bl : BatchLoop P) (w : World) (db : Db P) (p : P)
    (left : LoopVars → List Row) : Prop where
  pages : bl.PagesThrough db.store.source p (batchSizeOr (db.config p).batch_size) left
    (db.config p).mark
  starts : ∀ {st : Store P}, st.source = db.store.source → db.Decodes p st →
    ∃ v, bl.setup st = .ok v ∧ left v = ({ db with store := st } : Db P).due w p ∧
      v.total_read = 0 ∧ v.total_written = 0
  resumes : ∀ {st : Store P} {v : LoopVars}, st.source = db.store.source → left v ≠ [] →
    (∀ e, (db.config p).mark ((left v).take (batchSizeOr (db.config p).batch_size)) = some e →
      st.etl_state p = some e) →
    db.Decodes p st ∧
      (({ db with store := st } : Db P).due w p =
          (left v).drop (batchSizeOr (db.config p).batch_size) ∨
        (∀ rows, (db.config p).mark rows = none) ∧
          ({ db with store := st } : Db P).due w p = db.due w p)

theorem Runnable.decodes
    (h : Runnable w db p bl) :
    db.Decodes p db.store :=
  fun hmode => (h.incremental hmode).2.1

/-- A full run starts all over each time. -/
theorem Runnable.readsDue_full
    (h : Runnable w db p bl) (hmode : (db.config p).mode = .full) :
    ∃ left, bl.ReadsDue w db p left := by
  obtain ⟨table, hsource⟩ := h.source
  have haccepts := h.accepts
  rw [rowsOf_of_ok hsource] at haccepts
  obtain ⟨plan, next, rfl, hbase, hlimit, hnext⟩ := exists_fullPlan h.body hmode
  have hmark : (db.config p).mark = fun _ => none := by
    funext rows
    rw [PipelineSnapshot.mark, hmode]
  have hdue : ∀ st : Store P, st.source = db.store.source →
      ({ db with store := st } : Db P).due w p = table := by
    intro st hst
    have hconfig : ({ db with store := st } : Db P).config p = db.config p := rfl
    simp only [Db.due, hconfig, hmode, hst, rowsOf_of_ok hsource]
  refine ⟨fun v => table.drop v.offset, ?_, fun hst _ => ?_, fun hst _ _ => ?_⟩
  · rw [hmark, ← hlimit]
    exact FullRuns.FullPlan.pagesThrough (hlimit ▸ batchSizeOr_pos _) (hbase ▸ hsource)
      (hnext table) haccepts
  · exact ⟨LoopVars.initial none, rfl, (hdue _ hst).symm, rfl, rfl⟩
  · refine ⟨fun hinc => ?_, Or.inr ⟨fun rows => by rw [hmark], ?_⟩⟩
    · rw [hmode] at hinc
      cases hinc
    · rw [hdue _ hst]
      exact (hdue _ rfl).symm

/-- An incremental run goes on behind the checkpoint. -/
theorem Runnable.readsDue_incremental
    (h : Runnable w db p bl) (hmode : (db.config p).mode = .incremental) :
    ∃ left, bl.ReadsDue w db p left := by
  obtain ⟨table, hsource⟩ := h.source
  have haccepts := h.accepts
  have hincremental := h.incremental hmode
  rw [rowsOf_of_ok hsource] at haccepts hincremental
  obtain ⟨plan, rfl, hbase, hlimit, hinc, hid⟩ := exists_incrementalPlan h.body hmode
  obtain ⟨⟨τ, htable⟩, -, hpure⟩ := hincremental
  rw [← hinc, ← hid] at htable
  have hmark : (db.config p).mark = tailMark plan.inc_key plan.id_key := by
    funext rows
    rw [PipelineSnapshot.mark, hmode, hinc, hid]
  have hdue : ∀ (st : Store P) (c : Option Cursor), st.source = db.store.source →
      decodeState (st.etl_state p) = .ok c →
      ({ db with store := st } : Db P).due w p =
        Sequential.rowsAfter w.collation plan.inc_key plan.id_key table c := by
    intro st c hst hc
    have hconfig : ({ db with store := st } : Db P).config p = db.config p := rfl
    simp only [Db.due, hconfig, hmode, hst, rowsOf_of_ok hsource, hc, hinc, hid]
  refine ⟨fun v => Sequential.rowsAfter w.collation plan.inc_key plan.id_key table v.cursor,
    ?_, fun {st} hst hdec => ?_, fun {st v} hst hne hstored => ?_⟩
  · rw [hmark, ← hlimit]
    exact IncrementalPlan.pagesThrough (hlimit ▸ batchSizeOr_pos _) (hbase ▸ hsource) htable hpure
      haccepts
  · obtain ⟨c, hc⟩ := hdec hmode
    exact ⟨LoopVars.initial c, map_eq_ok_iff.mpr ⟨c, hc, rfl⟩, (hdue st c hst hc).symm, rfl, rfl⟩
  · have hpage : (Sequential.rowsAfter w.collation plan.inc_key plan.id_key table v.cursor).take
        (batchSizeOr (db.config p).batch_size) ≠ [] := by
      rw [Ne, List.take_eq_nil_iff]
      rintro (h0 | h0)
      · exact absurd h0 (batchSizeOr_pos _).ne'
      · exact hne h0
    obtain ⟨c, htail, hnonempty, -, hrest⟩ := htable.rowsAfter_of_page hpage
    have hstate : st.etl_state p = some (encodeState c) := by
      refine hstored _ ?_
      rw [hmark, tailMark, htail]
      rfl
    have hdecode : decodeState (st.etl_state p) = .ok (some c) := by
      rw [hstate]
      exact decodeState_encodeState hnonempty
    refine ⟨fun _ => ⟨some c, hdecode⟩, Or.inl ?_⟩
    rw [hdue st (some c) hst hdecode]
    exact hrest

/-- Every pipeline that can run reads what it has before it. -/
theorem Runnable.readsDue
    (h : Runnable w db p bl) :
    ∃ left, bl.ReadsDue w db p left := by
  cases hmode : (db.config p).mode with
  | full =>
      exact h.readsDue_full hmode
  | incremental =>
      exact h.readsDue_incremental hmode

/-- **A run delivers the rows it has before it**, in pages of the batch size. -/
theorem Runnable.exhausts
    (h : Runnable w db p bl) :
    ∃ v written v', bl.setup db.store = .ok v ∧
      bl.Exhausts db.store v (pages (batchSizeOr (db.config p).batch_size) (db.due w p)) written
        (db.store.delivered p written.flatten ((db.config p).mark (db.due w p))) v' ∧
      v'.total_read = (db.due w p).length ∧ v'.total_written = written.flatten.length := by
  obtain ⟨left, hreads⟩ := h.readsDue
  obtain ⟨v, hsetup, hdue, hread, hwritten⟩ := hreads.starts rfl h.decodes
  obtain ⟨written, v', hruns, hread', hwritten'⟩ :=
    hreads.pages.exhausts (rfl : db.store.source = _) v
  rw [hdue] at hruns hread'
  refine ⟨v, written, v', hsetup, hruns, ?_, ?_⟩
  · rw [hread', hread]
    exact Nat.zero_add _
  · rw [hwritten', hwritten]
    exact Nat.zero_add _

end Due

end EtlPlatform
