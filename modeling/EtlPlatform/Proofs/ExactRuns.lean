import EtlPlatform.Proofs.Delivery
import EtlPlatform.Proofs.RowFeed
import EtlPlatform.Proofs.SequentialSteps
import Mathlib.Data.List.Chain

/-!
# What an incremental run reads

An undisturbed run over a table that stays as it is reads the rows above its
checkpoint, each once and in the order of their keys, whatever the batch size.
`ExactRun` says so of what was seen of a run; it is proved of the loop by
induction on the rows that are left, each round taking a page off their front.

The next run starts where the last one ended.  It therefore reads nothing of the
same table, and of a table in which some rows were given keys above the
checkpoint it reads exactly these rows.
-/

namespace EtlPlatform
namespace Sequential

open Library

/-! ## The contract of the source -/

section Contract

/-- The row has a timestamp and a nonempty id, where the runner looks for its keys and where
the server does. -/
structure KeysetRow (τ : IdType) (inc_key id_key : String) (r : Row) : Prop where
  ts : ∃ t, r.get? inc_key = some (.datetime t) ∧ r.get? (foldIdent inc_key) = some (.datetime t)
  id : ∃ s, s ≠ "" ∧ r.get? id_key = some (τ.value s) ∧ r.get? (foldIdent id_key) = some (τ.value s)

/-- The key pair of a row. -/
def keyPair (inc_key id_key : String) (r : Row) : Value × Value :=
  (r.column inc_key, r.column id_key)

/-- Where a row stands in the order of the batch query. -/
abbrev rowPosition (C : Collation) (inc_key id_key : String) (r : Row) : FeedPosition :=
  position (rowKey C inc_key) (rowId C id_key) r

/-- A table with distinct key pairs. -/
structure KeysetTable (τ : IdType) (inc_key id_key : String) (table : List Row) : Prop where
  keys : ∀ r ∈ table, KeysetRow τ inc_key id_key r
  distinct : (table.map (keyPair inc_key id_key)).Nodup

variable {τ : IdType} {inc_key id_key : String} {r r' : Row}

theorem KeysetRow.hasKeys
    (h : KeysetRow τ inc_key id_key r) :
    HasKeys τ inc_key id_key r := by
  obtain ⟨t, ht, hft⟩ := h.ts
  obtain ⟨s, hne, hs, hfs⟩ := h.id
  have hts : r.column (foldIdent inc_key) = .datetime t := by
    rw [Row.column, hft, Option.getD_some]
  have hid : r.column (foldIdent id_key) = τ.value s := by
    rw [Row.column, hfs, Option.getD_some]
  refine ⟨⟨t, hts⟩, ⟨s, hne, hid⟩, fun v hv => ?_, fun v hv => ?_⟩
  · rw [hts]
    exact Option.some.inj (hv.symm.trans ht)
  · rw [hid]
    exact Option.some.inj (hv.symm.trans hs)

/-- The pair of a row, as the server finds it. -/
theorem KeysetRow.keyPair_eq
    (h : KeysetRow τ inc_key id_key r) :
    keyPair inc_key id_key r = (r.column (foldIdent inc_key), r.column (foldIdent id_key)) := by
  obtain ⟨t, ht, hft⟩ := h.ts
  obtain ⟨s, -, hs, hfs⟩ := h.id
  simp only [keyPair, Row.column, ht, hft, hs, hfs]

theorem datetime_rank_injective
    (C : Collation) :
    Function.Injective (fun t => (Value.datetime t).rank C) := by
  intro t t' h
  have hkey : (Value.datetime t).key C = (Value.datetime t').key C :=
    congrArg (fun q => (ofLex q).1) h
  exact Datetime.fields_injective (List.cons.inj hkey).2

/-- Rows stand at one position exactly when they have one pair. -/
theorem KeysetRow.rowPosition_eq_iff
    {C : Collation} (h : KeysetRow τ inc_key id_key r) (h' : KeysetRow τ inc_key id_key r') :
    rowPosition C inc_key id_key r = rowPosition C inc_key id_key r' ↔
      keyPair inc_key id_key r = keyPair inc_key id_key r' := by
  rw [h.keyPair_eq, h'.keyPair_eq]
  constructor
  · intro heq
    obtain ⟨t, ht⟩ := h.hasKeys.ts
    obtain ⟨t', ht'⟩ := h'.hasKeys.ts
    have hkey : rowKey C inc_key r = rowKey C inc_key r' := congrArg (fun q => (ofLex q).1) heq
    have hid : rowId C id_key r = rowId C id_key r' := congrArg (fun q => (ofLex q).2) heq
    rw [rowKey, rowKey, ht, ht'] at hkey
    rw [(rowId_eq_iff h.hasKeys h'.hasKeys).mp hid, ht, ht', datetime_rank_injective C hkey]
  · intro heq
    obtain ⟨hkey, hid⟩ := Prod.mk.inj heq
    simp only [rowPosition, position, rowKey, rowId, hkey, hid]

theorem KeysetTable.positions_nodup
    {table : List Row} (h : KeysetTable τ inc_key id_key table) (C : Collation) :
    (table.map (rowPosition C inc_key id_key)).Nodup := by
  have hpairs := List.pairwise_map.mp h.distinct
  refine List.pairwise_map.mpr (hpairs.imp_of_mem ?_)
  intro r r' hr hr' hne heq
  exact hne (((h.keys r hr).rowPosition_eq_iff (h.keys r' hr')).mp heq)

/-- The rows of the table that a batch query would still return, in its order. -/
def rowsAfter (C : Collation) (inc_key id_key : String) (table : List Row) (c : Option Cursor) :
    List Row :=
  ordered (rowLe C (foldIdent inc_key) (foldIdent id_key))
    (batchWhere C (foldIdent inc_key) (foldIdent id_key) c) table

/-- On such a table a batch query succeeds. -/
theorem KeysetTable.incrementalBatch_eq
    {table : List Row} (h : KeysetTable τ inc_key id_key table) {source : Source} {base : String}
    (hsource : source base = .ok table) (C : Collation) (c : Option Cursor) (limit : ℕ) :
    incrementalBatch C source base inc_key id_key c limit =
      .ok ((rowsAfter C inc_key id_key table c).take limit) := by
  have hcolumns : table.any (fun r =>
      r.get? (foldIdent inc_key) = none || r.get? (foldIdent id_key) = none) = false := by
    rw [List.any_eq_false]
    intro r hr
    obtain ⟨t, -, ht⟩ := (h.keys r hr).ts
    obtain ⟨s, -, -, hs⟩ := (h.keys r hr).id
    simp [ht, hs]
  have hbinds : table.any (fun r =>
      ((r.column (foldIdent id_key)).bindLike "").isNone) = false := by
    rw [List.any_eq_false]
    intro r hr
    obtain ⟨s, -, hs⟩ := (h.keys r hr).hasKeys.id
    simp [hs, IdType.bindLike_value]
  simp only [incrementalBatch, bind_eq_ok_iff, check_eq_ok_iff, pure_eq_ok_iff]
  exact ⟨table, hsource, by simp [hcolumns], by simp [hbinds], rfl⟩

/-- The cursor of the last row of a list of such rows. -/
theorem tailCursor_of_keysetRow
    {rows : List Row} {tail : Row} (hlast : rows.getLast? = some tail)
    (htail : KeysetRow τ inc_key id_key tail) :
    ∃ c, tailCursor inc_key id_key rows = .ok c := by
  obtain ⟨t, ht, -⟩ := htail.ts
  obtain ⟨s, -, hs, -⟩ := htail.id
  exact ⟨⟨t, (τ.value s).str⟩, by simp only [tailCursor, hlast, ht, hs]⟩

/-- **What is left after a page**: the rest after the cursor of its last row. -/
theorem KeysetTable.rowsAfter_of_page
    {C : Collation} {table : List Row} (h : KeysetTable τ inc_key id_key table)
    {c : Option Cursor} {limit : ℕ} (hne : (rowsAfter C inc_key id_key table c).take limit ≠ []) :
    ∃ c', tailCursor inc_key id_key ((rowsAfter C inc_key id_key table c).take limit) = .ok c' ∧
      c'.last_id ≠ "" ∧
      c'.position C τ =
        rowPosition C inc_key id_key (((rowsAfter C inc_key id_key table c).take limit).getLast hne) ∧
      rowsAfter C inc_key id_key table (some c') = (rowsAfter C inc_key id_key table c).drop limit := by
  set page := (rowsAfter C inc_key id_key table c).take limit with hpage
  have hmem : page.getLast hne ∈ table := (mem_page _ (List.getLast_mem hne)).1
  have hlast : page.getLast? = some (page.getLast hne) := List.getLast?_eq_some_getLast hne
  obtain ⟨c', hc'⟩ := tailCursor_of_keysetRow hlast (h.keys _ hmem)
  obtain ⟨hpos, hid⟩ := tailCursor_position (C := C) hlast (h.keys _ hmem).hasKeys hc'
  refine ⟨c', hc', hid, hpos, ?_⟩
  refine ordered_after_page (f := rowPosition C inc_key id_key)
    (fun a b => rowLe_iff C inc_key id_key a b) (h.positions_nodup C) hne ?_
  intro r hr
  have hkeys := (h.keys r hr).hasKeys
  have hpage_above := (batchWhere_iff (C := C) (h.keys _ hmem).hasKeys c).mp
    (mem_page _ (List.getLast_mem hne)).2
  rw [batchWhere_iff hkeys, batchWhere_iff hkeys, mark, hpos, WithBot.coe_lt_coe]
  constructor
  · intro hlt
    exact ⟨hpage_above.trans (WithBot.coe_lt_coe.mpr hlt), hlt⟩
  · exact fun hlt => hlt.2

end Contract

/-! ## What is seen of a run -/

section Logs

variable {P : Type}

/-- The batches read, in order. -/
def batchesRead (log : List Seen) : List (List Row) :=
  log.filterMap (fun e =>
    match e with
    | .query _ (.ok rows) => some rows
    | _ => none)

/-- The checkpoints committed, in order. -/
def checkpoints (C : Collation) (τ : IdType) (log : List Seen) : List (WithBot FeedPosition) :=
  log.filterMap (fun e =>
    match e with
    | .committed _ state => some (checkpoint C τ state)
    | _ => none)

theorem checkpoints_append
    (C : Collation) (τ : IdType) (log log' : List Seen) :
    checkpoints C τ (log ++ log') = checkpoints C τ log ++ checkpoints C τ log' := by
  rw [checkpoints, List.filterMap_append]
  rfl

/-- A loop that goes over `rows`: it reads them in order, moves the checkpoint up to the last
of them, and does nothing if there are none. -/
structure GoesOver (C : Collation) (τ : IdType) (inc_key id_key : String) (p : P)
    (rows : List Row) (s s' : Session P) (log : List Seen) : Prop where
  seen : s'.seen = s.seen ++ log
  read : (batchesRead log).flatten = rows
  increasing : (checkpoint C τ (s.store.etl_state p) :: checkpoints C τ log).Pairwise (· < ·)
  last : (checkpoint C τ (s.store.etl_state p) :: checkpoints C τ log).getLast? =
    some (checkpoint C τ (s'.store.etl_state p))
  ends : ∀ tail, rows.getLast? = some tail →
    checkpoint C τ (s'.store.etl_state p) = rowPosition C inc_key id_key tail
  kept : rows = [] → s'.store = s.store
  decodes : (∃ c, decodeState (s.store.etl_state p) = .ok c) →
    ∃ c, decodeState (s'.store.etl_state p) = .ok c

variable {C : Collation} {τ : IdType} {inc_key id_key : String} {p : P}
  {rows rows' : List Row} {s s' s'' : Session P} {log log' : List Seen}

/-- One part after the other. -/
theorem GoesOver.append
    (h : GoesOver C τ inc_key id_key p rows s s' log)
    (h' : GoesOver C τ inc_key id_key p rows' s' s'' log') :
    GoesOver C τ inc_key id_key p (rows ++ rows') s s'' (log ++ log') where
  seen := by
    rw [h'.seen, h.seen, List.append_assoc]
  read := by
    rw [batchesRead, List.filterMap_append, List.flatten_append]
    exact congrArg₂ (· ++ ·) h.read h'.read
  increasing := by
    -- the last checkpoint of the first part is where the second starts
    obtain ⟨front, hfront⟩ := List.getLast?_eq_some_iff.mp h.last
    have hfirst := List.isChain_iff_pairwise.mpr h.increasing
    have hsecond := List.isChain_iff_pairwise.mpr h'.increasing
    rw [hfront] at hfirst
    rw [checkpoints_append, ← List.cons_append, hfront]
    exact List.isChain_iff_pairwise.mp (hfirst.append_overlap hsecond (List.cons_ne_nil _ _))
  last := by
    obtain ⟨front, hfront⟩ := List.getLast?_eq_some_iff.mp h.last
    rw [checkpoints_append, ← List.cons_append, hfront, List.append_assoc, List.singleton_append,
      List.getLast?_append, h'.last, Option.some_or]
  ends := by
    intro tail htail
    cases rows' using List.reverseRecOn with
    | nil =>
        rw [List.append_nil] at htail
        rw [h'.kept rfl]
        exact h.ends tail htail
    | append_singleton front r =>
        refine h'.ends tail ?_
        rw [← htail]
        simp
  kept := by
    intro hnil
    obtain ⟨rfl, rfl⟩ := List.append_eq_nil_iff.mp hnil
    rw [h'.kept rfl, h.kept rfl]
  decodes := fun hs => h'.decodes (h.decodes hs)

end Logs

/-! ## The loop -/

section Loop

variable {P : Type} [DecidableEq P]

/-- The transform of the plan leaves the rows it is handed alone, and the writer accepts what it
makes of rows of the table. -/
def Accepts (w : World) (plan : IncrementalPlan) (table : List Row) : Prop :=
  ∀ rows, rows ⊆ table → ∃ out items,
    plan.transform rows = .ok { rows := out, left := rows } ∧
      plan.writer.write w.storeRow plan.target out = .ok items

variable {w : World} {p : P} {plan : IncrementalPlan} {τ : IdType} {table : List Row}
  {source : Source} {v : LoopVars} {s : Session P}

omit [DecidableEq P] in
/-- What the writer accepts is what the loop sends. -/
theorem itemsOf_of_write
    (p : P) {out : List Row} {items : List Item}
    (h : plan.writer.write w.storeRow plan.target out = .ok items) :
    (plan.loop w p).itemsOf out = .ok items := by
  unfold BatchLoop.itemsOf
  split_ifs with hnil
  · rw [hnil, Writer.write_nil] at h
    exact h
  · exact h

/-- A round with no row left ends the loop. -/
theorem planRound_of_nil
    (htable : KeysetTable τ plan.inc_key plan.id_key table)
    (hsource : source plan.base = .ok table)
    (hnil : rowsAfter w.collation plan.inc_key plan.id_key table v.cursor = []) :
    ∃ s' log, planRound w source p plan v s = .ok none s' ∧
      GoesOver w.collation τ plan.inc_key plan.id_key p [] s s' log := by
  have hround := planRound_eq w source p plan v s
  simp only [htable.incrementalBatch_eq hsource, hnil, List.take_nil, if_true] at hround
  refine ⟨_, _, hround, ⟨rfl, rfl, List.pairwise_singleton _ _, rfl, ?_, ?_, ?_⟩⟩
  · intro tail htail
    cases htail
  · exact fun _ => rfl
  · exact id

/-- A round with rows left takes a page off them. -/
theorem planRound_of_ne_nil
    (htable : KeysetTable τ plan.inc_key plan.id_key table)
    (hsource : source plan.base = .ok table)
    (haccept : Accepts w plan table) (hlimit : 0 < plan.limit)
    (hstart : checkpoint w.collation τ (s.store.etl_state p) = mark w.collation τ v.cursor)
    (hne : rowsAfter w.collation plan.inc_key plan.id_key table v.cursor ≠ []) :
    ∃ c n s' log,
      planRound w source p plan v s =
        .ok (some { v with
          cursor := some c
          total_read := v.total_read +
            ((rowsAfter w.collation plan.inc_key plan.id_key table v.cursor).take plan.limit).length
          total_written := v.total_written + n }) s' ∧
      GoesOver w.collation τ plan.inc_key plan.id_key p
        ((rowsAfter w.collation plan.inc_key plan.id_key table v.cursor).take plan.limit) s s' log ∧
      checkpoint w.collation τ (s'.store.etl_state p) = mark w.collation τ (some c) ∧
      rowsAfter w.collation plan.inc_key plan.id_key table (some c) =
        (rowsAfter w.collation plan.inc_key plan.id_key table v.cursor).drop plan.limit := by
  have hround := planRound_eq w source p plan v s
  rw [htable.incrementalBatch_eq hsource] at hround
  set page := (rowsAfter w.collation plan.inc_key plan.id_key table v.cursor).take plan.limit
    with hpage
  have hpage_ne : page ≠ [] := by
    rw [hpage, Ne, List.take_eq_nil_iff]
    rintro (h0 | hnil)
    · exact absurd h0 hlimit.ne'
    · exact hne hnil
  obtain ⟨c, htail, hid, hpos, hrest⟩ := htable.rowsAfter_of_page hpage_ne
  rw [← hpage] at htail
  have hsub : page ⊆ table := fun r hr => (mem_page _ hr).1
  obtain ⟨out, items, hout, hwrite⟩ := haccept page hsub
  have hitems := itemsOf_of_write p hwrite
  simp only [hpage_ne, if_false, hout, hitems, htail] at hround
  have hdecode : decodeState (some (encodeState c)) = .ok (some c) := decodeState_encodeState hid
  have hmark : ∀ s₁ : Session P,
      checkpoint w.collation τ ((s₁.checkpointed p c).store.etl_state p) =
        mark w.collation τ (some c) := by
    intro s₁
    rw [checkpointed_etl_state, checkpoint_of_decodeState hdecode]
  have hlast : page.getLast? = some (page.getLast hpage_ne) :=
    List.getLast?_eq_some_getLast hpage_ne
  have habove : mark w.collation τ v.cursor < mark w.collation τ (some c) := by
    have hmem := mem_page _ (List.getLast_mem hpage_ne)
    have hkeys := (htable.keys _ hmem.1).hasKeys
    rw [mark, hpos]
    exact (batchWhere_iff hkeys v.cursor).mp hmem.2
  set s₁ := (s.queried (batchQuery plan v.cursor) (.ok page)).written plan.writer items with hs₁
  refine ⟨c, _, _, [.query (batchQuery plan v.cursor) (.ok page),
    .committed (s₁.checkpointed p c).store.sink ((s₁.checkpointed p c).store.etl_state p)],
    hround, ?_, hmark _, hrest⟩
  have hcheckpoints : checkpoints w.collation τ [.query (batchQuery plan v.cursor) (.ok page),
      .committed (s₁.checkpointed p c).store.sink ((s₁.checkpointed p c).store.etl_state p)] =
      [mark w.collation τ (some c)] :=
    congrArg (fun m => [m]) (hmark s₁)
  refine ⟨?_, List.append_nil page, ?_, ?_, ?_, ?_, ?_⟩
  · rw [Session.checkpointed, hs₁, written_seen, Session.queried, List.append_assoc]
    rfl
  · rw [hcheckpoints, hstart, List.pairwise_pair]
    exact habove
  · rw [hcheckpoints, hmark]
    rfl
  · intro tail htail'
    obtain rfl := Option.some.inj (hlast.symm.trans htail')
    rw [hmark, mark, hpos]
  · exact fun hnil => absurd hnil hpage_ne
  · intro _
    exact ⟨some c, by rw [checkpointed_etl_state, hdecode]⟩

/-- Rounds over a table that stays as it is, with no pause. -/
structure Undisturbed (env : Surroundings) (base : String) (table : List Row) : Prop where
  source : ∀ i, env.source i base = .ok table
  status : ∀ i, env.status i ≠ .PAUSE_REQUESTED

/-- **The loop goes over the rows that are left**, however it is cut into rounds. -/
theorem planLoop_goesOver
    {env : Surroundings} (henv : Undisturbed env plan.base table)
    (htable : KeysetTable τ plan.inc_key plan.id_key table)
    (haccept : Accepts w plan table) (hlimit : 0 < plan.limit) (batch_no : ℕ)
    (hstart : checkpoint w.collation τ (s.store.etl_state p) = mark w.collation τ v.cursor) :
    ∃ n s' log,
      (∀ fuel, (rowsAfter w.collation plan.inc_key plan.id_key table v.cursor).length < fuel →
        planLoop w env p plan fuel batch_no v s =
          .ok (some (v.total_read +
            (rowsAfter w.collation plan.inc_key plan.id_key table v.cursor).length,
            v.total_written + n)) s') ∧
      GoesOver w.collation τ plan.inc_key plan.id_key p
        (rowsAfter w.collation plan.inc_key plan.id_key table v.cursor) s s' log := by
  -- by induction on the number of rows left
  generalize hleft : (rowsAfter w.collation plan.inc_key plan.id_key table v.cursor).length = left
  induction left using Nat.strong_induction_on generalizing batch_no v s with
  | _ left ih =>
      by_cases hnil : rowsAfter w.collation plan.inc_key plan.id_key table v.cursor = []
      · obtain ⟨s', log, hround, hgoes⟩ :=
          planRound_of_nil (s := s) htable (henv.source batch_no) hnil
        obtain rfl : 0 = left := by rw [← hleft, hnil, List.length_nil]
        refine ⟨0, s', log, ?_, hnil ▸ hgoes⟩
        rintro (_ | fuel) hfuel
        · exact absurd hfuel (Nat.lt_irrefl 0)
        · rw [planLoop, bind_apply, hround]
          rfl
      · obtain ⟨c, n, s₁, log, hround, hgoes, hmark, hrest⟩ :=
          planRound_of_ne_nil htable (henv.source batch_no) haccept hlimit hstart hnil
        set rows := rowsAfter w.collation plan.inc_key plan.id_key table v.cursor with hrows
        have hpos : 0 < rows.length := List.length_pos_iff.mpr hnil
        have hlen : (rows.drop plan.limit).length < left := by
          rw [List.length_drop]
          omega
        obtain ⟨n', s', log', hloop, hgoes'⟩ := ih _ hlen (batch_no + 1) (s := s₁)
          (v := { v with
            cursor := some c
            total_read := v.total_read + (rows.take plan.limit).length
            total_written := v.total_written + n }) hmark (by rw [hrest])
        rw [hrest] at hgoes'
        have hgoes_all := hgoes.append hgoes'
        rw [List.take_append_drop] at hgoes_all
        refine ⟨n + n', s', log ++ log', ?_, hgoes_all⟩
        rintro (_ | fuel) hfuel
        · exact absurd hfuel (Nat.not_lt_zero _)
        · have hread : (rows.take plan.limit).length + (rows.drop plan.limit).length = left := by
            rw [← List.length_append, List.take_append_drop, hleft]
          rw [planLoop, bind_apply, hround]
          simp only [henv.status, if_false]
          rw [hloop fuel (by omega)]
          simp only [Nat.add_assoc, hread]

end Loop

/-! ## The run -/

section Run

variable {P : Type} [DecidableEq P]

/-- The configuration passes the checks of the runner. -/
structure Configured (pl : PipelineSnapshot) (transformer : Transformer) : Prop where
  mode : pl.mode = .incremental
  query_set : PyText.truthy pl.source_query = true
  key_set : PyText.truthy pl.incremental_key = true
  key_ident : matchesIdent (incKey pl) = true
  id_key_ident : matchesIdent (idKey pl) = true
  resolved : resolve_transformer pl = .ok transformer

/-- The checkpoint in the tables of a session. -/
def Session.checkpoint (s : Session P) (C : Collation) (τ : IdType) (p : P) :
    WithBot FeedPosition :=
  EtlPlatform.checkpoint C τ (s.store.etl_state p)

/--
From `s` the run returns, in `s'`, having seen `log`: it has read the rows of
the table above the checkpoint of `s`, each once and in order, and moved the
checkpoint up to the greatest of them.
-/
structure ExactRun (w : World) (env : Surroundings) (p : P) (pl : PipelineSnapshot) (τ : IdType)
    (table : List Row) (s s' : Session P) (log : List Seen) : Prop where
  returns : ∃ written, ∀ fuel, table.length < fuel →
    run_sql_incremental_pipeline w env p pl fuel s =
      .ok (some ((batchesRead log).flatten.length, written)) s'
  seen : s'.seen = s.seen ++ log
  complete : (batchesRead log).flatten.Perm (table.filter (fun r =>
    decide (s.checkpoint w.collation τ p < rowPosition w.collation (incKey pl) (idKey pl) r)))
  sorted : (batchesRead log).flatten.Pairwise (fun r r' =>
    rowPosition w.collation (incKey pl) (idKey pl) r <
      rowPosition w.collation (incKey pl) (idKey pl) r')
  increasing : (s.checkpoint w.collation τ p :: checkpoints w.collation τ log).Pairwise (· < ·)
  last : (s.checkpoint w.collation τ p :: checkpoints w.collation τ log).getLast? =
    some (s'.checkpoint w.collation τ p)
  greatest : (batchesRead log).flatten ≠ [] →
    (∃ r ∈ (batchesRead log).flatten,
      s'.checkpoint w.collation τ p = rowPosition w.collation (incKey pl) (idKey pl) r) ∧
    ∀ r ∈ (batchesRead log).flatten,
      (rowPosition w.collation (incKey pl) (idKey pl) r : WithBot FeedPosition) ≤
        s'.checkpoint w.collation τ p
  kept : (batchesRead log).flatten = [] → s'.store = s.store

variable {w : World} {env : Surroundings} {p : P} {pl : PipelineSnapshot}
  {transformer : Transformer} {τ : IdType} {table : List Row} {s s' : Session P}

/-- With its checks passed and its checkpoint decoded, the run is the loop of its plan. -/
theorem run_eq_planLoop
    (hconf : Configured pl transformer) {c : Option Cursor}
    (hstart : decodeState (s.store.etl_state p) = .ok c) (env : Surroundings) (fuel : ℕ) :
    run_sql_incremental_pipeline w env p pl fuel s =
      planLoop w env p (sqlPlan pl (transformer.transform w.modules)) fuel 1
        (LoopVars.initial c) s := by
  rw [run_sql_incremental_pipeline_eq hconf.mode hconf.query_set hconf.key_set hconf.key_ident
    hconf.id_key_ident hconf.resolved, ← sqlLoop_eq_planLoop]
  simp only [bind_apply, get_apply, hstart, ofExcept_ok, pure_apply]
  rfl

/-- A run goes over the rows after its checkpoint. -/
theorem run_goesOver
    (hconf : Configured pl transformer)
    (henv : Undisturbed env (baseQuery (pl.source_query.getD "")) table)
    (htable : KeysetTable τ (incKey pl) (idKey pl) table)
    (haccept : Accepts w (sqlPlan pl (transformer.transform w.modules)) table) {c : Option Cursor}
    (hstart : decodeState (s.store.etl_state p) = .ok c) :
    ∃ n s' log,
      (∀ fuel, (rowsAfter w.collation (incKey pl) (idKey pl) table c).length < fuel →
        run_sql_incremental_pipeline w env p pl fuel s =
          .ok (some ((rowsAfter w.collation (incKey pl) (idKey pl) table c).length, n)) s') ∧
      GoesOver w.collation τ (incKey pl) (idKey pl) p
        (rowsAfter w.collation (incKey pl) (idKey pl) table c) s s' log := by
  have hcursor : checkpoint w.collation τ (s.store.etl_state p) =
      mark w.collation τ (LoopVars.initial c).cursor :=
    checkpoint_of_decodeState hstart
  have hbase : Undisturbed env (sqlPlan pl (transformer.transform w.modules)).base table := henv
  obtain ⟨n, s', log, hruns, hgoes⟩ :=
    planLoop_goesOver hbase htable haccept (batchSizeOr_pos _) 1 hcursor
  refine ⟨n, s', log, fun fuel hfuel => ?_, hgoes⟩
  rw [run_eq_planLoop hconf hstart, hruns fuel hfuel]
  simp only [LoopVars.initial, Nat.zero_add]
  rfl

omit [DecidableEq P] in
/-- The rows after a cursor are those above it. -/
theorem rowsAfter_perm
    {C : Collation} {inc_key id_key : String} (htable : KeysetTable τ inc_key id_key table)
    (c : Option Cursor) :
    (rowsAfter C inc_key id_key table c).Perm (table.filter (fun r =>
      decide (mark C τ c < rowPosition C inc_key id_key r))) := by
  refine ordered_perm.trans (List.Perm.of_eq (List.filter_congr fun r hr => ?_))
  rw [Bool.eq_iff_iff, batchWhere_iff (htable.keys r hr).hasKeys, decide_eq_true_iff]

/-- **A run over a table that stays as it is is exact.** -/
theorem exists_exactRun
    (hconf : Configured pl transformer)
    (henv : Undisturbed env (baseQuery (pl.source_query.getD "")) table)
    (htable : KeysetTable τ (incKey pl) (idKey pl) table)
    (haccept : Accepts w (sqlPlan pl (transformer.transform w.modules)) table)
    (hstart : ∃ c, decodeState (s.store.etl_state p) = .ok c) :
    ∃ s' log, ExactRun w env p pl τ table s s' log ∧
      ∃ c, decodeState (s'.store.etl_state p) = .ok c := by
  obtain ⟨c, hc⟩ := hstart
  obtain ⟨n, s', log, hruns, hgoes⟩ := run_goesOver hconf henv htable haccept hc
  set rows := rowsAfter w.collation (incKey pl) (idKey pl) table c with hrows
  have hperm : rows.Perm _ := rowsAfter_perm htable c
  have hstart : s.checkpoint w.collation τ p = mark w.collation τ c := checkpoint_of_decodeState hc
  have hsorted : rows.Pairwise (fun r r' =>
      rowPosition w.collation (incKey pl) (idKey pl) r <
        rowPosition w.collation (incKey pl) (idKey pl) r') :=
    ordered_pairwise_lt (fun a b => rowLe_iff w.collation (incKey pl) (idKey pl) a b)
      (htable.positions_nodup w.collation)
  refine ⟨s', log, ⟨⟨n, fun fuel hfuel => ?_⟩, hgoes.seen, ?_, ?_, hgoes.increasing, hgoes.last,
    ?_, ?_⟩, hgoes.decodes ⟨c, hc⟩⟩
  · have hlength : rows.length ≤ table.length :=
      hperm.length_eq.trans_le (List.length_filter_le _ _)
    rw [hgoes.read]
    exact hruns fuel (hlength.trans_lt hfuel)
  · rw [hgoes.read, hstart]
    exact hperm
  · rw [hgoes.read]
    exact hsorted
  · intro hne
    rw [hgoes.read] at hne ⊢
    have hends := hgoes.ends _ (List.getLast?_eq_some_getLast hne)
    refine ⟨⟨_, List.getLast_mem hne, hends⟩, fun r hr => ?_⟩
    have hle := (hsorted.imp le_of_lt).rel_getLast (R := fun a b => rowPosition w.collation
      (incKey pl) (idKey pl) a ≤ rowPosition w.collation (incKey pl) (idKey pl) b) hr
    exact (WithBot.coe_le_coe.mpr hle).trans_eq hends.symm
  · rw [hgoes.read]
    exact hgoes.kept

/-! ## The next run -/

/-- The table after some of its rows were raised. -/
def raised (touched : Row → Bool) (raise : Row → Row) (table : List Row) : List Row :=
  table.map (fun r => if touched r then raise r else r)

/-- Every touched row gets a key pair of its own, above the checkpoint. -/
structure Raises (C : Collation) (τ : IdType) (inc_key id_key : String) (table : List Row)
    (touched : Row → Bool) (raise : Row → Row) (at_mark : WithBot FeedPosition) : Prop where
  keys : ∀ r ∈ table, touched r = true → KeysetRow τ inc_key id_key (raise r)
  above : ∀ r ∈ table, touched r = true →
    at_mark < (rowPosition C inc_key id_key (raise r) : WithBot FeedPosition)
  distinct : ((table.filter touched).map (fun r => keyPair inc_key id_key (raise r))).Nodup

/-- After an exact run no row of the table is above the checkpoint. -/
theorem ExactRun.upto
    {log : List Seen} (h : ExactRun w env p pl τ table s s' log) {r : Row} (hr : r ∈ table) :
    (rowPosition w.collation (incKey pl) (idKey pl) r : WithBot FeedPosition) ≤
      s'.checkpoint w.collation τ p := by
  by_cases habove : s.checkpoint w.collation τ p <
      (rowPosition w.collation (incKey pl) (idKey pl) r : WithBot FeedPosition)
  · have hread : r ∈ (batchesRead log).flatten :=
      h.complete.mem_iff.mpr (List.mem_filter.mpr ⟨hr, decide_eq_true habove⟩)
    exact (h.greatest (List.ne_nil_of_mem hread)).2 r hread
  · refine (not_lt.mp habove).trans ?_
    rcases List.mem_cons.mp (List.mem_of_getLast? h.last) with heq | hmem
    · exact heq.ge
    · exact ((List.pairwise_cons.mp h.increasing).1 _ hmem).le

variable {C : Collation} {inc_key id_key : String} {touched : Row → Bool} {raise : Row → Row}
  {at_mark : WithBot FeedPosition}

omit [DecidableEq P] in
/-- The raised table keeps the contract. -/
theorem Raises.keysetTable
    (h : Raises C τ inc_key id_key table touched raise at_mark)
    (htable : KeysetTable τ inc_key id_key table)
    (hupto : ∀ r ∈ table, (rowPosition C inc_key id_key r : WithBot FeedPosition) ≤ at_mark) :
    KeysetTable τ inc_key id_key (raised touched raise table) := by
  constructor
  · intro r' hr'
    obtain ⟨r, hr, rfl⟩ := List.mem_map.mp hr'
    split_ifs with ht
    · exact h.keys r hr ht
    · exact htable.keys r hr
  · -- a touched row is past the checkpoint, the others are not
    have hpast : ∀ r ∈ table, ∀ r' ∈ table, touched r = true →
        keyPair inc_key id_key (raise r) ≠ keyPair inc_key id_key r' := by
      intro r hr r' hr' ht heq
      have hpos := ((h.keys r hr ht).rowPosition_eq_iff (C := C) (htable.keys r' hr')).mpr heq
      exact absurd (hupto r' hr') (not_le.mpr (hpos ▸ h.above r hr ht))
    have hkept := List.pairwise_map.mp htable.distinct
    have hraised := List.pairwise_filter.mp (List.pairwise_map.mp h.distinct)
    rw [raised, List.map_map]
    refine List.pairwise_map.mpr ((hkept.and hraised).imp_of_mem ?_)
    rintro r r' hr hr' ⟨hne, hne'⟩
    simp only [Function.comp_apply]
    split_ifs with ht ht'
    · exact hne' ht ht'
    · exact hpast r hr r' hr' ht
    · exact (hpast r' hr' r hr ‹_›).symm
    · exact hne

omit [DecidableEq P] in
/-- Its rows above the checkpoint are the raised ones. -/
theorem Raises.filter_above
    (h : Raises C τ inc_key id_key table touched raise at_mark)
    (hupto : ∀ r ∈ table, (rowPosition C inc_key id_key r : WithBot FeedPosition) ≤ at_mark) :
    (raised touched raise table).filter (fun r =>
        decide (at_mark < (rowPosition C inc_key id_key r : WithBot FeedPosition))) =
      (table.filter touched).map raise := by
  rw [raised, List.filter_map]
  have hfilter : table.filter ((fun r =>
      decide (at_mark < (rowPosition C inc_key id_key r : WithBot FeedPosition))) ∘
        (fun r => if touched r then raise r else r)) = table.filter touched := by
    refine List.filter_congr fun r hr => ?_
    rw [Function.comp_apply]
    cases ht : touched r with
    | true =>
        simpa [ht] using h.above r hr ht
    | false =>
        simpa [ht] using hupto r hr
  rw [hfilter]
  refine List.map_congr_left fun r hr => ?_
  rw [if_pos (List.mem_filter.mp hr).2]

/--
**Exactness of an incremental run.**  Over a table that stays as it is, with no
pause, the run reads exactly the rows above its checkpoint, in order; the next
run reads nothing; and once some rows are raised above the checkpoint, the next
run reads exactly these.
-/
theorem incremental_run_exact
    (hconf : Configured pl transformer)
    (henv : Undisturbed env (baseQuery (pl.source_query.getD "")) table)
    (htable : KeysetTable τ (incKey pl) (idKey pl) table)
    (haccept : Accepts w (sqlPlan pl (transformer.transform w.modules)) table)
    (hstart : ∃ c, decodeState (s.store.etl_state p) = .ok c) :
    ∃ s' log, ExactRun w env p pl τ table s s' log ∧
      (∀ env', Undisturbed env' (baseQuery (pl.source_query.getD "")) table →
        ∃ s'' log', ExactRun w env' p pl τ table s' s'' log' ∧
          (batchesRead log').flatten = [] ∧ s''.store = s'.store) ∧
      ∀ touched raise env',
        Raises w.collation τ (incKey pl) (idKey pl) table touched raise
          (s'.checkpoint w.collation τ p) →
        Undisturbed env' (baseQuery (pl.source_query.getD "")) (raised touched raise table) →
        Accepts w (sqlPlan pl (transformer.transform w.modules)) (raised touched raise table) →
        ∃ s'' log', ExactRun w env' p pl τ (raised touched raise table) s' s'' log' ∧
          (batchesRead log').flatten.Perm ((table.filter touched).map raise) := by
  obtain ⟨s', log, hrun, hend⟩ := exists_exactRun hconf henv htable haccept hstart
  refine ⟨s', log, hrun, ?_, ?_⟩
  · intro env' henv'
    obtain ⟨s'', log', hrun', -⟩ := exists_exactRun hconf henv' htable haccept hend
    have hnothing : (batchesRead log').flatten = [] := by
      refine List.eq_nil_iff_forall_not_mem.mpr fun r hr => ?_
      obtain ⟨hmem, habove⟩ := List.mem_filter.mp (hrun'.complete.mem_iff.mp hr)
      exact absurd (hrun.upto hmem) (not_le.mpr (of_decide_eq_true habove))
    exact ⟨s'', log', hrun', hnothing, hrun'.kept hnothing⟩
  · intro touched raise env' hraises henv' haccept'
    obtain ⟨s'', log', hrun', -⟩ := exists_exactRun hconf henv'
      (hraises.keysetTable htable fun r hr => hrun.upto hr) haccept' hend
    refine ⟨s'', log', hrun', hrun'.complete.trans (List.Perm.of_eq ?_)⟩
    exact hraises.filter_above fun r hr => hrun.upto hr

/-- Two films of one day, and one of the next. -/
def threeFilms : List Row :=
  [filmRow "f3" "Brazil" (january 5 (by decide)), filmRow "f1" "Alien" (january 4 (by decide)),
    filmRow "f2" "Solaris" (january 4 (by decide))]

theorem keysetTable_threeFilms :
    KeysetTable .text "updated_at" "film_id" threeFilms where
  keys := by
    intro r hr
    simp only [threeFilms, List.mem_cons, List.not_mem_nil, or_false] at hr
    rcases hr with rfl | rfl | rfl <;>
      exact ⟨⟨_, rfl, rfl⟩, ⟨_, by decide, rfl, rfl⟩⟩
  distinct := by decide +kernel

/-- The writer takes every row of a film table. -/
theorem accepts_threeFilms :
    Accepts World.plain
      (sqlPlan (snapshot_pipeline (filmPipeline .incremental 2 .RUNNING))
        (Transformer.noOp.transform World.plain.modules)) threeFilms := by
  intro rows hsub
  obtain ⟨items, hitems⟩ := exists_mapM_eq_ok
    (f := Writer.postgres.item storeAsGiven "analytics.film_dim") (l := rows) (by
      intro r hr
      have hmem := hsub hr
      simp only [threeFilms, List.mem_cons, List.not_mem_nil, or_false] at hmem
      rcases hmem with rfl | rfl | rfl <;> exact ⟨_, rfl⟩)
  exact ⟨rows, items, rfl, Writer.write_eq_ok_iff.mpr hitems⟩

/-- From a checkpoint between the two films of one day. -/
theorem incremental_run_exact_three_films :
    let s : Session Unit :=
      ⟨⟨filmSource [], fun _ => some ⟨some "2024-01-04T00:00:00+00:00", some "f1"⟩,
        fun _ => none⟩, [], []⟩
    let env : Surroundings := ⟨fun _ => filmSource threeFilms, fun _ => .RUNNING⟩
    ∃ s' log, ExactRun World.plain env ()
      (snapshot_pipeline (filmPipeline .incremental 2 .RUNNING)) .text threeFilms s s' log ∧
      (batchesRead log).flatten.Perm
        [filmRow "f3" "Brazil" (january 5 (by decide)),
          filmRow "f2" "Solaris" (january 4 (by decide))] := by
  intro s env
  have hconf : Configured (snapshot_pipeline (filmPipeline .incremental 2 .RUNNING)) .noOp :=
    ⟨rfl, by decide +kernel, by decide +kernel, by decide +kernel, by decide +kernel, rfl⟩
  have henv : Undisturbed env filmQuery threeFilms :=
    ⟨fun _ => rfl, fun _ hpause => by cases hpause⟩
  have hstart : ∃ c, decodeState (s.store.etl_state ()) = .ok c :=
    ⟨some ⟨january 4 (by decide), "f1"⟩, by decide +kernel⟩
  obtain ⟨s', log, hrun, -⟩ := incremental_run_exact hconf henv keysetTable_threeFilms
    accepts_threeFilms hstart
  refine ⟨s', log, hrun, hrun.complete.trans (List.Perm.of_eq ?_)⟩
  decide +kernel

end Run

end Sequential
end EtlPlatform
