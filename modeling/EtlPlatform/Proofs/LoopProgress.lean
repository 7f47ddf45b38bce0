import EtlPlatform.Proofs.FullSteps
import EtlPlatform.Proofs.RowFeed
import EtlPlatform.Proofs.TaskPlans

/-!
# Every batch makes progress

Over tables that stay as they are, a batch loop has a number of rows left to
read, and a batch that is not empty leaves fewer.  A full run counts the rows
behind its offset, an incremental run those behind its cursor.  The second count
falls when the keys of the tail row are the keys the batch was ordered by, which
takes transforms that leave the rows alone and an id column of one type.
-/

namespace EtlPlatform

open Library

/-! ## Counting -/

/-- A stronger condition that one of the elements fails holds of fewer of them. -/
theorem countP_lt_countP
    {ρ : Type} {p q : ρ → Bool} {rows : List ρ} {x : ρ}
    (himp : ∀ r ∈ rows, p r = true → q r = true)
    (hx : x ∈ rows) (hq : q x = true) (hp : p x = false) :
    rows.countP p < rows.countP q := by
  obtain ⟨before, after, rfl⟩ := List.append_of_mem hx
  have hbefore : before.countP p ≤ before.countP q :=
    List.countP_mono_left (fun r hr => himp r (List.mem_append_left _ hr))
  have hafter : after.countP p ≤ after.countP q :=
    List.countP_mono_left
      (fun r hr => himp r (List.mem_append_right _ (List.mem_cons_of_mem _ hr)))
  rw [List.countP_append, List.countP_append, List.countP_cons_of_pos hq,
    List.countP_cons_of_neg (by simp [hp])]
  omega

/-! ## Progress -/

section Progress

variable {P : Type}

/-- The rows a base query returns; none if it raises. -/
def rowsOf (src : Source) (base : String) : List Row :=
  (src base).toOption.getD []

theorem rowsOf_of_ok
    {src : Source} {base : String} {table : List Row} (h : src base = .ok table) :
    rowsOf src base = table := by
  rw [rowsOf, h]
  rfl

/-- Over the tables `src`, the loop starts with at most `n` rows left, and a batch that is not
empty leaves fewer. -/
structure BatchLoop.Progress (bl : BatchLoop P) (src : Source) (left : LoopVars → ℕ) (n : ℕ) :
    Prop where
  starts : ∀ {st : Store P} {v : LoopVars}, bl.setup st = .ok v → left v ≤ n
  advances : ∀ {st : Store P} {v v' : LoopVars} {rows : List Row} {res : Transformed} {k : ℕ}
    {ws : List (Write P)}, st.source = src → bl.query st v = .ok rows → rows ≠ [] →
      bl.transform rows = .ok res → bl.advance v rows res.left k = .ok (v', ws) →
      left v' < left v

/-- The rows behind the offset of a full run. -/
def leftBehindOffset (src : Source) (base_query : String) (v : LoopVars) : ℕ :=
  (rowsOf src (baseQuery base_query)).length - v.offset

/-- **A full run makes progress** whatever its offset advances by. -/
theorem FullRuns.FullPlan.progress
    (w : World) (src : Source) (plan : FullRuns.FullPlan) {next : ℕ → List Row → ℕ}
    (hnext : ∀ (offset : ℕ) (rows : List Row), rows ≠ [] → offset < next offset rows) :
    (plan.loop w next : BatchLoop P).Progress src (leftBehindOffset src plan.base)
      (rowsOf src (baseQuery plan.base)).length where
  starts {st v} _ := Nat.sub_le _ _
  advances := by
    intro st v v' rows res k ws hsrc hquery hne _ hadvance
    obtain ⟨rfl, -⟩ := Prod.mk.inj (Except.ok.inj hadvance)
    have hwindow : _wrap_query_with_limit_offset st.source plan.base plan.limit v.offset =
        .ok rows := hquery
    rw [hsrc] at hwindow
    cases htable : src (baseQuery plan.base) with
    | error exc =>
        simp [_wrap_query_with_limit_offset, htable, bind, Except.bind] at hwindow
    | ok table =>
        rw [FullRuns.wrap_query_eq_window htable] at hwindow
        obtain rfl := Except.ok.inj hwindow
        have hmore : v.offset < table.length := by
          by_contra hend
          refine hne ?_
          rw [window, List.drop_eq_nil_of_le (Nat.le_of_not_lt hend), List.take_nil]
        have hstep := hnext v.offset _ hne
        simp only [leftBehindOffset, rowsOf_of_ok htable, FullRuns.nextVars]
        omega

end Progress

/-! ## Incremental runs -/

section Keyset

variable (C : Collation) (inc_key id_key : String)

/--
What the progress of an incremental run takes from its table: a column under the
unfolded name of a key is the key column, and the ids that are not null are of
one type.
-/
structure SteadyKeys (table : List Row) : Prop where
  inc_named : ∀ r ∈ table, ∀ v, r.get? inc_key = some v → v = r.column (foldIdent inc_key)
  id_named : ∀ r ∈ table, ∀ v, r.get? id_key = some v → v = r.column (foldIdent id_key)
  one_type : ∀ r ∈ table, ∀ r' ∈ table,
    r.column (foldIdent id_key) ≠ .null → r'.column (foldIdent id_key) ≠ .null →
      (r.column (foldIdent id_key)).typeRepr = (r'.column (foldIdent id_key)).typeRepr

variable {C inc_key id_key}

/-- Keys written in lower case are looked up as the server names them. -/
theorem SteadyKeys.of_lower
    {table : List Row} (hinc : foldIdent inc_key = inc_key) (hid : foldIdent id_key = id_key)
    (htype : ∀ r ∈ table, ∀ r' ∈ table,
      r.column id_key ≠ .null → r'.column id_key ≠ .null →
        (r.column id_key).typeRepr = (r'.column id_key).typeRepr) :
    SteadyKeys inc_key id_key table where
  inc_named := by
    intro r _ v hv
    rw [hinc, Row.column, hv]
    rfl
  id_named := by
    intro r _ v hv
    rw [hid, Row.column, hv]
    rfl
  one_type := by
    rwa [hid]

/-- A value that takes a text parameter, and the value it takes it as. -/
theorem bindLike_eq_some
    {s : String} {v b : Value} (h : v.bindLike s = some b) (hv : v ≠ .null) :
    ∃ τ : IdType, v = τ.value v.str ∧ b = τ.value s := by
  cases v with
  | null =>
      exact absurd rfl hv
  | text t =>
      exact ⟨.text, rfl, (Option.some.inj h).symm⟩
  | uuid t =>
      exact ⟨.uuid, rfl, (Option.some.inj h).symm⟩
  | _ =>
      cases h

/-- The condition behind a cursor, by the ranks of what it compares. -/
theorem afterCursor_iff
    {inc_col id_col : String} {c : Cursor} {r : Row} :
    afterCursor C inc_col id_col c r = true ↔
      r.column inc_col ≠ .null ∧
        ((Value.datetime c.last_ts).rank C < (r.column inc_col).rank C ∨
          (r.column inc_col).rank C = (Value.datetime c.last_ts).rank C ∧
            ∃ τ : IdType, r.column id_col = τ.value (r.column id_col).str ∧
              (τ.value c.last_id).rank C < (r.column id_col).rank C) := by
  have hid : Value.sqlGt C (r.column id_col)
        (((r.column id_col).bindLike c.last_id).getD .null) = true ↔
      ∃ τ : IdType, r.column id_col = τ.value (r.column id_col).str ∧
        (τ.value c.last_id).rank C < (r.column id_col).rank C := by
    constructor
    · intro h
      simp only [Value.sqlGt, decide_eq_true_eq] at h
      obtain ⟨hne, hbound, hlt⟩ := h
      cases hbind : (r.column id_col).bindLike c.last_id with
      | none =>
          rw [hbind] at hbound
          exact absurd rfl hbound
      | some b =>
          obtain ⟨τ, hv, rfl⟩ := bindLike_eq_some hbind hne
          rw [hbind] at hlt
          exact ⟨τ, hv, (Value.le_eq_false_iff C _ _).mp hlt⟩
    · rintro ⟨τ, hv, hlt⟩
      rw [hv] at hlt ⊢
      simp only [Value.sqlGt, IdType.bindLike_value, Option.getD_some, decide_eq_true_eq]
      exact ⟨τ.value_ne_null _, τ.value_ne_null _, (Value.le_eq_false_iff C _ _).mpr hlt⟩
  simp only [afterCursor, Bool.or_eq_true, Bool.and_eq_true, hid]
  simp only [Value.sqlGt, Value.sqlEq, decide_eq_true_eq, Value.le_eq_false_iff,
    Value.le_iff_rank, ne_eq, reduceCtorEq, not_false_eq_true, true_and]
  constructor
  · rintro (⟨hne, hlt⟩ | ⟨⟨hne, hle, hge⟩, hid⟩)
    · exact ⟨hne, Or.inl hlt⟩
    · exact ⟨hne, Or.inr ⟨le_antisymm hle hge, hid⟩⟩
  · rintro ⟨hne, hlt | ⟨heq, hid⟩⟩
    · exact Or.inl ⟨hne, hlt⟩
    · exact Or.inr ⟨⟨hne, heq.le, heq.ge⟩, hid⟩

/-- Ids of one type are values of the same kind. -/
theorem idType_eq
    {v v' : Value} {τ τ' : IdType} {s s' : String}
    (hv : v = τ.value s) (hv' : v' = τ'.value s') (htype : v.typeRepr = v'.typeRepr) :
    τ = τ' := by
  subst hv hv'
  cases τ <;> cases τ' <;> simp_all [IdType.value, Value.typeRepr]

/-- A cursor taken from a row does not have the row behind it. -/
theorem afterCursor_self
    {inc_col id_col : String} {c : Cursor} {r : Row}
    (hts : r.column inc_col = .datetime c.last_ts) (hid : c.last_id = (r.column id_col).str) :
    afterCursor C inc_col id_col c r = false := by
  rw [← Bool.not_eq_true, afterCursor_iff, hts]
  rintro ⟨-, hlt | ⟨-, τ, hv, hlt⟩⟩
  · exact lt_irrefl _ hlt
  · rw [hid, ← hv] at hlt
    exact lt_irrefl _ hlt

/-- What is behind a row is behind every cursor the row is behind. -/
theorem afterCursor_trans
    {inc_col id_col : String} {c c' : Cursor} {tail r : Row}
    (hts : tail.column inc_col = .datetime c'.last_ts)
    (hid : c'.last_id = (tail.column id_col).str)
    (htype : tail.column id_col ≠ .null → r.column id_col ≠ .null →
      (tail.column id_col).typeRepr = (r.column id_col).typeRepr)
    (htail : afterCursor C inc_col id_col c tail = true)
    (hr : afterCursor C inc_col id_col c' r = true) :
    afterCursor C inc_col id_col c r = true := by
  rw [afterCursor_iff] at htail hr ⊢
  obtain ⟨-, htail⟩ := htail
  obtain ⟨hne, hr⟩ := hr
  refine ⟨hne, ?_⟩
  rw [hts] at htail
  rcases hr with hlt | ⟨heq, τ, hv, hgt⟩
  · -- the row is later than the tail
    refine Or.inl ?_
    rcases htail with hlt' | ⟨heq', -⟩
    · exact hlt'.trans hlt
    · rwa [← heq']
  · rcases htail with hlt' | ⟨heq', τ', hv', hgt'⟩
    · exact Or.inl (by rwa [heq])
    · -- all three stand at one time, and the ids decide
      have hne_tail : tail.column id_col ≠ .null := by
        rw [hv']
        exact τ'.value_ne_null _
      have hne_r : r.column id_col ≠ .null := by
        rw [hv]
        exact τ.value_ne_null _
      obtain rfl : τ' = τ := idType_eq hv' hv (htype hne_tail hne_r)
      refine Or.inr ⟨heq.trans heq', τ', hv, hgt'.trans ?_⟩
      rwa [hid, ← hv'] at hgt

/-- A tail cursor holds the keys of the tail row, as the batch was ordered by them. -/
theorem SteadyKeys.tailCursor_eq_ok
    {table rows : List Row} {c : Cursor} (h : SteadyKeys inc_key id_key table)
    (hsub : ∀ r ∈ rows, r ∈ table) (hc : tailCursor inc_key id_key rows = .ok c) :
    ∃ tail ∈ rows, tail.column (foldIdent inc_key) = .datetime c.last_ts ∧
      c.last_id = (tail.column (foldIdent id_key)).str := by
  cases hlast : rows.getLast? with
  | none =>
      simp [tailCursor, hlast] at hc
  | some tail =>
      have hmem : tail ∈ rows := List.mem_of_getLast? hlast
      refine ⟨tail, hmem, ?_⟩
      simp only [tailCursor, hlast] at hc
      split at hc
      · cases hc
      · cases hc
      · cases hc
      · rename_i t id hts hid
        obtain rfl := Except.ok.inj hc
        rw [← h.inc_named tail (hsub tail hmem) _ hts, ← h.id_named tail (hsub tail hmem) _ hid]
        exact ⟨rfl, rfl⟩
      · cases hc

/-- The rows behind the cursor of an incremental run. -/
def leftBehindCursor (C : Collation) (src : Source) (plan : IncrementalPlan) (v : LoopVars) : ℕ :=
  (rowsOf src plan.base).countP
    (batchWhere C (foldIdent plan.inc_key) (foldIdent plan.id_key) v.cursor)

variable {P : Type}

/-- **An incremental run makes progress** over a table with steady keys. -/
theorem IncrementalPlan.progress
    {w : World} {src : Source} {p : P} {plan : IncrementalPlan}
    (hpure : (plan.loop w p).Pure)
    (hkeys : SteadyKeys plan.inc_key plan.id_key (rowsOf src plan.base)) :
    (plan.loop w p).Progress src (leftBehindCursor w.collation src plan)
      (rowsOf src plan.base).length where
  starts {st v} _ := List.countP_le_length
  advances := by
    intro st v v' rows res k ws hsrc hquery _ htransform hadvance
    have hleft : res.left = rows := hpure rows res htransform
    rw [hleft] at hadvance
    have hbatch : incrementalBatch w.collation st.source plan.base plan.inc_key plan.id_key
        v.cursor plan.limit = .ok rows := hquery
    rw [hsrc] at hbatch
    obtain ⟨table, htable, hpage⟩ := incrementalBatch_eq_ok hbatch
    have hin : ∀ r ∈ rows, r ∈ table ∧
        batchWhere w.collation (foldIdent plan.inc_key) (foldIdent plan.id_key) v.cursor r =
          true := by
      intro r hr
      rw [hpage] at hr
      exact mem_page _ hr
    obtain ⟨c, hc, hcursor, -⟩ := IncrementalPlan.advanceIncremental_eq_ok hadvance
    rw [rowsOf_of_ok htable] at hkeys
    obtain ⟨tail, htail, hts, hid⟩ := hkeys.tailCursor_eq_ok (fun r hr => (hin r hr).1) hc
    obtain ⟨htail_mem, htail_where⟩ := hin tail htail
    simp only [leftBehindCursor, rowsOf_of_ok htable, hcursor]
    refine countP_lt_countP (fun r hr hafter => ?_) htail_mem htail_where
      (afterCursor_self hts hid)
    cases hv : v.cursor with
    | none =>
        rfl
    | some c₀ =>
        rw [hv] at htail_where
        exact afterCursor_trans hts hid (hkeys.one_type tail htail_mem r hr) htail_where hafter

end Keyset

/-! ## The runner a pipeline gets -/

section Runners

variable {P : Type} [DecidableEq P]

/-- The query the runner of a pipeline pages through. -/
def PipelineSnapshot.readerQuery (pl : PipelineSnapshot) : String :=
  match tasksSorted pl with
  | [] => baseQuery (pl.source_query.getD "")
  | reader :: _ => baseQuery reader.body

theorem readerQuery_of_no_tasks
    {pl : PipelineSnapshot} (h : pl.tasks = []) :
    pl.readerQuery = baseQuery (pl.source_query.getD "") := by
  simp [PipelineSnapshot.readerQuery, tasksSorted, h]

theorem readerQuery_of_sorted
    {pl : PipelineSnapshot} {reader : TaskSnapshot} {rest : List TaskSnapshot}
    (h : tasksSorted pl = reader :: rest) :
    pl.readerQuery = baseQuery reader.body := by
  rw [PipelineSnapshot.readerQuery, h]

/-- Of an incremental pipeline: its modules leave their rows alone, and its table has steady
keys. -/
def PipelineSnapshot.Steady (w : World) (src : Source) (pl : PipelineSnapshot) : Prop :=
  pl.mode = .incremental →
    (∀ path fn, w.modules path = .ok fn → fn.Pure) ∧
      SteadyKeys (incKey pl) (idKey pl) (rowsOf src pl.readerQuery)

/-- **Every runner makes progress**: it has at most the rows of its reader before it. -/
theorem exists_progress
    {w : World} {src : Source} {p : P} {pl : PipelineSnapshot} {bl : BatchLoop P}
    (h : _run_body w p pl = .ok bl) (hsteady : pl.Steady w src) :
    ∃ left, bl.Progress src left (rowsOf src pl.readerQuery).length := by
  by_cases htasks : pl.tasks = []
  · rw [readerQuery_of_no_tasks htasks]
    cases hmode : pl.mode with
    | full =>
        simp only [_run_body, htasks, ne_eq, not_true_eq_false, if_false, hmode] at h
        obtain ⟨tr, -, rfl⟩ := FullRuns.run_sql_full_pipeline_eq_ok h
        refine ⟨_, FullRuns.FullPlan.progress w src _ (fun offset rows hne => ?_)⟩
        exact Nat.lt_add_of_pos_right (List.length_pos_of_ne_nil hne)
    | incremental =>
        obtain ⟨hpure, hkeys⟩ := hsteady hmode
        rw [readerQuery_of_no_tasks htasks] at hkeys
        rw [run_body_of_no_tasks w p htasks hmode] at h
        obtain ⟨tr, -, rfl⟩ := run_sql_incremental_pipeline_eq_ok h
        exact ⟨_, IncrementalPlan.progress
          (fun rows res hres => Transformer.left_eq hpure hres) hkeys⟩
  · rw [_run_body, if_pos htasks] at h
    obtain ⟨snap, hvalid, h⟩ := bind_eq_ok_iff.mp h
    obtain ⟨-, rfl⟩ := (validate_tasks_v1_eq_ok_iff htasks).mp hvalid
    cases hmode : pl.mode with
    | full =>
        simp only [hmode] at h
        obtain ⟨reader, rest, fns, hsorted, -, rfl⟩ := FullRuns.run_tasks_full_eq_ok h
        rw [readerQuery_of_sorted hsorted]
        refine ⟨_, FullRuns.FullPlan.progress w src _ (fun offset rows _ => ?_)⟩
        exact Nat.lt_add_of_pos_right (batchSizeOr_pos _)
    | incremental =>
        obtain ⟨hpure, hkeys⟩ := hsteady hmode
        simp only [hmode] at h
        obtain ⟨reader, rest, fns, hsorted, hfns, rfl⟩ := run_tasks_incremental_eq_ok h
        rw [readerQuery_of_sorted hsorted] at hkeys ⊢
        refine ⟨_, IncrementalPlan.progress (fun rows res hres => ?_) hkeys⟩
        obtain rfl := Except.ok.inj hres
        refine applyTransforms_pure (fun fn hfn => ?_) rows
        obtain ⟨t, -, ht⟩ := mem_of_mapM hfns hfn
        exact hpure t.body fn ht

end Runners

end EtlPlatform
