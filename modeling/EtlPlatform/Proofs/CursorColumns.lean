import EtlPlatform.Model.Deployment
import EtlPlatform.Proofs.CreationRules
import EtlPlatform.Proofs.ImportedModules

/-!
# The column behind a cursor

A key of an incremental pipeline is read three times: creation looks for it in
the query without regard to case, the batch query names it without quotes, so
that the server folds it, and the checkpoint looks it up as it is written.  The
three agree on the names written in lower case, and on no others.
-/

namespace EtlPlatform

open Library

/-! ## Names -/

section Names

/-- A folded letter is not folded again. -/
theorem toLower_comp_toLower :
    Char.toLower ∘ Char.toLower = Char.toLower := by
  funext c
  by_cases hupper : 'A'.val ≤ c.val ∧ c.val ≤ 'Z'.val
  · have hval : c.toLower.val = c.val + ('a'.val - 'A'.val) :=
      congrArg Char.val (dif_pos hupper)
    have hlower : ¬('A'.val ≤ c.toLower.val ∧ c.toLower.val ≤ 'Z'.val) := by
      rw [hval]
      grind [UInt32.toNat_add]
    exact dif_neg hlower
  · have hfixed : c.toLower = c :=
      dif_neg hupper
    rw [Function.comp_apply, hfixed, hfixed]

/-- Folding a name twice is folding it once. -/
@[simp] theorem foldIdent_foldIdent
    (name : String) :
    foldIdent (foldIdent name) = foldIdent name := by
  simp only [foldIdent, String.toList_ofList, List.map_map, toLower_comp_toLower]

/-- The runner takes an identifier as it is. -/
theorem validate_sql_ident_self
    {name : String} (h : matchesIdent name = true) (what : String) :
    validate_sql_ident name what = .ok name := by
  have hspace : ∀ c ∈ name.toList, PyText.isSpace c = false := by
    intro c hc
    refine isSpace_of_isModuleChar ?_
    rw [matchesIdent] at h
    cases hchars : name.toList with
    | nil =>
        rw [hchars] at hc
        cases hc
    | cons d ds =>
        rw [hchars] at h hc
        obtain ⟨hhead, htail⟩ := Bool.and_eq_true_iff.mp h
        rcases List.mem_cons.mp hc with rfl | hc
        · simp [isModuleChar, isIdentTail, hhead]
        · simp [isModuleChar, List.all_eq_true.mp htail c hc]
  rw [validate_sql_ident, PyText.strip_eq_self hspace, if_pos h]

end Names

/-! ## Batches and their last rows -/

section Batches

variable (C : Collation)

/--
The runner takes both names, and whatever batch its query returns, the last row
holds under these names the values the batch was ordered by; of the errors of
the checkpoint, only those about the value of the key remain.
-/
structure ColumnsAgree (base inc_key id_key : String) : Prop where
  inc_accepted : validate_sql_ident inc_key "incremental_key" = .ok inc_key
  id_accepted : validate_sql_ident id_key "incremental_id_key" = .ok id_key
  looked_up : ∀ (source : Source) (cursor : Option Cursor) (limit : ℕ) (rows : List Row),
    incrementalBatch C source base inc_key id_key cursor limit = .ok rows →
      ∀ tail ∈ rows.getLast?,
        tail.get? inc_key = some (tail.column (foldIdent inc_key)) ∧
          tail.get? id_key = some (tail.column (foldIdent id_key))
  no_missing : ∀ (source : Source) (cursor : Option Cursor) (limit : ℕ) (rows : List Row),
    incrementalBatch C source base inc_key id_key cursor limit = .ok rows → rows ≠ [] →
      ∀ e, tailCursor inc_key id_key rows = .error e →
        e = valueError "Invariant broken: incremental_key value is None in tail row" ∨
          ∃ v : Value, e = valueError
            ("Invariant broken: incremental_key must be datetime, got " ++ v.typeRepr)

variable {C} {base inc_key id_key : String}

/-- A batch the server returns has both columns, under their folded names. -/
theorem columns_of_batch
    {source : Source} {cursor : Option Cursor} {limit : ℕ} {rows : List Row}
    (h : incrementalBatch C source base inc_key id_key cursor limit = .ok rows)
    {r : Row} (hr : r ∈ rows) :
    r.get? (foldIdent inc_key) = some (r.column (foldIdent inc_key)) ∧
      r.get? (foldIdent id_key) = some (r.column (foldIdent id_key)) := by
  simp only [incrementalBatch, check_eq_ok_iff, bind_eq_ok_iff, pure_eq_ok_iff] at h
  obtain ⟨table, -, hcolumns, -, rfl⟩ := h
  have hmem := (mem_page _ hr).1
  simp only [List.any_eq_true, Bool.or_eq_true, decide_eq_true_eq, not_exists, not_and,
    not_or] at hcolumns
  obtain ⟨hinc, hid⟩ := hcolumns r hmem
  obtain ⟨ts, hts⟩ := Option.ne_none_iff_exists'.mp hinc
  obtain ⟨id, hid⟩ := Option.ne_none_iff_exists'.mp hid
  exact ⟨by rw [Row.column, hts, Option.getD_some], by rw [Row.column, hid, Option.getD_some]⟩

/-- With both columns found, the checkpoint can only refuse the value of the key. -/
theorem tailCursor_eq_error
    {rows : List Row} {tail : Row} {ts id : Value} {e : Exc}
    (hlast : rows.getLast? = some tail)
    (hts : tail.get? inc_key = some ts) (hid : tail.get? id_key = some id)
    (h : tailCursor inc_key id_key rows = .error e) :
    e = valueError "Invariant broken: incremental_key value is None in tail row" ∨
      ∃ v : Value, e = valueError
        ("Invariant broken: incremental_key must be datetime, got " ++ v.typeRepr) := by
  simp only [tailCursor, hlast, hts, hid] at h
  cases ts with
  | null =>
      exact .inl (Except.error.inj h).symm
  | datetime t =>
      cases h
  | _ =>
      exact .inr ⟨_, (Except.error.inj h).symm⟩

/-- Names in lower case agree with the columns they name. -/
theorem columnsAgree_of_lower
    (hinc : matchesIdent inc_key = true) (hid : matchesIdent id_key = true)
    (hinc_lower : foldIdent inc_key = inc_key) (hid_lower : foldIdent id_key = id_key) :
    ColumnsAgree C base inc_key id_key := by
  have hlooked : ∀ (source : Source) (cursor : Option Cursor) (limit : ℕ) (rows : List Row),
      incrementalBatch C source base inc_key id_key cursor limit = .ok rows →
        ∀ tail ∈ rows.getLast?,
          tail.get? inc_key = some (tail.column (foldIdent inc_key)) ∧
            tail.get? id_key = some (tail.column (foldIdent id_key)) := by
    intro source cursor limit rows h tail htail
    have hcolumns := columns_of_batch h (List.mem_of_getLast? htail)
    rwa [hinc_lower, hid_lower] at hcolumns ⊢
  refine ⟨validate_sql_ident_self hinc _, validate_sql_ident_self hid _, hlooked, ?_⟩
  intro source cursor limit rows h hne e herror
  obtain ⟨tail, htail⟩ := Option.ne_none_iff_exists'.mp
    (fun hnone => hne (List.getLast?_eq_none_iff.mp hnone))
  obtain ⟨hts, hid⟩ := hlooked source cursor limit rows h tail htail
  exact tailCursor_eq_error htail hts hid herror

/-- The row a query returns that names its columns the way the keys are written. -/
def foldedRow (inc_col id_col : String) (ts id : Value) : Row where
  cells := if inc_col = id_col then [(inc_col, ts)] else [(inc_col, ts), (id_col, id)]
  nodup := by
    split_ifs with h
    · simp
    · simpa using h

theorem foldedRow_get?_eq_none_iff
    {inc_col id_col name : String} {ts id : Value} :
    (foldedRow inc_col id_col ts id).get? name = none ↔ name ≠ inc_col ∧ name ≠ id_col := by
  rw [Row.get?, foldedRow]
  split_ifs with h
  · subst h
    simp [List.lookup_eq_none_iff]
  · simp [List.lookup_eq_none_iff]

/-- The batch query returns a row of a table that holds it. -/
theorem incrementalBatch_foldedRow
    (ts id : Value) :
    incrementalBatch C (fun _ => .ok [foldedRow (foldIdent inc_key) (foldIdent id_key) ts id])
      base inc_key id_key none 1 =
        .ok [foldedRow (foldIdent inc_key) (foldIdent id_key) ts id] := by
  have hinc : ¬ (foldedRow (foldIdent inc_key) (foldIdent id_key) ts id).get?
      (foldIdent inc_key) = none := by
    simp [foldedRow_get?_eq_none_iff]
  have hid : ¬ (foldedRow (foldIdent inc_key) (foldIdent id_key) ts id).get?
      (foldIdent id_key) = none := by
    simp [foldedRow_get?_eq_none_iff]
  simp [incrementalBatch, hinc, hid, page, batchWhere, bind, Except.bind, pure, Except.pure]

/-- A name that the server folds is not found in the row it returned. -/
theorem lower_of_columnsAgree
    (h : ColumnsAgree C base inc_key id_key) :
    foldIdent inc_key = inc_key ∧ foldIdent id_key = id_key := by
  obtain ⟨hts, hid⟩ := h.looked_up _ none 1 _
    (incrementalBatch_foldedRow .null .null) _ rfl
  have hfound : ∀ name v, (foldedRow (foldIdent inc_key) (foldIdent id_key) .null .null).get?
      name = some v → foldIdent name = name := by
    intro name v hsome
    by_contra hfold
    have hnone : (foldedRow (foldIdent inc_key) (foldIdent id_key) .null .null).get? name =
        none :=
      foldedRow_get?_eq_none_iff.mpr ⟨fun heq => hfold (by rw [heq, foldIdent_foldIdent]),
        fun heq => hfold (by rw [heq, foldIdent_foldIdent])⟩
    rw [hnone] at hsome
    cases hsome
  exact ⟨hfound _ _ hts, hfound _ _ hid⟩

end Batches

/-! ## Created pipelines -/

section Creation

/-- The id key of a created pipeline is an identifier, also when it is left to its default. -/
theorem matchesIdent_id_key
    {payload : PipelineCreate} (h : payload.FieldsValid) :
    matchesIdent (targetOr payload.incremental_id_key "film_id") = true := by
  cases hid : payload.incremental_id_key with
  | none =>
      decide
  | some id_key =>
      have hident := h.incremental_id_key id_key hid
      have hne : id_key ≠ "" := by
        rintro rfl
        exact absurd hident (by decide)
      rw [targetOr, if_neg hne]
      exact hident

/--
**The cursor column is the ordering column exactly for keys in lower case.**
On every body creation accepts, the names the runner takes from it are looked
up as the columns the batch was ordered by, in every batch over every source,
if and only if the server folds neither of them.
-/
theorem cursor_columns_agree_iff
    (C : Collation)
    {body payload : PipelineCreate}
    {key : String}
    (hbody : body.model_validate = .ok payload)
    (hkey : payload.incremental_key = some key) :
    ColumnsAgree C (baseQuery payload.source_query) key
        (targetOr payload.incremental_id_key "film_id") ↔
      foldIdent key = key ∧
        foldIdent (targetOr payload.incremental_id_key "film_id") =
          targetOr payload.incremental_id_key "film_id" := by
  obtain ⟨hfields, -⟩ := PipelineCreate.model_validate_eq_ok hbody
  constructor
  · intro h
    exact lower_of_columnsAgree h
  · rintro ⟨hinc_lower, hid_lower⟩
    exact columnsAgree_of_lower (hfields.incremental_key key hkey) (matchesIdent_id_key hfields)
      hinc_lower hid_lower

/-- The keys of the film body are looked up as they were ordered by. -/
theorem cursor_columns_agree_film :
    ColumnsAgree .codepoint (baseQuery filmQuery) "updated_at" "film_id" := by
  have hbody : filmBody.model_validate.toOption.map (fun payload =>
      (payload.incremental_key, payload.incremental_id_key, payload.source_query)) =
        some (some "updated_at", some "film_id", filmQuery) := by
    decide +kernel
  cases hvalid : filmBody.model_validate with
  | error errors =>
      rw [hvalid] at hbody
      cases hbody
  | ok payload =>
      rw [hvalid] at hbody
      obtain ⟨hkey, hid_key, hquery⟩ : payload.incremental_key = some "updated_at" ∧
          payload.incremental_id_key = some "film_id" ∧ payload.source_query = filmQuery := by
        simpa [Except.toOption] using hbody
      have hiff := cursor_columns_agree_iff .codepoint hvalid hkey
      rw [hid_key, hquery] at hiff
      exact hiff.mpr ⟨by decide +kernel, by decide +kernel⟩

/-- A create body whose key is written as the query writes it, in mixed case. -/
def mixedCaseBody : PipelineCreate :=
  { filmBody with
    source_query := "SELECT film_id, title, updated_at AS Updated_At FROM film"
    incremental_key := some "Updated_At" }

/-- Creation accepts a key in mixed case, and so does the server, but the row it returns has no
column of that name. -/
theorem cursor_columns_differ :
    (mixedCaseBody.model_validate.toOption.map (fun payload =>
      (payload.incremental_key, payload.incremental_id_key, payload.source_query)) =
        some (some "Updated_At", some "film_id", mixedCaseBody.source_query)) ∧
      incrementalBatch .codepoint (fun _ => .ok [filmExample])
        (baseQuery mixedCaseBody.source_query) "Updated_At" "film_id" none 10 =
          .ok [filmExample] ∧
      tailCursor "Updated_At" "film_id" [filmExample] =
        .error (valueError "Row does not contain incremental_key='Updated_At'") ∧
      ¬ ColumnsAgree .codepoint (baseQuery mixedCaseBody.source_query) "Updated_At" "film_id" := by
  have hbatch : incrementalBatch .codepoint (fun _ => .ok [filmExample])
      (baseQuery mixedCaseBody.source_query) "Updated_At" "film_id" none 10 =
        .ok [filmExample] := by
    decide +kernel
  refine ⟨by decide +kernel, hbatch, by decide +kernel, ?_⟩
  intro h
  obtain ⟨hts, -⟩ := h.looked_up _ _ _ _ hbatch filmExample rfl
  exact absurd hts (by decide +kernel)

end Creation

end EtlPlatform
