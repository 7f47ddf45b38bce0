import EtlPlatform.Proofs.PlanRounds

/-!
# Tables with missing keys

A row whose key is `NULL` sorts behind all others and satisfies the condition of
no batch query but the first.  A table may hold such rows and still be regular:
its columns are there under the names the runner uses, its keys are timestamps
and its ids take text parameters.  Then a page takes all rows with a key up to
its cursor, and the first page holds rows without one only if those with one do
not fill it.
-/

namespace EtlPlatform
namespace Sequential

open Library

/-! ## Tables with missing keys -/

section Tables

variable (inc_key id_key : String)

/-- The key of the row is not `NULL`. -/
def HasKey (r : Row) : Prop :=
  r.column (foldIdent inc_key) ≠ .null

instance : DecidablePred (HasKey inc_key) :=
  fun r => inferInstanceAs (Decidable (r.column (foldIdent inc_key) ≠ .null))

/-- The rows with a key. -/
def keyedRows (table : List Row) : List Row :=
  table.filter (fun r => decide (HasKey inc_key r))

/--
A relation with columns for the key and the id.  Each column has one type, and
`NULL`s; whether the runner finds it under the name it uses is the same for all
rows.  Rows with a key have distinct pairs without `NULL`s.
-/
structure NullableTable (table : List Row) : Prop where
  key_type :
    (∀ r ∈ table, HasKey inc_key r → ∃ t, r.column (foldIdent inc_key) = .datetime t) ∨
      ∀ r ∈ table, ∀ t, r.column (foldIdent inc_key) ≠ .datetime t
  id_type :
    (∃ τ : IdType, ∀ r ∈ table, r.column (foldIdent id_key) = .null ∨
      ∃ s, r.column (foldIdent id_key) = τ.value s) ∨
      ∀ r ∈ table, r.column (foldIdent id_key) = .null ∨
        (r.column (foldIdent id_key)).bindLike "" = none
  key_named :
    (∀ r ∈ table, r.get? inc_key = some (r.column (foldIdent inc_key))) ∨
      ∀ r ∈ table, r.get? inc_key = none
  id_named :
    (∀ r ∈ table, r.get? id_key = some (r.column (foldIdent id_key))) ∨
      ∀ r ∈ table, r.get? id_key = none
  id_set : ∀ r ∈ table, HasKey inc_key r → r.column (foldIdent id_key) ≠ .null
  distinct : ((keyedRows inc_key table).map (fun r =>
    (r.column (foldIdent inc_key), r.column (foldIdent id_key)))).Nodup

/-- The columns are what the runner asks for: both are there, under both spellings of their
names, keys are timestamps, and ids take text parameters. -/
structure RegularTable (τ : IdType) (table : List Row) : Prop where
  columns : ∀ r ∈ table, r.get? (foldIdent inc_key) ≠ none ∧ r.get? (foldIdent id_key) ≠ none
  key_named : ∀ r ∈ table, r.get? inc_key = some (r.column (foldIdent inc_key))
  id_named : ∀ r ∈ table, r.get? id_key = some (r.column (foldIdent id_key))
  key_type : ∀ r ∈ table, HasKey inc_key r → ∃ t, r.column (foldIdent inc_key) = .datetime t
  id_type : ∀ r ∈ table, r.column (foldIdent id_key) = .null ∨
    ∃ s, r.column (foldIdent id_key) = τ.value s

variable {inc_key id_key} {C : Collation} {τ : IdType} {table : List Row}

/-- Behind a cursor no row without a key is returned. -/
theorem hasKey_of_batchWhere
    {c : Cursor} {r : Row}
    (h : batchWhere C (foldIdent inc_key) (foldIdent id_key) (some c) r = true) :
    HasKey inc_key r := by
  intro hnull
  simp [batchWhere, afterCursor, Value.sqlGt, Value.sqlEq, hnull] at h

/-- The row has an id where it has a key. -/
theorem RegularTable.exists_id
    (hreg : RegularTable inc_key id_key τ table) (htable : NullableTable inc_key id_key table)
    {r : Row} (hr : r ∈ table) (hkey : HasKey inc_key r) :
    ∃ s, r.column (foldIdent id_key) = τ.value s :=
  (hreg.id_type r hr).resolve_left (htable.id_set r hr hkey)

theorem RegularTable.batchWhere_iff
    (hreg : RegularTable inc_key id_key τ table) (htable : NullableTable inc_key id_key table)
    {r : Row} (hr : r ∈ table) (hkey : HasKey inc_key r) (c : Option Cursor) :
    batchWhere C (foldIdent inc_key) (foldIdent id_key) c r = true ↔
      mark C τ c < (rowPosition C inc_key id_key r : WithBot FeedPosition) := by
  obtain ⟨s, hs⟩ := hreg.exists_id htable hr hkey
  exact batchWhere_iff_of_ne_null hkey hs c

/-- Rows with a key are told apart by their positions. -/
theorem RegularTable.eq_of_rowPosition
    (hreg : RegularTable inc_key id_key τ table) (htable : NullableTable inc_key id_key table)
    {r r' : Row} (hr : r ∈ table) (hr' : r' ∈ table) (hkey : HasKey inc_key r)
    (hkey' : HasKey inc_key r')
    (heq : rowPosition C inc_key id_key r = rowPosition C inc_key id_key r') :
    r = r' := by
  obtain ⟨t, ht⟩ := hreg.key_type r hr hkey
  obtain ⟨t', ht'⟩ := hreg.key_type r' hr' hkey'
  obtain ⟨s, hs⟩ := hreg.exists_id htable hr hkey
  obtain ⟨s', hs'⟩ := hreg.exists_id htable hr' hkey'
  have hkeys : rowKey C inc_key r = rowKey C inc_key r' := congrArg (fun q => (ofLex q).1) heq
  have hids : rowId C id_key r = rowId C id_key r' := congrArg (fun q => (ofLex q).2) heq
  rw [rowKey, rowKey, ht, ht'] at hkeys
  rw [rowId, rowId, hs, hs'] at hids
  have hpair : (r.column (foldIdent inc_key), r.column (foldIdent id_key)) =
      (r'.column (foldIdent inc_key), r'.column (foldIdent id_key)) := by
    rw [ht, ht', hs, hs', datetime_rank_injective C hkeys, τ.rank_value_injective C hids]
  have hmem : ∀ a ∈ table, HasKey inc_key a → a ∈ keyedRows inc_key table :=
    fun a ha hk => List.mem_filter.mpr ⟨ha, decide_eq_true hk⟩
  exact List.inj_on_of_nodup_map htable.distinct (hmem r hr hkey) (hmem r' hr' hkey') hpair

end Tables

/-! ## Pages -/

section Pages

variable {inc_key id_key : String} {C : Collation} {τ : IdType} {table rows : List Row}
variable {c : Option Cursor} {c' : Cursor} {limit : ℕ}

/-- The page a batch query returns from the table. -/
def batchPage (C : Collation) (inc_key id_key : String) (c : Option Cursor) (limit : ℕ)
    (table : List Row) : List Row :=
  page (rowLe C (foldIdent inc_key) (foldIdent id_key))
    (batchWhere C (foldIdent inc_key) (foldIdent id_key) c) limit table

instance totalRowLe :
    Std.Total (rowLe C (foldIdent inc_key) (foldIdent id_key)) :=
  ⟨fun a b => by
    rw [rowLe_iff, rowLe_iff]
    exact le_total _ _⟩

instance transRowLe :
    IsTrans Row (rowLe C (foldIdent inc_key) (foldIdent id_key)) :=
  ⟨fun a b d hab hbd => by
    rw [rowLe_iff] at *
    exact hab.trans hbd⟩

/-- Where the cursor of a page stands. -/
theorem RegularTable.tail_of_page
    (hreg : RegularTable inc_key id_key τ table) (htable : NullableTable inc_key id_key table)
    (hpage : rows = batchPage C inc_key id_key c limit table)
    (htail : tailCursor inc_key id_key rows = .ok c') :
    ∃ hne : rows ≠ [], rows.getLast hne ∈ table ∧ HasKey inc_key (rows.getLast hne) ∧
      batchWhere C (foldIdent inc_key) (foldIdent id_key) c (rows.getLast hne) = true ∧
      c'.position C τ = rowPosition C inc_key id_key (rows.getLast hne) := by
  obtain ⟨tail, t, id, hlast, hts, hid, -⟩ := tailCursor_eq_ok_inv htail
  have hne : rows ≠ [] := by
    rintro rfl
    cases hlast
  obtain rfl : rows.getLast hne = tail :=
    Option.some.inj ((List.getLast?_eq_some_getLast hne).symm.trans hlast)
  have hsub : ∀ r ∈ rows, r ∈ batchPage C inc_key id_key c limit table :=
    fun r hr => hpage ▸ hr
  obtain ⟨hrow, hwhere⟩ := mem_page _ (hsub _ (List.getLast_mem hne))
  have hcolumn : (rows.getLast hne).column (foldIdent inc_key) = .datetime t :=
    Option.some.inj ((hreg.key_named _ hrow).symm.trans hts)
  have hkey : HasKey inc_key (rows.getLast hne) := by
    rw [HasKey, hcolumn]
    simp
  obtain ⟨s, hs⟩ := hreg.exists_id htable hrow hkey
  obtain ⟨hpos, -⟩ := tailCursor_eq_ok (C := C) hlast
    (fun v hv => Option.some.inj (hv.symm.trans (hreg.key_named _ hrow)))
    (fun v hv => Option.some.inj (hv.symm.trans (hreg.id_named _ hrow))) hs htail
  exact ⟨hne, hrow, hkey, hwhere, hpos⟩

/-- **A page takes all rows with a key up to its cursor**, and its cursor only lets rows
through that the page before it would have. -/
theorem RegularTable.page_covers
    (hreg : RegularTable inc_key id_key τ table) (htable : NullableTable inc_key id_key table)
    (hpage : rows = batchPage C inc_key id_key c limit table)
    (htail : tailCursor inc_key id_key rows = .ok c') :
    (∀ r ∈ table, HasKey inc_key r →
      batchWhere C (foldIdent inc_key) (foldIdent id_key) c r = true →
      batchWhere C (foldIdent inc_key) (foldIdent id_key) (some c') r = false → r ∈ rows) ∧
    (∀ r ∈ table, batchWhere C (foldIdent inc_key) (foldIdent id_key) (some c') r = true →
      batchWhere C (foldIdent inc_key) (foldIdent id_key) c r = true) ∧
    ∃ r ∈ table, batchWhere C (foldIdent inc_key) (foldIdent id_key) c r = true ∧
      batchWhere C (foldIdent inc_key) (foldIdent id_key) (some c') r = false := by
  obtain ⟨hne, hrow, hkey, hwhere, hpos⟩ := hreg.tail_of_page htable hpage htail
  have hiff : ∀ r ∈ table, HasKey inc_key r → ∀ d : Option Cursor,
      (batchWhere C (foldIdent inc_key) (foldIdent id_key) d r = true ↔
        mark C τ d < (rowPosition C inc_key id_key r : WithBot FeedPosition)) :=
    fun r hr hk d => hreg.batchWhere_iff htable hr hk d
  have hlast : (batchPage C inc_key id_key c limit table) ≠ [] := hpage ▸ hne
  have hsame : (batchPage C inc_key id_key c limit table).getLast hlast = rows.getLast hne := by
    subst hpage
    rfl
  refine ⟨?_, ?_, rows.getLast hne, hrow, hwhere, ?_⟩
  · intro r hr hk hc hc'
    have hle : rowPosition C inc_key id_key r ≤
        rowPosition C inc_key id_key (rows.getLast hne) := by
      rw [← Bool.not_eq_true, hiff r hr hk, mark, hpos, WithBot.coe_lt_coe, not_lt] at hc'
      exact hc'
    rcases hle.lt_or_eq with hlt | heq
    · rw [hpage]
      refine mem_page_of_lt_getLast _ hlast hr hc ?_
      change ¬ rowLe C _ _ ((batchPage C inc_key id_key c limit table).getLast hlast) r
      rw [hsame, rowLe_iff, not_le]
      exact hlt
    · rw [hreg.eq_of_rowPosition htable hr hrow hk hkey heq]
      exact List.getLast_mem hne
  · intro r hr hc'
    have hk : HasKey inc_key r := hasKey_of_batchWhere hc'
    rw [hiff r hr hk, mark, hpos] at hc'
    rw [hiff r hr hk]
    exact ((hiff _ hrow hkey c).mp hwhere).trans hc'
  · rw [← Bool.not_eq_true, hiff _ hrow hkey, mark, hpos]
    exact lt_irrefl _

end Pages

end Sequential
end EtlPlatform
