import EtlPlatform.Library.KeysetFeed
import EtlPlatform.Proofs.IncrementalPlan

/-!
# Source rows as a keyset feed

The rows an incremental pipeline reads, in the order its batch query sorts them
by.  A row that `HasKeys` has a timestamp in the key column and a nonempty text
or UUID in the id column; it is `Keyed` when the id is also the key of the sink.
On such rows the conditions the runner sends to the server, the tail row it
takes its cursor from and the text it stores for a checkpoint all speak about
one linear order.
-/

namespace EtlPlatform

open Library

/-- Where a value stands in the sort order of its column. -/
def Value.rank (C : Collation) (v : Value) : List ℤ ×ₗ ℚ :=
  toLex (v.key C, v.quantity)

theorem Value.le_iff_rank
    (C : Collation) (a b : Value) :
    Value.le C a b = true ↔ a.rank C ≤ b.rank C :=
  Value.le_iff C a b

theorem Value.le_eq_false_iff
    (C : Collation) (a b : Value) :
    Value.le C a b = false ↔ b.rank C < a.rank C := by
  rw [← not_le, ← Value.le_iff_rank, Bool.not_eq_true]

/-- The type of an id column that takes text parameters. -/
inductive IdType where
  | text
  | uuid

/-- The value of an id column with the given text. -/
def IdType.value : IdType → String → Value
  | .text, s => .text s
  | .uuid, s => .uuid s

namespace IdType

variable (τ : IdType)

@[simp] theorem str_value
    (s : String) :
    (τ.value s).str = s := by
  cases τ <;> rfl

/-- Both kinds of ids are JSON strings. -/
theorem jsonify_value
    (s : String) :
    _jsonify (τ.value s) = .string s := by
  cases τ <;> rfl

theorem value_ne_null
    (s : String) :
    τ.value s ≠ .null := by
  cases τ <;> simp [value]

theorem value_injective :
    Function.Injective τ.value := by
  intro s s' h
  cases τ <;> simpa [value] using h

theorem bindLike_value
    (s s' : String) :
    (τ.value s').bindLike s = some (τ.value s) := by
  cases τ <;> rfl

theorem rank_value_injective
    (C : Collation) :
    Function.Injective (fun s => (τ.value s).rank C) := by
  intro s s' h
  have hkey : (τ.value s).key C = (τ.value s').key C := congrArg (fun q => (ofLex q).1) h
  cases τ with
  | text =>
      exact C.injective (List.cons.inj hkey).2
  | uuid =>
      exact Collation.codepoint.injective (List.cons.inj hkey).2

end IdType

/-! ## Positions of rows and cursors -/

section Positions

variable (C : Collation) (inc_key id_key : String)

/-- The sort rank of the key column of a row. -/
def rowKey (r : Row) : List ℤ ×ₗ ℚ :=
  (r.column (foldIdent inc_key)).rank C

/-- The sort rank of the id column of a row. -/
def rowId (r : Row) : List ℤ ×ₗ ℚ :=
  (r.column (foldIdent id_key)).rank C

/-- Positions in the order of the batch query. -/
abbrev FeedPosition := (List ℤ ×ₗ ℚ) ×ₗ (List ℤ ×ₗ ℚ)

/-- Where a cursor stands among the rows. -/
def Cursor.position (τ : IdType) (c : Cursor) : FeedPosition :=
  toLex ((Value.datetime c.last_ts).rank C, (τ.value c.last_id).rank C)

/-- Where a loop variable stands: before all rows, or at a cursor. -/
def mark (τ : IdType) : Option Cursor → WithBot FeedPosition
  | none => ⊥
  | some c => (c.position C τ : WithBot FeedPosition)

/-- Where a stored checkpoint stands; a text that cannot be decoded stands nowhere. -/
def checkpoint (τ : IdType) (e : Option EtlState) : WithBot FeedPosition :=
  match decodeState e with
  | .ok c => mark C τ c
  | .error _ => ⊥

/-- `ORDER BY` compares positions. -/
theorem rowLe_iff
    (r r' : Row) :
    rowLe C (foldIdent inc_key) (foldIdent id_key) r r' ↔
      position (rowKey C inc_key) (rowId C id_key) r ≤
        position (rowKey C inc_key) (rowId C id_key) r' := by
  rw [position, position, Prod.Lex.toLex_le_toLex]
  simp only [rowLe, Value.le_iff_rank, Value.le_eq_false_iff, rowKey, rowId]
  constructor
  · rintro (⟨-, hlt⟩ | ⟨hle, hge, hid⟩)
    · exact Or.inl hlt
    · exact Or.inr ⟨le_antisymm hle hge, hid⟩
  · rintro (hlt | ⟨heq, hid⟩)
    · exact Or.inl ⟨hlt.le, hlt⟩
    · exact Or.inr ⟨heq.le, heq.ge, hid⟩

end Positions

/-! ## Rows that keep the contract -/

/--
The row has a timestamp in the key column and a nonempty id.  The server
resolves the key columns as `foldIdent` does; should the runner find a column
under the unfolded name, it is the same one.
-/
structure HasKeys (τ : IdType) (inc_key id_key : String) (r : Row) : Prop where
  ts : ∃ t, r.column (foldIdent inc_key) = .datetime t
  id : ∃ s, s ≠ "" ∧ r.column (foldIdent id_key) = τ.value s
  inc_named : ∀ v, r.get? inc_key = some v → v = r.column (foldIdent inc_key)
  id_named : ∀ v, r.get? id_key = some v → v = r.column (foldIdent id_key)

/-- The row keeps the contract of incremental mode: it has its keys, and its id is the key
of the sink. -/
structure Keyed (τ : IdType) (inc_key id_key : String) (r : Row) : Prop
    extends HasKeys τ inc_key id_key r where
  /-- the id is what both writers use as the key of the sink -/
  sink_key : r.get? "film_id" = some (r.column (foldIdent id_key))

section Contract

variable {τ : IdType} {inc_key id_key : String} {C : Collation}

/-- `WHERE` keeps the rows after the cursor. -/
theorem batchWhere_iff_of_ne_null
    {r : Row} {s : String}
    (hkey : r.column (foldIdent inc_key) ≠ .null) (hs : r.column (foldIdent id_key) = τ.value s)
    (c : Option Cursor) :
    batchWhere C (foldIdent inc_key) (foldIdent id_key) c r = true ↔
      mark C τ c < (position (rowKey C inc_key) (rowId C id_key) r : WithBot FeedPosition) := by
  cases c with
  | none =>
      simp [batchWhere, mark]
  | some c =>
      have hnull := τ.value_ne_null s
      have hnull' := τ.value_ne_null c.last_id
      simp only [batchWhere, afterCursor, mark, hs, IdType.bindLike_value, Option.getD_some,
        Value.sqlGt, Value.sqlEq, WithBot.coe_lt_coe, Cursor.position, position, rowKey, rowId,
        Prod.Lex.toLex_lt_toLex, Bool.or_eq_true, Bool.and_eq_true, decide_eq_true_eq, ne_eq,
        reduceCtorEq, not_false_eq_true, true_and, hkey, hnull, hnull', Value.le_eq_false_iff,
        Value.le_iff_rank]
      constructor
      · rintro (hlt | ⟨⟨hle, hge⟩, hid⟩)
        · exact Or.inl hlt
        · exact Or.inr ⟨le_antisymm hge hle, hid⟩
      · rintro (hlt | ⟨heq, hid⟩)
        · exact Or.inl hlt
        · exact Or.inr ⟨⟨heq.ge, heq.le⟩, hid⟩

theorem batchWhere_iff
    {r : Row} (hr : HasKeys τ inc_key id_key r) (c : Option Cursor) :
    batchWhere C (foldIdent inc_key) (foldIdent id_key) c r = true ↔
      mark C τ c < (position (rowKey C inc_key) (rowId C id_key) r : WithBot FeedPosition) := by
  obtain ⟨t, ht⟩ := hr.ts
  obtain ⟨s, -, hs⟩ := hr.id
  exact batchWhere_iff_of_ne_null (by simp [ht]) hs c

/-- Ids are told apart by their ranks. -/
theorem rowId_eq_iff
    {r r' : Row} (hr : HasKeys τ inc_key id_key r) (hr' : HasKeys τ inc_key id_key r') :
    rowId C id_key r = rowId C id_key r' ↔
      r.column (foldIdent id_key) = r'.column (foldIdent id_key) := by
  obtain ⟨s, -, hs⟩ := hr.id
  obtain ⟨s', -, hs'⟩ := hr'.id
  simp only [rowId, hs, hs']
  constructor
  · intro h
    rw [τ.rank_value_injective C h]
  · intro h
    rw [h]

/-- The cursor taken from a tail row stands where the row stands. -/
theorem tailCursor_eq_ok
    {rows : List Row} {tail : Row} {c : Cursor} {s : String}
    (hlast : rows.getLast? = some tail)
    (hinc : ∀ v, tail.get? inc_key = some v → v = tail.column (foldIdent inc_key))
    (hidn : ∀ v, tail.get? id_key = some v → v = tail.column (foldIdent id_key))
    (hs : tail.column (foldIdent id_key) = τ.value s)
    (hc : tailCursor inc_key id_key rows = .ok c) :
    c.position C τ = position (rowKey C inc_key) (rowId C id_key) tail ∧ c.last_id = s := by
  simp only [tailCursor, hlast] at hc
  cases hts : tail.get? inc_key with
  | none =>
      rw [hts] at hc
      cases hc
  | some ts =>
      cases hid : tail.get? id_key with
      | none =>
          rw [hts, hid] at hc
          cases ts <;> cases hc
      | some id =>
          obtain rfl := hidn id hid
          rw [hts, hid] at hc
          cases ts with
          | datetime t =>
              obtain rfl := Except.ok.inj hc
              have ht := hinc _ hts
              simp only [Cursor.position, position, rowKey, rowId, ← ht, hs, IdType.str_value,
                and_self]
          | _ =>
              cases hc

theorem tailCursor_position
    {rows : List Row} {tail : Row} {c : Cursor}
    (hlast : rows.getLast? = some tail) (htail : HasKeys τ inc_key id_key tail)
    (hc : tailCursor inc_key id_key rows = .ok c) :
    c.position C τ = position (rowKey C inc_key) (rowId C id_key) tail ∧ c.last_id ≠ "" := by
  obtain ⟨s, hne, hs⟩ := htail.id
  obtain ⟨hpos, hid⟩ := tailCursor_eq_ok hlast htail.inc_named htail.id_named hs hc
  exact ⟨hpos, hid ▸ hne⟩

/-- A stored cursor is decoded to itself. -/
theorem decodeState_encodeState
    {c : Cursor} (hid : c.last_id ≠ "") :
    decodeState (some (encodeState c)) = .ok (some c) := by
  have hvalue : PyText.truthy (some c.last_ts.isoformat) = true :=
    PyText.truthy_some_iff.mpr (Datetime.isoformat_ne_empty _)
  have hlast : PyText.truthy (some c.last_id) = true := PyText.truthy_some_iff.mpr hid
  simp only [decodeState, encodeState, Option.bind_some, hvalue, hlast, if_true,
    Option.getD_some, Datetime.fromisoformat_isoformat]

theorem checkpoint_of_decodeState
    {e : Option EtlState} {c : Option Cursor} (h : decodeState e = .ok c) :
    checkpoint C τ e = mark C τ c := by
  rw [checkpoint, h]

/-- What a batch query returned is a page of the table it saw. -/
theorem incrementalBatch_eq_ok
    {src : Source} {base : String} {c : Option Cursor} {limit : ℕ} {rows : List Row}
    (h : incrementalBatch C src base inc_key id_key c limit = .ok rows) :
    ∃ table, src base = .ok table ∧
      rows = page (rowLe C (foldIdent inc_key) (foldIdent id_key))
        (batchWhere C (foldIdent inc_key) (foldIdent id_key) c) limit table := by
  simp only [incrementalBatch, check_eq_ok_iff, bind_eq_ok_iff, pure_eq_ok_iff] at h
  obtain ⟨table, htable, -, -, hrows⟩ := h
  exact ⟨table, htable, hrows.symm⟩

end Contract

end EtlPlatform
