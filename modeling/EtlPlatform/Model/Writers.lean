import EtlPlatform.Model.Store

/-!
# Writers

`PostgresWriter` and `ElasticsearchWriter` turn the rows of a batch into the
items they send: one upsert a row, or one bulk item a row.  What the database
makes of one payload row (column types, `NOT NULL`, rounding) is a parameter,
because it belongs to the schema of the target; it answers with the stored key
and data columns, or with the error it raises.
-/

namespace EtlPlatform

/-- What a target table does with one payload row: the key and the data columns
it stores, or the error it raises. -/
abbrev StoreRow := String → List (String × Value) → Except Exc (Value × List (String × Value))

/-- `r[name]` -/
def Row.getItem (r : Row) (name : String) : Except Exc Value :=
  match r.get? name with
  | some v => .ok v
  | none => .error (keyError name)

/-- `r.get(name)` -/
def Row.getOrNone (r : Row) (name : String) : Value :=
  (r.get? name).getD .null

namespace PostgresWriter

/-- The payload comprehension of one row, for the table it is written to. -/
def payload (target : String) (r : Row) : Except Exc (List (String × Value)) :=
  if target = "analytics.film_dim" then do
    let film_id ← r.getItem "film_id"
    let title ← r.getItem "title"
    return [("film_id", film_id), ("title", title), ("rating", r.getOrNone "rating")]
  else if target = "analytics.film_rating_agg" then do
    let film_id ← r.getItem "film_id"
    let avg_rating ← r.getItem "avg_rating"
    let rating_count ← r.getItem "rating_count"
    return [("film_id", film_id), ("avg_rating", avg_rating), ("rating_count", rating_count)]
  else
    .error (valueError ("Unsupported target_table for PostgresWriter: " ++ target))

/-- `INSERT ... ON CONFLICT (film_id) DO UPDATE` of one payload row, all data columns. -/
def upsert (store : StoreRow) (target : String) (columns : List (String × Value)) :
    Except Exc Item := do
  let (film_id, cols) ← store target columns
  return [(.row target film_id, .columns cols)]

/-- The upsert of one row. -/
def item (store : StoreRow) (target : String) (r : Row) : Except Exc Item := do
  upsert store target (← payload target r)

/-- The upserts `PostgresWriter.write` executes, in order.  The payload of the whole batch is
built before the first of them. -/
def write (store : StoreRow) (target_table : String) (rows : List Row) :
    Except Exc (List Item) :=
  if rows = [] then .ok []
  else
    let target := PyText.strip target_table
    if is_allowed_target target then do
      let batch ← rows.mapM (payload target)
      batch.mapM (upsert store target)
    else .error (valueError ("target_table '" ++ target ++ "' is not allowed"))

end PostgresWriter

namespace ElasticsearchWriter

/-- `_index_from_target(target_table)` -/
def _index_from_target (target_table : String) : Except Exc String :=
  if PyText.startswith target_table ES_TARGET_PREFIX then
    let idx := PyText.strip (PyText.removeprefix target_table ES_TARGET_PREFIX)
    if idx = "" then
      .error (valueError "ES index is empty. Use target_table like 'es:film_dim'")
    else .ok idx
  else
    .error (valueError ("ES writer expects target_table starting with '" ++
      ES_TARGET_PREFIX ++ "', got '" ++ target_table ++ "'"))

/-- `_id_field_for_index(index)` -/
def _id_field_for_index (_index : String) : String :=
  "film_id"

/-- The `update` operation of one row with `doc_as_upsert`: merge the normalized
fields into the document `str(film_id)`. -/
def item (index : String) (raw : Row) : Except Exc Item :=
  let id_field := _id_field_for_index index
  match raw.get? id_field with
  | none =>
      .error (valueError ("ES writer expects field '" ++ id_field ++ "' in row. Row keys=[" ++
        ", ".intercalate (raw.keys.map (fun k => "'" ++ k ++ "'")) ++ "]"))
  | some v =>
      let _id := (_jsonify v).str
      .ok ((_normalize_row raw).map (fun c => (.field index _id c.1, .json c.2)))

/-- The operations `ElasticsearchWriter.write` sends in one bulk, in order. -/
def write (target_table : String) (rows : List Row) : Except Exc (List Item) :=
  if rows = [] then .ok []
  else
    let target := PyText.strip target_table
    if is_allowed_target target then do
      let index ← _index_from_target target
      rows.mapM (item index)
    else .error (valueError ("target_table '" ++ target ++ "' is not allowed"))

end ElasticsearchWriter

/-- The writer a pipeline gets. -/
inductive Writer where
  | postgres
  | elasticsearch
deriving DecidableEq

/-- `resolve_writer(pipeline)` -/
def resolve_writer (target_table : String) : Writer :=
  if PyText.startswith (PyText.strip target_table) ES_TARGET_PREFIX then .elasticsearch
  else .postgres

/-- `writer.write(session, pipeline, rows)`: the items it sends. -/
def Writer.write (store : StoreRow) (wr : Writer) (target_table : String) (rows : List Row) :
    Except Exc (List Item) :=
  match wr with
  | .postgres => PostgresWriter.write store target_table rows
  | .elasticsearch => ElasticsearchWriter.write target_table rows

theorem Writer.write_nil
    (store : StoreRow) (wr : Writer) (target_table : String) :
    wr.write store target_table [] = .ok [] := by
  cases wr <;> rfl

end EtlPlatform
