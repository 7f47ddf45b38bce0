import EtlPlatform.Library.CellWrites
import EtlPlatform.Model.Snapshot
import EtlPlatform.Model.Values

/-!
# Source, checkpoint and sink

What a run reads and writes, apart from the control tables.

* The source answers every base query with a list of rows; how its tables
  change between two queries is up to the environment.
* `etl_state` keeps one checkpoint row a pipeline.
* The sink is a store of cells.  A PostgreSQL target has one cell a row, since
  the upsert replaces every data column; an Elasticsearch index has one cell a
  document field, since `doc_as_upsert` merges flat fields.

A session collects `Write`s and `commit` applies them together.  The writes of
the Elasticsearch client are not part of the session.
-/

namespace EtlPlatform

/-- The result of each base query against the tables as they are now. -/
abbrev Source := String → Except Exc (List Row)

/-- A row of `etl.etl_state`. -/
structure EtlState where
  last_processed_value : Option String
  last_processed_id : Option String
deriving DecidableEq

/-- A place in the sink that is overwritten as a whole. -/
inductive Cell where
  /-- the row of a table with the given `film_id` -/
  | row (table : String) (film_id : Value)
  /-- a field of the document with the given `_id` -/
  | field (index _id name : String)
deriving DecidableEq

/-- The content of a cell. -/
inductive Datum where
  | columns (cols : List (String × Value))
  | json (j : Json)
deriving DecidableEq

/-- The cells one row writes: one statement of an `executemany`, one item of a bulk. -/
abbrev Item := List (Cell × Datum)

abbrev Sink := Cell → Option Datum

/-- Apply items in order. -/
def applyItems (s : Sink) (items : List Item) : Sink :=
  Library.assignAll s items.flatten

@[simp] theorem applyItems_nil
    (s : Sink) :
    applyItems s [] = s := by
  rfl

theorem applyItems_append
    (s : Sink) (items items' : List Item) :
    applyItems s (items ++ items') = applyItems (applyItems s items) items' := by
  simp [applyItems, Library.assignAll_append]

section Store

variable {P : Type} [DecidableEq P]

/-- The tables a batch reads and writes. -/
structure Store (P : Type) where
  source : Source
  etl_state : P → Option EtlState
  sink : Sink

/-- A statement of an open transaction. -/
inductive Write (P : Type) where
  | upsert (item : Item)
  | state (p : P) (s : EtlState)

/-- The effect of one write at commit. -/
def Store.write (st : Store P) : Write P → Store P
  | .upsert item => { st with sink := Library.assignAll st.sink item }
  | .state p s => { st with etl_state := Function.update st.etl_state p (some s) }

/-- Commit the writes of a transaction. -/
def Store.commit (st : Store P) (ws : List (Write P)) : Store P :=
  ws.foldl Store.write st

@[simp] theorem Store.commit_nil
    (st : Store P) :
    st.commit [] = st := by
  rfl

theorem Store.commit_append
    (st : Store P) (ws ws' : List (Write P)) :
    st.commit (ws ++ ws') = (st.commit ws).commit ws' := by
  simp [Store.commit]

@[simp] theorem Store.commit_source
    (st : Store P) (ws : List (Write P)) :
    (st.commit ws).source = st.source := by
  induction ws generalizing st with
  | nil =>
      rfl
  | cons w ws ih =>
      have hw : (st.write w).source = st.source := by
        cases w <;> rfl
      exact (ih (st.write w)).trans hw

/-- A commit does not look at the source. -/
theorem Store.commit_with_source
    (st : Store P) (src : Source) (ws : List (Write P)) :
    ({ st with source := src } : Store P).commit ws = { st.commit ws with source := src } := by
  induction ws generalizing st with
  | nil =>
      rfl
  | cons w ws ih =>
      have hw : ({ st with source := src } : Store P).write w =
          { st.write w with source := src } := by
        cases w <;> rfl
      exact (congrArg (fun st => Store.commit st ws) hw).trans (ih (st.write w))

/-- Committing upserts applies their items to the sink and nothing else. -/
theorem Store.commit_upserts
    (st : Store P) (items : List Item) :
    st.commit (items.map .upsert) = { st with sink := applyItems st.sink items } := by
  induction items generalizing st with
  | nil =>
      rfl
  | cons item items ih =>
      have hhead : st.commit ((item :: items).map .upsert) =
          ({ st with sink := Library.assignAll st.sink item } : Store P).commit
            (items.map .upsert) := by
        rfl
      rw [hhead, ih]
      simp [applyItems, Library.assignAll_append]

/-- Committing a checkpoint write sets that pipeline's checkpoint. -/
theorem Store.commit_state
    (st : Store P) (p : P) (s : EtlState) :
    st.commit [.state p s] =
      { st with etl_state := Function.update st.etl_state p (some s) } := by
  rfl

end Store

end EtlPlatform
