import EtlPlatform.Model.System

/-!
# A small deployment

One film pipeline in front of one source table, with runner processes that are
already polling.  Concrete runs of the platform start here.
-/

namespace EtlPlatform

/-- A target table that stores a payload as it is. -/
def storeAsGiven : StoreRow := fun _ payload =>
  .ok ((payload.lookup "film_id").getD .null, payload.filter (fun c => c.1 ≠ "film_id"))

/-- Code point collation, no importable modules. -/
def World.plain : World where
  collation := .codepoint
  storeRow := storeAsGiven
  modules path := .error { cls := .other, name := "ModuleNotFoundError", msg := path }

/-- A row of the film table. -/
def filmRow (film_id title : String) (updated_at : Datetime) : Row where
  cells := [("film_id", .text film_id), ("title", .text title),
    ("updated_at", .datetime updated_at)]
  nodup := by simp

/-- Midnight (UTC) of a day in January 2024. -/
def january (day : ℕ) (h : 1 ≤ day ∧ day ≤ 31) : Datetime where
  year := 2024
  month := 1
  day := day
  hour := 0
  minute := 0
  second := 0
  microsecond := 0
  utc := true
  valid := ⟨by decide, by decide, h, by decide, by decide, by decide, by decide⟩

def filmExample : Row :=
  filmRow "f1" "Alien" (january 1 (by decide))

/-- The sink row of `filmExample`. -/
def filmCell : Cell :=
  .row "analytics.film_dim" (.text "f1")

def filmQuery : String :=
  "SELECT film_id, title, updated_at FROM film"

/-- A source that holds the film table only. -/
def filmSource (rows : List Row) : Source := fun q =>
  if q = filmQuery then .ok rows
  else .error (statementError "UndefinedTableError" "relation does not exist")

/-- The film pipeline. -/
def filmPipeline (mode : PipelineMode) (batch_size : ℕ) (status : PipelineStatus) :
    EtlPipeline where
  id := "film"
  name := "film"
  description := none
  type := .SQL
  mode := mode
  enabled := true
  batch_size := batch_size
  source_query := some filmQuery
  python_module := none
  target_table := "analytics.film_dim"
  incremental_key := some "updated_at"
  incremental_id_key := none
  status := status

theorem filmTarget_postgres :
    resolve_writer "analytics.film_dim" = .postgres := by
  decide

/-- A database with one pipeline, no tasks, no history and an empty sink. -/
def Db.single (row : EtlPipeline) (rows : List Row) : Db Unit where
  ids := [()]
  nodup := List.nodup_singleton _
  complete _ := List.mem_singleton.mpr rfl
  pipelines _ := row
  tasks _ := []
  runs := []
  store := { source := filmSource rows, etl_state := fun _ => none, sink := fun _ => none }

/-- Every runner process is between two ticks. -/
def Sys.polling {ι P : Type} (db : Db P) : Sys ι P where
  db := db
  procs _ := ⟨.polling, []⟩

theorem Sys.resting_polling {ι P : Type} [DecidableEq ι] [DecidableEq P]
    (db : Db P) :
    (Sys.polling db : Sys ι P).Resting :=
  fun _ => ⟨trivial, rfl⟩

/-- No runner process has been started. -/
def Sys.off {ι P : Type} (db : Db P) : Sys ι P where
  db := db
  procs _ := ⟨.down, []⟩

end EtlPlatform
