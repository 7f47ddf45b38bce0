import EtlPlatform.Library.Failing
import EtlPlatform.Model.Snapshot

/-!
# Request bodies

`PipelineCreate` and `PipelineUpdate`, after the JSON types of their fields have
been checked: the field validators normalize a value or refuse it, and the
errors of all fields are reported together.  The rules that concern several
fields at once are checked on a create body only.

A field of an update body is absent, `null` or a value; absent fields are not
validated.
-/

namespace EtlPlatform

open Library

/-- `NAME_RE` allows these code points. -/
def isNameChar (c : Char) : Bool :=
  isIdentTail c || c == '-'

/-- `python_module` may hold these code points. -/
def isModuleChar (c : Char) : Bool :=
  isIdentTail c || c == '.'

/-- The namespace of the modules a pipeline may name. -/
def PYTHON_TASKS_PREFIX : String :=
  "src.pipelines.python_tasks."

/-! ## Field validators -/

/-- `PipelineBase.validate_name` -/
def PipelineBase.validate_name (v : String) : Except String String :=
  let v := PyText.strip v
  if ¬ (3 ≤ v.toList.length ∧ v.toList.length ≤ 64) then
    .error "name must be 3..64 characters"
  else if ¬ (v ≠ "" ∧ v.toList.all isNameChar) then
    .error "name must match [A-Za-z0-9_-]"
  else .ok v

/-- `PipelineBase.validate_batch_size` -/
def PipelineBase.validate_batch_size (v : ℤ) : Except String ℤ :=
  if 1 ≤ v ∧ v ≤ 50000 then .ok v else .error "batch_size must be 1..50000"

/-- `validate_sql_identifiers`, the same in both models. -/
def validate_sql_identifiers : Option String → Except String (Option String)
  | none => .ok none
  | some v =>
      let v := PyText.strip v
      if matchesIdent v then .ok (some v) else .error "must be a valid SQL identifier"

/-- What both `validate_python_module` demand of a module path. -/
def checkModule (v : String) : Except String (Option String) :=
  let v := PyText.strip v
  if ¬ (v ≠ "" ∧ v.toList.all isModuleChar) then
    .error "python_module contains invalid characters"
  else if ¬ PyText.startswith v PYTHON_TASKS_PREFIX then
    .error "python_module must be under src.pipelines.python_tasks.*"
  else .ok (some v)

/-- `PipelineCreate.validate_python_module` -/
def PipelineCreate.validate_python_module (v : Option String) :
    Except String (Option String) :=
  if v = some "" then .ok none
  else
    match v with
    | none => .ok none
    | some v => checkModule v

/-- `PipelineUpdate.validate_name` -/
def PipelineUpdate.validate_name (v : Option String) : Except String (Option String) :=
  if v = some "" then .ok none
  else
    match v with
    | none => .ok none
    | some v => (PipelineBase.validate_name v).map some

/-- `PipelineUpdate.validate_batch_size` -/
def PipelineUpdate.validate_batch_size : Option ℤ → Except String (Option ℤ)
  | none => .ok none
  | some v => (PipelineBase.validate_batch_size v).map some

/-- `PipelineUpdate.validate_python_module`: an empty text is not normalized. -/
def PipelineUpdate.validate_python_module : Option String → Except String (Option String)
  | none => .ok none
  | some v => checkModule v

/-! ## Bodies -/

/-- The entries of a `ValidationError`: a field, or none for the body, and a text. -/
abbrev ValidationErrors := List (Option String × String)

/-- The outcome of a validator, under the name of its field. -/
def atField {α : Type} (field : String) : Except String α → Except ValidationErrors α
  | .ok a => .ok a
  | .error msg => .error [(some field, msg)]

/-- `PipelineCreate` -/
structure PipelineCreate where
  name : String
  description : Option String := none
  type : PipelineType := .SQL
  mode : PipelineMode := .full
  enabled : Bool := true
  target_table : String
  batch_size : ℤ := 1000
  source_query : String
  python_module : Option String := none
  incremental_key : Option String := none
  incremental_id_key : Option String := none

namespace PipelineCreate

/-- `key.lower() not in self.source_query.lower()`, for a key that is set. -/
def missingIn (source_query : String) (key : Option String) : Bool :=
  PyText.truthy key &&
    !PyText.contains (PyText.lower source_query) (PyText.lower (key.getD ""))

/-- `PipelineCreate.validate_business_rules` -/
def validate_business_rules (b : PipelineCreate) : Except String Unit := do
  if b.mode = .incremental then
    if missingIn b.source_query b.incremental_key then
      throw "source_query must include incremental_key in SELECT output"
    if missingIn b.source_query b.incremental_id_key then
      throw "source_query must include incremental_id_key in SELECT output"
    if !PyText.truthy b.incremental_key || !PyText.truthy b.incremental_id_key then
      throw "incremental mode requires incremental_key and incremental_id_key"
  if b.type = .PYTHON then
    if !PyText.truthy b.python_module then
      throw "PYTHON pipelines require python_module"

/-- The field validators of a create body. -/
def validate_fields (b : PipelineCreate) : Except ValidationErrors PipelineCreate :=
  let normalized := fun name batch_size python_module incremental_key incremental_id_key =>
    { b with
        name := name
        batch_size := batch_size
        python_module := python_module
        incremental_key := incremental_key
        incremental_id_key := incremental_id_key }
  let withName := collect (.ok normalized) (atField "name" (PipelineBase.validate_name b.name))
  let withSize := collect withName
    (atField "batch_size" (PipelineBase.validate_batch_size b.batch_size))
  let withModule := collect withSize
    (atField "python_module" (validate_python_module b.python_module))
  let withKey := collect withModule
    (atField "incremental_key" (validate_sql_identifiers b.incremental_key))
  collect withKey (atField "incremental_id_key" (validate_sql_identifiers b.incremental_id_key))

/-- A create body as the handler gets it, or the errors it is refused with. -/
def model_validate (b : PipelineCreate) : Except ValidationErrors PipelineCreate :=
  match b.validate_fields with
  | .error errors => .error errors
  | .ok payload =>
      match payload.validate_business_rules with
      | .error msg => .error [(none, msg)]
      | .ok _ => .ok payload

end PipelineCreate

/-- A field of an update body: absent, `null` or a value. -/
abbrev Field (α : Type) := Option (Option α)

/-- `PipelineUpdate`, and what `model_dump(exclude_unset=True)` makes of it. -/
structure PipelineUpdate where
  name : Field String := none
  description : Field String := none
  type : Field PipelineType := none
  mode : Field PipelineMode := none
  enabled : Field Bool := none
  target_table : Field String := none
  batch_size : Field ℤ := none
  source_query : Field String := none
  python_module : Field String := none
  incremental_key : Field String := none
  incremental_id_key : Field String := none
deriving DecidableEq

namespace PipelineUpdate

/-- Validate a field if it was sent. -/
def onField {α : Type} (field : String) (validator : Option α → Except String (Option α)) :
    Field α → Except ValidationErrors (Field α)
  | none => .ok none
  | some v => (atField field (validator v)).map some

/-- An update body as the handler gets it, or the errors it is refused with. -/
def model_validate (b : PipelineUpdate) : Except ValidationErrors PipelineUpdate :=
  let normalized := fun name batch_size python_module incremental_key incremental_id_key =>
    { b with
        name := name
        batch_size := batch_size
        python_module := python_module
        incremental_key := incremental_key
        incremental_id_key := incremental_id_key }
  let withName := collect (.ok normalized) (onField "name" validate_name b.name)
  let withSize := collect withName (onField "batch_size" validate_batch_size b.batch_size)
  let withModule := collect withSize (onField "python_module" validate_python_module b.python_module)
  let withKey := collect withModule (onField "incremental_key" validate_sql_identifiers b.incremental_key)
  collect withKey (onField "incremental_id_key" validate_sql_identifiers b.incremental_id_key)

end PipelineUpdate

end EtlPlatform
