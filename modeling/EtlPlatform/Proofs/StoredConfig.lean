import EtlPlatform.Library.LabelledRun
import EtlPlatform.Model.Service

/-!
# What a stored configuration satisfies

The field validators of both bodies, the check of the merged record and the
constraints of the table together keep a part of the creation rules on every
sequence of requests: names, batch sizes, key columns that are identifiers,
module paths under the tasks namespace, and the presence of what the mode and
the type require.
-/

namespace EtlPlatform

open Library

/-! ## The checks, read backwards -/

/-- A module path under the tasks namespace. -/
structure ModulePath (m : String) : Prop where
  chars : m.toList.all isModuleChar = true
  allowed : PyText.startswith m PYTHON_TASKS_PREFIX = true

/-- A pipeline name. -/
structure PipelineName (n : String) : Prop where
  length : 3 ≤ n.toList.length ∧ n.toList.length ≤ 64
  chars : n.toList.all isNameChar = true

theorem validate_name_eq_ok
    {v n : String} (h : PipelineBase.validate_name v = .ok n) :
    PipelineName n := by
  simp only [PipelineBase.validate_name] at h
  split_ifs at h with hlen hchars
  obtain rfl := Except.ok.inj h
  exact ⟨hlen, hchars.2⟩

theorem validate_batch_size_eq_ok
    {v n : ℤ} (h : PipelineBase.validate_batch_size v = .ok n) :
    1 ≤ n ∧ n ≤ 50000 := by
  simp only [PipelineBase.validate_batch_size] at h
  split_ifs at h with hrange
  obtain rfl := Except.ok.inj h
  exact hrange

theorem validate_sql_identifiers_eq_ok
    {v k : Option String} (h : validate_sql_identifiers v = .ok k) :
    ∀ key ∈ k, matchesIdent key = true := by
  cases v with
  | none =>
      obtain rfl := Except.ok.inj h
      simp
  | some v =>
      simp only [validate_sql_identifiers] at h
      split_ifs at h with hident
      obtain rfl := Except.ok.inj h
      simpa using hident

theorem checkModule_eq_ok
    {v : String} {m : Option String} (h : checkModule v = .ok m) :
    ∀ path ∈ m, ModulePath path := by
  simp only [checkModule] at h
  split_ifs at h with hchars hprefix
  obtain rfl := Except.ok.inj h
  rintro path ⟨⟩
  exact ⟨hchars.2, hprefix⟩

theorem PipelineCreate.validate_python_module_eq_ok
    {v m : Option String} (h : PipelineCreate.validate_python_module v = .ok m) :
    ∀ path ∈ m, ModulePath path := by
  unfold validate_python_module at h
  split_ifs at h
  · obtain rfl := Except.ok.inj h
    simp
  · cases v with
    | none =>
        obtain rfl := Except.ok.inj h
        simp
    | some v =>
        exact checkModule_eq_ok h

theorem PipelineUpdate.validate_python_module_eq_ok
    {v m : Option String} (h : PipelineUpdate.validate_python_module v = .ok m) :
    ∀ path ∈ m, ModulePath path := by
  cases v with
  | none =>
      obtain rfl := Except.ok.inj h
      simp
  | some v =>
      exact checkModule_eq_ok h

theorem PipelineUpdate.validate_name_eq_ok
    {v n : Option String} (h : PipelineUpdate.validate_name v = .ok n) :
    ∀ name ∈ n, PipelineName name := by
  unfold validate_name at h
  split_ifs at h
  · obtain rfl := Except.ok.inj h
    simp
  · cases v with
    | none =>
        obtain rfl := Except.ok.inj h
        simp
    | some v =>
        obtain ⟨name, hname, rfl⟩ := map_eq_ok_iff.mp h
        rintro _ ⟨⟩
        exact EtlPlatform.validate_name_eq_ok hname

theorem PipelineUpdate.validate_batch_size_eq_ok
    {v n : Option ℤ} (h : PipelineUpdate.validate_batch_size v = .ok n) :
    ∀ size ∈ n, 1 ≤ size ∧ size ≤ 50000 := by
  cases v with
  | none =>
      obtain rfl := Except.ok.inj h
      simp
  | some v =>
      obtain ⟨size, hsize, rfl⟩ := map_eq_ok_iff.mp h
      rintro _ ⟨⟩
      exact EtlPlatform.validate_batch_size_eq_ok hsize

theorem atField_eq_ok_iff
    {α : Type} {field : String} {x : Except String α} {a : α} :
    atField field x = .ok a ↔ x = .ok a := by
  cases x <;> simp [atField]

/-- A value of the field that is left after validation comes out of the validator. -/
theorem PipelineUpdate.onField_eq_ok
    {α : Type} {field : String} {validator : Option α → Except String (Option α)}
    {v v' : Field α} (h : onField field validator v = .ok v') {q : α → Prop}
    (hvalid : ∀ x x', validator x = .ok x' → ∀ a ∈ x', q a) :
    ∀ a ∈ v'.join, q a := by
  cases v with
  | none =>
      obtain rfl := Except.ok.inj h
      simp
  | some v =>
      obtain ⟨x', hx', rfl⟩ := map_eq_ok_iff.mp h
      exact hvalid v x' (atField_eq_ok_iff.mp hx')

/-- The two conditions of `_validate_pipeline_config`. -/
def FinalConfig.Valid (final : FinalConfig) : Prop :=
  (final.mode = some .incremental →
    PyText.truthy final.incremental_key = true ∧ PyText.truthy final.incremental_id_key = true) ∧
  (final.type = some .PYTHON → PyText.truthy final.python_module = true)

instance (final : FinalConfig) : Decidable final.Valid :=
  inferInstanceAs (Decidable (_ ∧ _))

/-- The check of the merged record lets exactly the valid ones pass. -/
theorem validate_pipeline_config_eq_ok_iff
    {final : FinalConfig} :
    _validate_pipeline_config final = .ok () ↔ final.Valid := by
  unfold _validate_pipeline_config FinalConfig.Valid
  cases PyText.truthy final.incremental_key <;>
    cases PyText.truthy final.incremental_id_key <;>
    cases PyText.truthy final.python_module <;>
    by_cases hmode : final.mode = some .incremental <;>
    by_cases htype : final.type = some .PYTHON <;>
    simp [hmode, htype, throw, throwThe, MonadExceptOf.throw, pure, Except.pure, bind,
      Except.bind]

/-- What the rules over several fields demand of a create body. -/
theorem validate_business_rules_eq_ok_iff
    {b : PipelineCreate} :
    b.validate_business_rules = .ok () ↔
      (b.mode = .incremental →
        PyText.truthy b.incremental_key = true ∧ PyText.truthy b.incremental_id_key = true ∧
          PipelineCreate.missingIn b.source_query b.incremental_key = false ∧
          PipelineCreate.missingIn b.source_query b.incremental_id_key = false) ∧
      (b.type = .PYTHON → PyText.truthy b.python_module = true) := by
  unfold PipelineCreate.validate_business_rules
  cases PyText.truthy b.incremental_key <;>
    cases PyText.truthy b.incremental_id_key <;>
    cases PyText.truthy b.python_module <;>
    cases PipelineCreate.missingIn b.source_query b.incremental_key <;>
    cases PipelineCreate.missingIn b.source_query b.incremental_id_key <;>
    by_cases hmode : b.mode = .incremental <;>
    by_cases htype : b.type = .PYTHON <;>
    simp [hmode, htype, throw, throwThe, MonadExceptOf.throw, pure, Except.pure, bind,
      Except.bind]

/-! ## Validated bodies -/

/-- What the field validators leave of a create body. -/
structure PipelineCreate.FieldsValid (payload : PipelineCreate) : Prop where
  name : PipelineName payload.name
  batch_size : 1 ≤ payload.batch_size ∧ payload.batch_size ≤ 50000
  python_module : ∀ path ∈ payload.python_module, ModulePath path
  incremental_key : ∀ key ∈ payload.incremental_key, matchesIdent key = true
  incremental_id_key : ∀ key ∈ payload.incremental_id_key, matchesIdent key = true

/-- What the field validators leave of an update body. -/
structure PipelineUpdate.FieldsValid (data : PipelineUpdate) : Prop where
  name : ∀ name ∈ data.name.join, PipelineName name
  batch_size : ∀ size ∈ data.batch_size.join, 1 ≤ size ∧ size ≤ 50000
  python_module : ∀ path ∈ data.python_module.join, ModulePath path
  incremental_key : ∀ key ∈ data.incremental_key.join, matchesIdent key = true
  incremental_id_key : ∀ key ∈ data.incremental_id_key.join, matchesIdent key = true

theorem PipelineCreate.validate_fields_eq_ok
    {body payload : PipelineCreate} (h : body.validate_fields = .ok payload) :
    payload.FieldsValid := by
  simp only [validate_fields, collect_eq_ok_iff, atField_eq_ok_iff, Except.ok.injEq] at h
  obtain ⟨_, id_key, ⟨_, key, ⟨_, path, ⟨_, size, ⟨_, name, rfl, hname, rfl⟩, hsize, rfl⟩,
    hpath, rfl⟩, hkey, rfl⟩, hid_key, rfl⟩ := h
  exact {
    name := validate_name_eq_ok hname
    batch_size := validate_batch_size_eq_ok hsize
    python_module := validate_python_module_eq_ok hpath
    incremental_key := validate_sql_identifiers_eq_ok hkey
    incremental_id_key := validate_sql_identifiers_eq_ok hid_key }

theorem PipelineCreate.model_validate_eq_ok
    {body payload : PipelineCreate} (h : body.model_validate = .ok payload) :
    payload.FieldsValid ∧ payload.validate_business_rules = .ok () := by
  unfold model_validate at h
  split at h
  · cases h
  · rename_i hfields
    split at h
    · cases h
    · rename_i hrules
      obtain rfl := Except.ok.inj h
      exact ⟨validate_fields_eq_ok hfields, hrules⟩

theorem PipelineUpdate.model_validate_eq_ok
    {body data : PipelineUpdate} (h : body.model_validate = .ok data) :
    data.FieldsValid := by
  simp only [model_validate, collect_eq_ok_iff, Except.ok.injEq] at h
  obtain ⟨_, id_key, ⟨_, key, ⟨_, path, ⟨_, size, ⟨_, name, rfl, hname, rfl⟩, hsize, rfl⟩,
    hpath, rfl⟩, hkey, rfl⟩, hid_key, rfl⟩ := h
  have hident : ∀ x x', validate_sql_identifiers x = .ok x' →
      ∀ key ∈ x', matchesIdent key = true :=
    fun _ _ h => validate_sql_identifiers_eq_ok h
  exact {
    name := onField_eq_ok hname (fun _ _ h => validate_name_eq_ok h)
    batch_size := onField_eq_ok hsize (fun _ _ h => validate_batch_size_eq_ok h)
    python_module := onField_eq_ok hpath (fun _ _ h => validate_python_module_eq_ok h)
    incremental_key := onField_eq_ok hkey hident
    incremental_id_key := onField_eq_ok hid_key hident }

/-! ## The flush of a request that is alone -/

theorem flushed_self
    {α : Type} [DecidableEq α] {sent : Field α} {x : Option α} :
    flushed sent x x = sent.getD x := by
  cases sent with
  | none =>
      rfl
  | some v =>
      simp only [flushed, Option.getD_some, ite_eq_right_iff]
      exact Eq.symm

theorem notNull_eq_ok_iff
    {α : Type} {column : String} {x : Option α} {a : α} :
    notNull column x = .ok a ↔ x = some a := by
  cases x <;> simp [notNull]

/-- A column that allows no `NULL` keeps its value or takes the one that was sent. -/
theorem notNull_getD_eq_ok_iff
    {α : Type} {column : String} {sent : Field α} {x a : α} :
    notNull column (sent.getD (some x)) = .ok a ↔
      sent ≠ some none ∧ a = sent.join.getD x := by
  rcases sent with _ | _ | v <;> simp [notNull, eq_comm]

/-- The request sends `null` for no column that does not allow it. -/
def PipelineUpdate.NoNulls (data : PipelineUpdate) : Prop :=
  data.name ≠ some none ∧ data.type ≠ some none ∧ data.mode ≠ some none ∧
    data.enabled ≠ some none ∧ data.target_table ≠ some none ∧ data.batch_size ≠ some none

instance (data : PipelineUpdate) : Decidable data.NoNulls :=
  inferInstanceAs (Decidable (_ ∧ _))

/-- The row with the fields that were sent. -/
def updatedRow (row : EtlPipeline) (data : PipelineUpdate) : EtlPipeline :=
  { row with
    name := data.name.join.getD row.name
    description := data.description.getD row.description
    type := data.type.join.getD row.type
    mode := data.mode.join.getD row.mode
    enabled := data.enabled.join.getD row.enabled
    target_table := data.target_table.join.getD row.target_table
    batch_size := (data.batch_size.join.getD (row.batch_size : ℤ)).toNat
    source_query := data.source_query.getD row.source_query
    python_module := data.python_module.getD row.python_module
    incremental_key := data.incremental_key.getD row.incremental_key
    incremental_id_key := data.incremental_id_key.getD row.incremental_id_key }

/-- With nobody in between, the flush stores the row with the fields that were sent. -/
theorem flush_self_eq_ok_iff
    {row row' : EtlPipeline} {data : PipelineUpdate} :
    flush row data row = .ok row' ↔ data.NoNulls ∧ row' = updatedRow row data := by
  simp only [flush, flushed_self, bind_eq_ok_iff, pure_eq_ok_iff, notNull_getD_eq_ok_iff]
  constructor
  · rintro ⟨_, ⟨hname, rfl⟩, _, ⟨htype, rfl⟩, _, ⟨hmode, rfl⟩, _, ⟨henabled, rfl⟩, _,
      ⟨htarget, rfl⟩, _, ⟨hsize, rfl⟩, rfl⟩
    exact ⟨⟨hname, htype, hmode, henabled, htarget, hsize⟩, rfl⟩
  · rintro ⟨⟨hname, htype, hmode, henabled, htarget, hsize⟩, rfl⟩
    exact ⟨_, ⟨hname, rfl⟩, _, ⟨htype, rfl⟩, _, ⟨hmode, rfl⟩, _, ⟨henabled, rfl⟩, _,
      ⟨htarget, rfl⟩, _, ⟨hsize, rfl⟩, rfl⟩

/-! ## Requests that are accepted -/

/-- The table takes the update of a row: nothing refuses it. -/
structure PipelinesTable.Accepts
    (table : PipelinesTable) (row : EtlPipeline) (data : PipelineUpdate) : Prop where
  notRunning : row.status ≠ .RUNNING
  config : (mergedConfig row data).Valid
  noNulls : data.NoNulls
  newName : ∀ other ∈ table, other.id ≠ row.id → other.name ≠ (updatedRow row data).name

theorem get_pipeline_eq_ok
    {table : PipelinesTable} {id : String} {row : EtlPipeline}
    (h : get_pipeline table id = .ok row) :
    row ∈ table ∧ row.id = id := by
  unfold get_pipeline at h
  split at h
  · rename_i hfind
    obtain rfl := Except.ok.inj h
    exact ⟨List.mem_of_find?_eq_some hfind, by simpa using List.find?_some hfind⟩
  · cases h

/-- **An update returns if and only if it is accepted, with the row rewritten.** -/
theorem update_pipeline_eq_ok_iff
    {table table' : PipelinesTable} {id : String} {data : PipelineUpdate} :
    update_pipeline table id data = .ok table' ↔
      ∃ row, get_pipeline table id = .ok row ∧ table.Accepts row data ∧
        table' = table.map (fun r => if r.id = id then updatedRow row data else r) := by
  simp only [update_pipeline, bind_eq_ok_iff, check_eq_ok_iff, pure_eq_ok_iff,
    flush_self_eq_ok_iff]
  constructor
  · rintro ⟨row, hrow, hidle, _, hconfig, _, ⟨hnull, rfl⟩, hname, rfl⟩
    obtain ⟨-, rfl⟩ := get_pipeline_eq_ok hrow
    refine ⟨row, hrow, ⟨hidle, validate_pipeline_config_eq_ok_iff.mp hconfig, hnull, ?_⟩, rfl⟩
    simpa using hname
  · rintro ⟨row, hrow, haccepts, rfl⟩
    obtain ⟨-, rfl⟩ := get_pipeline_eq_ok hrow
    refine ⟨row, hrow, haccepts.notRunning, (), validate_pipeline_config_eq_ok_iff.mpr haccepts.config,
      _, ⟨haccepts.noNulls, rfl⟩, ?_, rfl⟩
    simpa using haccepts.newName

theorem create_pipeline_eq_ok
    {table table' : PipelinesTable} {id : String} {payload : PipelineCreate}
    (h : create_pipeline table id payload = .ok table') :
    is_allowed_target payload.target_table = true ∧ table' = table ++ [createdRow id payload] := by
  simp only [create_pipeline, check_eq_ok_iff, pure_eq_ok_iff] at h
  obtain ⟨htarget, -, rfl⟩ := h
  exact ⟨by simpa using htarget, rfl⟩

/-! ## What every stored row satisfies -/

/-- The part of a row `_validate_pipeline_config` looks at. -/
def EtlPipeline.config (row : EtlPipeline) : FinalConfig where
  type := some row.type
  mode := some row.mode
  incremental_key := row.incremental_key
  incremental_id_key := row.incremental_id_key
  python_module := row.python_module

/-- The rules no request can break. -/
structure EtlPipeline.FieldsValid (row : EtlPipeline) : Prop where
  name : PipelineName row.name
  batch_size : 1 ≤ row.batch_size ∧ row.batch_size ≤ 50000
  python_module : ∀ path ∈ row.python_module, ModulePath path
  incremental_key : ∀ key ∈ row.incremental_key, matchesIdent key = true
  incremental_id_key : ∀ key ∈ row.incremental_id_key, matchesIdent key = true
  config : row.config.Valid

/-- A `PYTHON` pipeline names a module. -/
theorem EtlPipeline.FieldsValid.exists_module
    {row : EtlPipeline} (h : row.FieldsValid) (htype : row.type = .PYTHON) :
    ∃ path, row.python_module = some path ∧ ModulePath path := by
  have hset := h.config.2 (congrArg some htype)
  cases hpath : row.python_module with
  | none =>
      simp [EtlPipeline.config, hpath, PyText.truthy] at hset
  | some path =>
      exact ⟨path, rfl, h.python_module path hpath⟩

/-- A column keeps its value or takes the one that was sent. -/
theorem forall_mem_getD
    {α : Type} {q : α → Prop} {sent : Field α} {x : Option α}
    (hsent : ∀ a ∈ sent.join, q a) (hx : ∀ a ∈ x, q a) :
    ∀ a ∈ sent.getD x, q a := by
  cases sent with
  | none =>
      exact hx
  | some v =>
      exact hsent

theorem join_getD
    {α : Type} {q : α → Prop} {sent : Option α} {x : α}
    (hsent : ∀ a ∈ sent, q a) (hx : q x) :
    q (sent.getD x) := by
  cases sent with
  | none =>
      exact hx
  | some v =>
      exact hsent v rfl

/-- Without `NULL`s, the record that was checked is the record that is stored. -/
theorem mergedConfig_eq_config
    {row : EtlPipeline} {data : PipelineUpdate} (h : data.NoNulls) :
    mergedConfig row data = (updatedRow row data).config := by
  obtain ⟨-, htype, hmode, -⟩ := h
  have hjoin : ∀ {α : Type} {sent : Field α} {x : α}, sent ≠ some none →
      sent.getD (some x) = some (sent.join.getD x) := by
    rintro α (_ | _ | v) x h
    · rfl
    · exact absurd rfl h
    · rfl
  simp [mergedConfig, EtlPipeline.config, updatedRow, hjoin htype, hjoin hmode]

theorem createdRow_fieldsValid
    {id : String} {payload : PipelineCreate} (hfields : payload.FieldsValid)
    (hrules : payload.validate_business_rules = .ok ()) :
    (createdRow id payload).FieldsValid := by
  obtain ⟨hmode, htype⟩ := validate_business_rules_eq_ok_iff.mp hrules
  have hsize := hfields.batch_size
  exact {
    name := hfields.name
    batch_size := by simp only [createdRow]; omega
    python_module := hfields.python_module
    incremental_key := hfields.incremental_key
    incremental_id_key := hfields.incremental_id_key
    config := by
      refine ⟨fun h => ?_, fun h => htype (Option.some.inj h)⟩
      obtain ⟨hkey, hid_key, -⟩ := hmode (Option.some.inj h)
      exact ⟨hkey, hid_key⟩ }

theorem updatedRow_fieldsValid
    {table : PipelinesTable} {row : EtlPipeline} {data : PipelineUpdate}
    (hrow : row.FieldsValid) (hdata : data.FieldsValid) (h : table.Accepts row data) :
    (updatedRow row data).FieldsValid := by
  have hsize : 1 ≤ data.batch_size.join.getD (row.batch_size : ℤ) ∧
      data.batch_size.join.getD (row.batch_size : ℤ) ≤ 50000 :=
    join_getD hdata.batch_size (by have := hrow.batch_size; omega)
  exact {
    name := join_getD hdata.name hrow.name
    batch_size := by simp only [updatedRow]; omega
    python_module := forall_mem_getD hdata.python_module hrow.python_module
    incremental_key := forall_mem_getD hdata.incremental_key hrow.incremental_key
    incremental_id_key := forall_mem_getD hdata.incremental_id_key hrow.incremental_id_key
    config := mergedConfig_eq_config h.noNulls ▸ h.config }

/-- What an event makes of a table: the rows it had, and one that was created, updated or
moved to another status. -/
inductive TableEffect (table : PipelinesTable) : TableEvent → PipelinesTable → Prop
  | refused (e : TableEvent) : TableEffect table e table
  | created {id : String} {body payload : PipelineCreate} :
      body.model_validate = .ok payload →
      is_allowed_target payload.target_table = true →
      TableEffect table (.post id body) (table ++ [createdRow id payload])
  | updated {id : String} {body data : PipelineUpdate} {row : EtlPipeline} :
      body.model_validate = .ok data →
      get_pipeline table id = .ok row →
      table.Accepts row data →
      TableEffect table (.patch id body)
        (table.map (fun r => if r.id = id then updatedRow row data else r))
  | moved (id : String) (s : PipelineStatus) :
      TableEffect table (.status id s)
        (table.map (fun r => if r.id = id then { r with status := s } else r))

theorem create_pipeline_endpoint_effect
    (table : PipelinesTable) (id : String) (body : PipelineCreate) :
    TableEffect table (.post id body) (create_pipeline_endpoint table id body) := by
  unfold create_pipeline_endpoint
  cases hbody : body.model_validate with
  | error errors =>
      exact .refused _
  | ok payload =>
      dsimp only
      cases hcreate : create_pipeline table id payload with
      | error exc =>
          exact .refused _
      | ok table' =>
          obtain ⟨htarget, rfl⟩ := create_pipeline_eq_ok hcreate
          exact .created hbody htarget

theorem update_pipeline_endpoint_effect
    (table : PipelinesTable) (id : String) (body : PipelineUpdate) :
    TableEffect table (.patch id body) (update_pipeline_endpoint table id body) := by
  unfold update_pipeline_endpoint
  cases hbody : body.model_validate with
  | error errors =>
      exact .refused _
  | ok data =>
      dsimp only
      split
      · exact .refused _
      · cases hupdate : update_pipeline table id data with
        | error exc =>
            exact .refused _
        | ok table' =>
            obtain ⟨row, hrow, haccepts, rfl⟩ := update_pipeline_eq_ok_iff.mp hupdate
            exact .updated hbody hrow haccepts

/-- **What one event does to the table.** -/
theorem TableEvent.apply_effect
    (table : PipelinesTable) (e : TableEvent) :
    TableEffect table e (e.apply table) := by
  cases e with
  | post id body =>
      exact create_pipeline_endpoint_effect table id body
  | patch id body =>
      exact update_pipeline_endpoint_effect table id body
  | status id s =>
      exact .moved id s

theorem TableEffect.fieldsValid
    {table table' : PipelinesTable} {e : TableEvent} (h : TableEffect table e table')
    (hrows : ∀ row ∈ table, row.FieldsValid) :
    ∀ row ∈ table', row.FieldsValid := by
  cases h with
  | refused =>
      exact hrows
  | created hbody htarget =>
      obtain ⟨hfields, hrules⟩ := PipelineCreate.model_validate_eq_ok hbody
      intro row hmem
      rcases List.mem_append.mp hmem with hmem | hmem
      · exact hrows row hmem
      · obtain rfl := List.mem_singleton.mp hmem
        exact createdRow_fieldsValid hfields hrules
  | updated hbody hrow haccepts =>
      have hfields := PipelineUpdate.model_validate_eq_ok hbody
      have hvalid := hrows _ (get_pipeline_eq_ok hrow).1
      intro row' hmem
      obtain ⟨r, hr, rfl⟩ := List.mem_map.mp hmem
      split_ifs
      · exact updatedRow_fieldsValid hvalid hfields haccepts
      · exact hrows r hr
  | moved id s =>
      intro row' hmem
      obtain ⟨r, hr, rfl⟩ := List.mem_map.mp hmem
      split_ifs
      · exact { hrows r hr with }
      · exact hrows r hr

/-- **No sequence of requests stores a row that breaks these rules.** -/
theorem fieldsValid_of_reach
    {allow : PipelinesTable → TableEvent → Prop} {table : PipelinesTable}
    (h : Reach PipelinesTable.step (fun table => table = []) allow table) :
    ∀ row ∈ table, row.FieldsValid := by
  refine h.invariant (I := fun table => ∀ row ∈ table, row.FieldsValid) ?_ ?_
  · rintro _ rfl row hmem
    cases hmem
  · intro table e table' hrows _ hstep
    obtain rfl := Option.some.inj hstep
    exact (TableEvent.apply_effect table e).fieldsValid hrows

end EtlPlatform
