import EtlPlatform.Model.Deployment
import EtlPlatform.Proofs.StoredConfig

/-!
# The rules of creation on stored rows

Creation checks the target against the allowlist and looks for the key columns
in the query.  An update checks neither, and may remove the query.  The rules
survive exactly the updates that would have passed these checks.
-/

namespace EtlPlatform

open Library

/-! ## The rules of creation -/

/-- The key is set, is an identifier and occurs in the query. -/
def KeyOf (query : String) (key : Option String) : Prop :=
  ∃ k, key = some k ∧ matchesIdent k = true ∧
    PyText.contains (PyText.lower query) (PyText.lower k) = true

/-- All the rules creation enforces, on a stored row. -/
structure EtlPipeline.CreationRules (row : EtlPipeline) : Prop where
  target_table : is_allowed_target row.target_table = true
  incremental : row.mode = .incremental →
    ∃ query, row.source_query = some query ∧
      KeyOf query row.incremental_key ∧ KeyOf query row.incremental_id_key
  python_module : row.type = .PYTHON →
    ∃ path, row.python_module = some path ∧ ModulePath path
  name : PipelineName row.name
  batch_size : 1 ≤ row.batch_size ∧ row.batch_size ≤ 50000
  source_query : row.source_query ≠ none

/-- No key of an incremental row is missing in its query. -/
def EtlPipeline.KeysInQuery (row : EtlPipeline) : Prop :=
  row.mode = .incremental →
    PipelineCreate.missingIn (row.source_query.getD "") row.incremental_key = false ∧
      PipelineCreate.missingIn (row.source_query.getD "") row.incremental_id_key = false

instance (row : EtlPipeline) : Decidable row.KeysInQuery :=
  inferInstanceAs (Decidable (_ → _))

theorem keyOf_iff
    {query : String} {key : Option String} (hident : ∀ k ∈ key, matchesIdent k = true)
    (hset : PyText.truthy key = true) :
    KeyOf query key ↔ PipelineCreate.missingIn query key = false := by
  cases key with
  | none =>
      cases hset
  | some k =>
      simp [KeyOf, PipelineCreate.missingIn, hset, hident k rfl]

/-- On a row that keeps the rules of its fields, three rules are left. -/
theorem creationRules_iff
    {row : EtlPipeline} (h : row.FieldsValid) :
    row.CreationRules ↔
      is_allowed_target row.target_table = true ∧ row.source_query ≠ none ∧ row.KeysInQuery := by
  have hkeys : ∀ query, row.mode = .incremental →
      ((KeyOf query row.incremental_key ∧ KeyOf query row.incremental_id_key) ↔
        PipelineCreate.missingIn query row.incremental_key = false ∧
          PipelineCreate.missingIn query row.incremental_id_key = false) := by
    intro query hmode
    obtain ⟨hkey, hid_key⟩ := h.config.1 (congrArg some hmode)
    exact and_congr (keyOf_iff h.incremental_key hkey) (keyOf_iff h.incremental_id_key hid_key)
  constructor
  · intro hrules
    refine ⟨hrules.target_table, hrules.source_query, fun hmode => ?_⟩
    obtain ⟨query, hquery, hof⟩ := hrules.incremental hmode
    rw [hquery]
    exact (hkeys query hmode).mp hof
  · rintro ⟨htarget, hquery, hin⟩
    obtain ⟨query, hquery'⟩ := Option.ne_none_iff_exists'.mp hquery
    exact {
      target_table := htarget
      incremental := fun hmode =>
        ⟨query, hquery', (hkeys query hmode).mpr (by simpa [hquery'] using hin hmode)⟩
      python_module := h.exists_module
      name := h.name
      batch_size := h.batch_size
      source_query := hquery }

/-- A created row keeps the rules of creation. -/
theorem createdRow_creationRules
    {id : String} {payload : PipelineCreate} (hfields : payload.FieldsValid)
    (hrules : payload.validate_business_rules = .ok ())
    (htarget : is_allowed_target payload.target_table = true) :
    (createdRow id payload).CreationRules := by
  rw [creationRules_iff (createdRow_fieldsValid hfields hrules)]
  refine ⟨htarget, by simp [createdRow], fun hmode => ?_⟩
  obtain ⟨-, -, hkey, hid_key⟩ := (validate_business_rules_eq_ok_iff.mp hrules).1 hmode
  exact ⟨hkey, hid_key⟩

/-- What the update of a row would have to be checked for, and is not: the target is on the
list, the query is not removed, and the keys of an incremental row are named by its query. -/
def KeepsRules (row : EtlPipeline) (data : PipelineUpdate) : Prop :=
  (∀ target ∈ data.target_table.join, is_allowed_target target = true) ∧
    data.source_query ≠ some none ∧ (updatedRow row data).KeysInQuery

instance (row : EtlPipeline) (data : PipelineUpdate) : Decidable (KeepsRules row data) :=
  inferInstanceAs (Decidable (_ ∧ _))

/-- **An accepted update keeps the rules if and only if it passes the missing checks.** -/
theorem updatedRow_creationRules_iff
    {table : PipelinesTable} {row : EtlPipeline} {data : PipelineUpdate}
    (hvalid : row.FieldsValid) (hrules : row.CreationRules) (hdata : data.FieldsValid)
    (h : table.Accepts row data) :
    (updatedRow row data).CreationRules ↔ KeepsRules row data := by
  have htarget : is_allowed_target (updatedRow row data).target_table = true ↔
      ∀ target ∈ data.target_table.join, is_allowed_target target = true := by
    constructor
    · rintro h target hsent
      simpa [updatedRow, Option.mem_def.mp hsent] using h
    · exact fun h => join_getD h hrules.target_table
  have hquery : (updatedRow row data).source_query ≠ none ↔ data.source_query ≠ some none := by
    have hset := hrules.source_query
    rcases hsent : data.source_query with _ | _ | query <;> simp [updatedRow, hsent, hset]
  rw [creationRules_iff (updatedRow_fieldsValid hvalid hdata h), htarget, hquery, KeepsRules]

/-- The event is no accepted update that fails a missing check. -/
def RespectsRules (table : PipelinesTable) : TableEvent → Prop
  | .post .. => True
  | .status .. => True
  | .patch id body =>
      match body.model_validate, get_pipeline table id with
      | .ok data, .ok row => table.Accepts row data → KeepsRules row data
      | _, _ => True

instance (table : PipelinesTable) (row : EtlPipeline) (data : PipelineUpdate) :
    Decidable (table.Accepts row data) :=
  decidable_of_iff
    (row.status ≠ .RUNNING ∧ (mergedConfig row data).Valid ∧ data.NoNulls ∧
      ∀ other ∈ table, other.id ≠ row.id → other.name ≠ (updatedRow row data).name)
    ⟨fun h => ⟨h.1, h.2.1, h.2.2.1, h.2.2.2⟩,
      fun h => ⟨h.notRunning, h.config, h.noNulls, h.newName⟩⟩

instance (table : PipelinesTable) (e : TableEvent) : Decidable (RespectsRules table e) :=
  match e with
  | .post .. => isTrue trivial
  | .status .. => isTrue trivial
  | .patch id body =>
      match hbody : body.model_validate, hrow : get_pipeline table id with
      | .ok data, .ok row =>
          decidable_of_iff (table.Accepts row data → KeepsRules row data)
            (by simp only [RespectsRules, hbody, hrow])
      | .ok _, .error _ => isTrue (by simp only [RespectsRules, hbody, hrow])
      | .error _, _ => isTrue (by simp only [RespectsRules, hbody])

theorem respectsRules_patch_iff
    {table : PipelinesTable} {id : String} {body data : PipelineUpdate} {row : EtlPipeline}
    (hbody : body.model_validate = .ok data) (hrow : get_pipeline table id = .ok row) :
    RespectsRules table (.patch id body) ↔ (table.Accepts row data → KeepsRules row data) := by
  simp only [RespectsRules, hbody, hrow]

theorem EtlPipeline.CreationRules.with_status
    {row : EtlPipeline} (h : row.CreationRules) (s : PipelineStatus) :
    ({ row with status := s } : EtlPipeline).CreationRules :=
  { h with }

/-- An event that respects the rules keeps them. -/
theorem TableEffect.creationRules
    {table table' : PipelinesTable} {e : TableEvent} (h : TableEffect table e table')
    (hvalid : ∀ row ∈ table, row.FieldsValid) (hrules : ∀ row ∈ table, row.CreationRules)
    (hrespects : RespectsRules table e) :
    ∀ row ∈ table', row.CreationRules := by
  cases h with
  | refused =>
      exact hrules
  | created hbody htarget =>
      obtain ⟨hfields, hbusiness⟩ := PipelineCreate.model_validate_eq_ok hbody
      intro row hmem
      rcases List.mem_append.mp hmem with hmem | hmem
      · exact hrules row hmem
      · obtain rfl := List.mem_singleton.mp hmem
        exact createdRow_creationRules hfields hbusiness htarget
  | updated hbody hrow haccepts =>
      have hmem := (get_pipeline_eq_ok hrow).1
      have hkeeps := (respectsRules_patch_iff hbody hrow).mp hrespects haccepts
      have hdata := PipelineUpdate.model_validate_eq_ok hbody
      have hupdated := (updatedRow_creationRules_iff (hvalid _ hmem) (hrules _ hmem) hdata
        haccepts).mpr hkeeps
      intro row' hmem'
      obtain ⟨r, hr, rfl⟩ := List.mem_map.mp hmem'
      split_ifs
      · exact hupdated
      · exact hrules r hr
  | moved id s =>
      intro row' hmem'
      obtain ⟨r, hr, rfl⟩ := List.mem_map.mp hmem'
      split_ifs
      · exact (hrules r hr).with_status s
      · exact hrules r hr

/-- An update that is accepted and fails a missing check stores a row that breaks the rules. -/
theorem respectsRules_of_creationRules
    {table : PipelinesTable} {e : TableEvent}
    (hvalid : ∀ row ∈ table, row.FieldsValid) (hrules : ∀ row ∈ table, row.CreationRules)
    (h : ∀ row ∈ e.apply table, row.CreationRules) :
    RespectsRules table e := by
  cases e with
  | post id body =>
      trivial
  | status id s =>
      trivial
  | patch id body =>
      cases hbody : body.model_validate with
      | error errors =>
          simp only [RespectsRules, hbody]
      | ok data =>
          cases hrow : get_pipeline table id with
          | error exc =>
              simp only [RespectsRules, hbody, hrow]
          | ok row =>
              rw [respectsRules_patch_iff hbody hrow]
              intro haccepts
              obtain ⟨hmem, rfl⟩ := get_pipeline_eq_ok hrow
              rw [← updatedRow_creationRules_iff (hvalid row hmem) (hrules row hmem)
                (PipelineUpdate.model_validate_eq_ok hbody) haccepts]
              by_cases hempty : data = {}
              · -- a body without fields leaves the row as it is
                subst hempty
                exact hrules row hmem
              · have hupdate : update_pipeline table row.id data = .ok _ :=
                  update_pipeline_eq_ok_iff.mpr ⟨row, hrow, haccepts, rfl⟩
                refine h _ ?_
                simp only [TableEvent.apply, update_pipeline_endpoint, hbody, if_neg hempty,
                  hupdate]
                exact List.mem_map.mpr ⟨row, hmem, if_pos rfl⟩

/-- **Stored rows keep the rules of creation as long as no accepted update fails a check that
updates do not make**, and the next event keeps them if and only if it is none of these. -/
theorem stored_rules_of_respected
    {table : PipelinesTable}
    (h : Reach PipelinesTable.step (fun table => table = []) RespectsRules table) :
    (∀ row ∈ table, row.CreationRules) ∧
      ∀ e, (∀ row ∈ TableEvent.apply table e, row.CreationRules) ↔ RespectsRules table e := by
  have hvalid := fieldsValid_of_reach h
  have hrules : ∀ row ∈ table, row.CreationRules := by
    have hboth : (∀ row ∈ table, row.FieldsValid) ∧ ∀ row ∈ table, row.CreationRules := by
      refine h.invariant (I := fun table =>
        (∀ row ∈ table, row.FieldsValid) ∧ ∀ row ∈ table, row.CreationRules) ?_ ?_
      · rintro _ rfl
        simp
      · rintro table e _ ⟨hvalid, hrules⟩ hrespects hstep
        obtain rfl := Option.some.inj hstep
        have heffect := TableEvent.apply_effect table e
        exact ⟨heffect.fieldsValid hvalid, heffect.creationRules hvalid hrules hrespects⟩
    exact hboth.2
  refine ⟨hrules, fun e => ⟨respectsRules_of_creationRules hvalid hrules, ?_⟩⟩
  exact (TableEvent.apply_effect table e).creationRules hvalid hrules

/-! ## Requests on the film pipeline -/

/-- A create body for a pipeline that reads the film table incrementally. -/
def filmBody : PipelineCreate where
  name := "films"
  mode := .incremental
  target_table := "analytics.film_dim"
  source_query := filmQuery
  incremental_key := some "updated_at"
  incremental_id_key := some "film_id"

/-- Another allowed target and a batch size of two. -/
theorem stored_rules_after_update :
    ∃ table,
      (∃ row ∈ table, row.target_table = "es:film_dim" ∧ row.batch_size = 2) ∧
      (∀ row ∈ table, row.CreationRules) ∧
        ∀ e, (∀ row ∈ TableEvent.apply table e, row.CreationRules) ↔ RespectsRules table e := by
  have hrun : ∃ table, Reach PipelinesTable.step (fun table => table = []) RespectsRules table ∧
      ∃ row ∈ table, row.target_table = "es:film_dim" ∧ row.batch_size = 2 :=
    Reach.exists_of_replay []
      [.post "film" filmBody,
        .patch "film" { target_table := some (some "es:film_dim"), batch_size := some (some 2) }]
      rfl (by decide +kernel)
  obtain ⟨table, hreach, hrow⟩ := hrun
  exact ⟨table, hrow, stored_rules_of_respected hreach⟩

/-- An update moves a created pipeline to a table that is not on the list. -/
theorem stored_target_not_allowed :
    ¬ ∀ table, Reach PipelinesTable.step (fun table => table = []) (fun _ _ => True) table →
        ∀ row ∈ table, row.CreationRules := by
  intro hall
  have hrun : ∃ table, Reach PipelinesTable.step (fun table => table = []) (fun _ _ => True) table ∧
      ∃ row ∈ table, is_allowed_target row.target_table = false :=
    Reach.exists_of_replay []
      [.post "film" filmBody, .patch "film" { target_table := some (some "public.users") }]
      rfl (by decide +kernel)
  obtain ⟨table, hreach, row, hmem, htarget⟩ := hrun
  have hallowed := (hall table hreach row hmem).target_table
  rw [htarget] at hallowed
  cases hallowed

end EtlPlatform
