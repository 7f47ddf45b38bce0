import EtlPlatform.Model.Deployment
import EtlPlatform.Model.Endpoints
import EtlPlatform.Proofs.CreationRules
import EtlPlatform.Proofs.ImportedModules

/-!
# How a `PATCH` fails

The handler of a `PATCH` takes two of the exceptions its service may raise.  A
request is answered by the updated pipeline or by an error of the API exactly
if it is accepted, or is turned down before the merged record is looked at:
the checks of the merged record and of the database raise what no handler
takes.
-/

namespace EtlPlatform

open Library

/-! ## The response model -/

section Responses

theorem isSpace_of_isNameChar
    {c : Char} (h : isNameChar c = true) :
    PyText.isSpace c = false := by
  rw [isNameChar, Bool.or_eq_true, beq_iff_eq] at h
  rcases h with h | rfl
  · exact isSpace_of_isModuleChar (by simp [isModuleChar, h])
  · decide

/-- A name that has been validated validates to itself. -/
theorem validate_name_of_pipelineName
    {name : String} (h : PipelineName name) :
    PipelineBase.validate_name name = .ok name := by
  have hstrip : PyText.strip name = name :=
    PyText.strip_eq_self (fun c hc => isSpace_of_isNameChar (List.all_eq_true.mp h.chars c hc))
  have hne : name ≠ "" := by
    rintro rfl
    exact absurd h.length.1 (by decide)
  simp [PipelineBase.validate_name, hstrip, h.length, h.chars, hne]

/-- The response made of a row whose name and batch size need no change. -/
def EtlPipeline.out (row : EtlPipeline) : PipelineOut :=
  PipelineOut.ofRow row row.name row.batch_size

/-- A stored row always makes a response. -/
theorem returnPipeline_of_fieldsValid
    {row : EtlPipeline} (h : row.FieldsValid) :
    returnPipeline row = .returns row.out := by
  have hsize : PipelineBase.validate_batch_size row.batch_size = .ok (row.batch_size : ℤ) := by
    have hrange := h.batch_size
    have hint : 1 ≤ (row.batch_size : ℤ) ∧ (row.batch_size : ℤ) ≤ 50000 := by
      omega
    rw [PipelineBase.validate_batch_size, if_pos hint]
  have hvalid : PipelineOut.model_validate row = .ok row.out := by
    have hname := validate_name_of_pipelineName h.name
    unfold PipelineOut.model_validate
    rw [hname, hsize]
    simp only [atField, collect]
    rfl
  unfold returnPipeline
  rw [hvalid]

end Responses

/-! ## The row a request reads -/

section Rows

variable {table : PipelinesTable} {id : String}

theorem get_pipeline_eq_error
    {exc : Exc} (h : get_pipeline table id = .error exc) :
    exc = PipelineNotFoundError ("Pipeline " ++ id ++ " not found") := by
  unfold get_pipeline at h
  split at h
  · cases h
  · exact (Except.error.inj h).symm

/-- Rewriting one row does not change which rows are found. -/
theorem get_pipeline_map
    {f : EtlPipeline → EtlPipeline} (hid : ∀ r, (f r).id = r.id) (id : String) :
    get_pipeline (table.map f) id = (get_pipeline table id).map f := by
  have hfind : (table.map f).find? (fun row => decide (row.id = id)) =
      (table.find? (fun row => decide (row.id = id))).map f := by
    have hcomp : (fun row : EtlPipeline => decide (row.id = id)) ∘ f =
        fun row => decide (row.id = id) :=
      funext fun row => by rw [Function.comp_apply, hid]
    rw [List.find?_map, hcomp]
  rw [get_pipeline, get_pipeline, hfind]
  cases table.find? (fun row => decide (row.id = id)) <;> rfl

end Rows

/-! ## The exceptions of the service -/

section Exceptions

variable {table : PipelinesTable} {id : String} {row : EtlPipeline} {data : PipelineUpdate}
variable {exc : Exc}

/-- No `except` clause of the handler takes these. -/
def Unhandled (exc : Exc) : Prop :=
  exc.name = "ValueError" ∨ exc.name = "IntegrityError"

theorem onUpdateExc_of_unhandled
    (h : Unhandled exc) :
    onUpdateExc exc = .raises exc := by
  rw [onUpdateExc]
  rcases h with h | h
  · rw [h]
    rfl
  · rw [h]
    rfl

theorem validate_pipeline_config_eq_error
    {final : FinalConfig} (h : _validate_pipeline_config final = .error exc) :
    Unhandled exc := by
  have hraised : ∀ msg, (Except.error (valueError msg) : Except Exc Unit) = .error exc →
      Unhandled exc :=
    fun msg hmsg => Except.error.inj hmsg ▸ .inl rfl
  unfold _validate_pipeline_config at h
  split_ifs at h
  all_goals first
    | exact hraised _ h
    | cases h

theorem notNull_eq_error
    {α : Type} {column : String} {x : Option α} (h : notNull column x = .error exc) :
    Unhandled exc := by
  cases x with
  | none =>
      obtain rfl := Except.error.inj h
      exact .inr rfl
  | some a =>
      cases h

theorem flush_eq_error
    {stored : EtlPipeline} (h : flush row data stored = .error exc) :
    Unhandled exc := by
  simp only [flush, bind_eq_error_iff] at h
  obtain h | ⟨_, -, h | ⟨_, -, h | ⟨_, -, h | ⟨_, -, h | ⟨_, -, h | ⟨_, -, h⟩⟩⟩⟩⟩⟩ := h
  · exact notNull_eq_error h
  · exact notNull_eq_error h
  · exact notNull_eq_error h
  · exact notNull_eq_error h
  · exact notNull_eq_error h
  · exact notNull_eq_error h
  · cases h

/-- **What the service refuses after the check of the status, no handler takes.** -/
theorem update_pipeline_eq_error
    (hrow : get_pipeline table id = .ok row) (hidle : row.status ≠ .RUNNING)
    (h : update_pipeline table id data = .error exc) :
    Unhandled exc := by
  simp only [update_pipeline, bind_eq_error_iff, check_eq_error_iff, hrow] at h
  obtain h | ⟨_, hread, ⟨hrunning, -⟩ | ⟨-, hconfig | ⟨_, -, hflush | ⟨_, -, ⟨-, rfl⟩ | ⟨-, h⟩⟩⟩⟩⟩ :=
    h
  · cases h
  · obtain rfl := Except.ok.inj hread
    exact absurd hrunning hidle
  · exact validate_pipeline_config_eq_error hconfig
  · exact flush_eq_error hflush
  · exact .inr rfl
  · cases h

theorem update_pipeline_of_running
    (hrow : get_pipeline table id = .ok row) (hrunning : row.status = .RUNNING) :
    update_pipeline table id data = .error cannotUpdateRunning := by
  simp only [update_pipeline, hrow, bind, Except.bind, hrunning, if_true]
  rfl

theorem update_pipeline_of_missing
    (hrow : get_pipeline table id = .error exc) :
    update_pipeline table id data = .error exc := by
  simp only [update_pipeline, hrow]
  rfl

end Exceptions

/-! ## Answers -/

section Answers

variable {table : PipelinesTable} {id : String} {data body : PipelineUpdate}

/-- The status codes of the errors a client is promised. -/
def clientErrors : List ℕ :=
  [400, 404, 409, 422]

/-- The request is answered by the row with the fields that were sent, which is the row stored
now, or by an error of the API that leaves the table alone. -/
inductive AnsweredCleanly
    (table : PipelinesTable) (id : String) (data : PipelineUpdate) :
    PipelinesTable × Answer → Prop
  | updated {row : EtlPipeline} {table' : PipelinesTable} :
      get_pipeline table id = .ok row →
      get_pipeline table' id = .ok (updatedRow row data) →
      (∀ other, other ≠ id → get_pipeline table' other = get_pipeline table other) →
      AnsweredCleanly table id data (table', .returns (updatedRow row data).out)
  | refused {status_code : ℕ} {detail : String} :
      status_code ∈ clientErrors →
      AnsweredCleanly table id data (table, .http status_code detail)
  | invalid {errors : ValidationErrors} :
      AnsweredCleanly table id data (table, .unprocessable errors)

/-- An exception that leaves the handler is no clean answer. -/
theorem not_answeredCleanly_raises
    {table' : PipelinesTable} {exc : Exc} :
    ¬ AnsweredCleanly table id data (table', .raises exc) := by
  rintro ⟨⟩

/-- Nothing behind the check of the status refuses the request: the merged record is valid, no
column that allows no `NULL` is sent one, and the name is free. -/
def PassesChecks (table : PipelinesTable) (row : EtlPipeline) (data : PipelineUpdate) : Prop :=
  (mergedConfig row data).Valid ∧ data.NoNulls ∧
    ∀ other ∈ table, other.id ≠ row.id → other.name ≠ data.name.join.getD row.name

instance (table : PipelinesTable) (row : EtlPipeline) (data : PipelineUpdate) :
    Decidable (PassesChecks table row data) :=
  inferInstanceAs (Decidable (_ ∧ _))

/-- The endpoint leaves the table it is modelled with elsewhere. -/
theorem Api.update_pipeline_endpoint_fst
    (table : PipelinesTable) (id : String) (body : PipelineUpdate) :
    (Api.update_pipeline_endpoint table id body).1 =
      EtlPlatform.update_pipeline_endpoint table id body := by
  unfold Api.update_pipeline_endpoint EtlPlatform.update_pipeline_endpoint
  cases body.model_validate with
  | error errors =>
      rfl
  | ok data =>
      dsimp only
      split_ifs
      · rfl
      · cases update_pipeline table id data with
        | error exc =>
            rfl
        | ok table' =>
            dsimp only [Except.toOption, Option.getD_some]
            cases get_pipeline table' id <;> rfl

/-- A body without fields changes no row. -/
theorem updatedRow_empty
    (row : EtlPipeline) :
    updatedRow row {} = row := by
  simp [updatedRow]

/-- A body without fields is answered by the row as it is. -/
theorem get_pipeline_or_404_clean
    (hvalid : ∀ row ∈ table, row.FieldsValid) :
    AnsweredCleanly table id {} (table, get_pipeline_or_404 table id) := by
  unfold get_pipeline_or_404
  cases hrow : get_pipeline table id with
  | error exc =>
      obtain rfl := get_pipeline_eq_error hrow
      exact .refused (by decide)
  | ok row =>
      dsimp only
      rw [returnPipeline_of_fieldsValid (hvalid row (get_pipeline_eq_ok hrow).1)]
      have hupdated : get_pipeline table id = .ok (updatedRow row {}) := by
        rw [updatedRow_empty, hrow]
      have hclean := AnsweredCleanly.updated hrow hupdated (fun _ _ => rfl)
      rwa [updatedRow_empty] at hclean

/-- An accepted request is answered by the updated row. -/
theorem updated_clean
    {row : EtlPipeline}
    (hvalid : ∀ row ∈ table, row.FieldsValid) (hdata : data.FieldsValid)
    (hrow : get_pipeline table id = .ok row) (haccepts : table.Accepts row data) :
    ∃ table', update_pipeline table id data = .ok table' ∧
      get_pipeline table' id = .ok (updatedRow row data) ∧
      AnsweredCleanly table id data (table', returnPipeline (updatedRow row data)) := by
  obtain ⟨hmem, hid⟩ := get_pipeline_eq_ok hrow
  set f : EtlPipeline → EtlPipeline := fun r => if r.id = id then updatedRow row data else r
    with hf
  have hkeeps : ∀ r, (f r).id = r.id := by
    intro r
    simp only [hf]
    split_ifs with h
    · rw [h]
      exact hid
    · rfl
  have hread : get_pipeline (table.map f) id = .ok (updatedRow row data) := by
    rw [get_pipeline_map hkeeps, hrow]
    simp [Except.map, hf, hid]
  have hothers : ∀ other, other ≠ id →
      get_pipeline (table.map f) other = get_pipeline table other := by
    intro other hother
    rw [get_pipeline_map hkeeps]
    cases hget : get_pipeline table other with
    | error exc =>
        rfl
    | ok r =>
        obtain ⟨-, rfl⟩ := get_pipeline_eq_ok hget
        simp [Except.map, hf, hother]
  refine ⟨_, update_pipeline_eq_ok_iff.mpr ⟨row, hrow, haccepts, rfl⟩, hread, ?_⟩
  rw [returnPipeline_of_fieldsValid (updatedRow_fieldsValid (hvalid row hmem) hdata haccepts)]
  exact .updated hrow hread hothers

/-- **A `PATCH` fails cleanly exactly if nothing behind the check of the status refuses it.** -/
theorem patch_clean_iff
    (hreach : Reach PipelinesTable.step (fun table => table = []) (fun _ _ => True) table)
    (hbody : body.model_validate = .ok data) :
    AnsweredCleanly table id data (Api.update_pipeline_endpoint table id body) ↔
      data = {} ∨ ∀ row, get_pipeline table id = .ok row →
        row.status = .RUNNING ∨ PassesChecks table row data := by
  have hvalid := fieldsValid_of_reach hreach
  have hdata := PipelineUpdate.model_validate_eq_ok hbody
  unfold Api.update_pipeline_endpoint
  rw [hbody]
  dsimp only
  by_cases hempty : data = {}
  · rw [if_pos hempty]
    subst hempty
    exact ⟨fun _ => .inl rfl, fun _ => get_pipeline_or_404_clean hvalid⟩
  · rw [if_neg hempty]
    cases hrow : get_pipeline table id with
    | error exc =>
        obtain rfl := get_pipeline_eq_error hrow
        rw [update_pipeline_of_missing hrow]
        exact ⟨fun _ => .inr (fun row h => nomatch h), fun _ => .refused (by decide)⟩
    | ok row =>
        by_cases hrunning : row.status = .RUNNING
        · rw [update_pipeline_of_running hrow hrunning]
          refine ⟨fun _ => .inr ?_, fun _ => .refused (by decide)⟩
          rintro _ ⟨⟩
          exact .inl hrunning
        · by_cases haccepts : table.Accepts row data
          · obtain ⟨table', hupdate, hread, hclean⟩ := updated_clean hvalid hdata hrow haccepts
            rw [hupdate]
            dsimp only
            rw [hread]
            refine ⟨fun _ => .inr ?_, fun _ => hclean⟩
            rintro _ ⟨⟩
            exact .inr ⟨haccepts.config, haccepts.noNulls, haccepts.newName⟩
          · cases hupdate : update_pipeline table id data with
            | ok table' =>
                obtain ⟨row', hrow', haccepts', -⟩ := update_pipeline_eq_ok_iff.mp hupdate
                obtain rfl := Except.ok.inj (hrow.symm.trans hrow')
                exact absurd haccepts' haccepts
            | error exc =>
                dsimp only
                rw [onUpdateExc_of_unhandled (update_pipeline_eq_error hrow hrunning hupdate)]
                refine ⟨fun h => absurd h not_answeredCleanly_raises, ?_⟩
                rintro (h | h)
                · exact absurd h hempty
                · obtain h | ⟨hconfig, hnulls, hname⟩ := h row rfl
                  · exact absurd h hrunning
                  · exact absurd ⟨hrunning, hconfig, hnulls, hname⟩ haccepts

/-- A pipeline that reads the film table as a whole, without keys. -/
def fullFilmBody : PipelineCreate :=
  { filmBody with mode := .full, incremental_key := none, incremental_id_key := none }

/-- Another batch size is answered by the pipeline that has it. -/
theorem patch_clean_batch_size :
    ∃ table, AnsweredCleanly table "film" { batch_size := some (some 2) }
      (Api.update_pipeline_endpoint table "film" { batch_size := some (some 2) }) := by
  have hrun : ∃ table, Reach PipelinesTable.step (fun table => table = []) (fun _ _ => True) table ∧
      ∀ row ∈ table, PassesChecks table row { batch_size := some (some 2) } :=
    Reach.exists_of_replay [] [.post "film" fullFilmBody] rfl (by decide +kernel)
  obtain ⟨table, hreach, hpasses⟩ := hrun
  refine ⟨table, (patch_clean_iff hreach (by decide +kernel)).mpr (.inr ?_)⟩
  intro row hrow
  exact .inr (hpasses row (get_pipeline_eq_ok hrow).1)

/-- Incremental mode without keys, `null` for a name and a name that is taken: three bodies
that validate, and three exceptions that leave the handler. -/
theorem exists_patch_exceptions :
    ∃ table, Reach PipelinesTable.step (fun table => table = []) (fun _ _ => True) table ∧
      (Api.update_pipeline_endpoint table "film" { mode := some (some .incremental) }).2 =
        .raises
          (valueError "incremental mode requires incremental_key and incremental_id_key") ∧
      (Api.update_pipeline_endpoint table "film" { name := some none }).2 =
        .raises (integrityError "NotNullViolationError"
          ("null value in column \"name\" of relation \"etl_pipelines\" violates " ++
            "not-null constraint")) ∧
      (Api.update_pipeline_endpoint table "film" { name := some (some "actors") }).2 =
        .raises duplicateName :=
  Reach.exists_of_replay []
    [.post "film" fullFilmBody, .post "actor" { fullFilmBody with name := "actors" }]
    rfl (by decide +kernel)

/-- A created pipeline is asked for incremental mode without its keys. -/
theorem patch_not_clean :
    ¬ ∀ table, Reach PipelinesTable.step (fun table => table = []) (fun _ _ => True) table →
        ∀ (id : String) (body data : PipelineUpdate), body.model_validate = .ok data →
          AnsweredCleanly table id data (Api.update_pipeline_endpoint table id body) := by
  intro hall
  obtain ⟨table, hreach, hraises, -⟩ := exists_patch_exceptions
  have hclean := hall table hreach "film" { mode := some (some .incremental) } _ rfl
  rw [← Prod.mk.eta (p := Api.update_pipeline_endpoint table "film" _), hraises] at hclean
  exact not_answeredCleanly_raises hclean

end Answers

end EtlPlatform
