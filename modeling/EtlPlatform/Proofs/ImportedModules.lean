import EtlPlatform.Model.Deployment
import EtlPlatform.Model.Transformers
import EtlPlatform.Proofs.StoredConfig

/-!
# Modules imported for stored pipelines

The runner imports the module a `PYTHON` pipeline names and, if it names none,
whatever its description asks for.  No sequence of requests stores a row that
gets as far as the description, and the module it names is under the tasks
namespace.
-/

namespace EtlPlatform

open Library

theorem isSpace_of_isModuleChar
    {c : Char} (h : isModuleChar c = true) :
    PyText.isSpace c = false := by
  simp only [isModuleChar, isIdentTail, isIdentHead, Bool.or_eq_true, Bool.and_eq_true,
    decide_eq_true_eq, beq_iff_eq] at h
  have hrange : 0x2E ≤ c.toNat ∧ c.toNat ≤ 0x7A := by
    rcases h with (((h | h) | h) | h) | h
    · exact ⟨le_trans (by decide) h.1, le_trans h.2 (by decide)⟩
    · exact ⟨le_trans (by decide) h.1, le_trans h.2 (by decide)⟩
    · exact h ▸ ⟨by decide, by decide⟩
    · exact ⟨le_trans (by decide) h.1, le_trans h.2 (by decide)⟩
    · exact h ▸ ⟨by decide, by decide⟩
  simp only [PyText.isSpace, List.mem_cons, List.not_mem_nil, or_false, decide_eq_false_iff_not]
  omega

namespace ModulePath

variable {path : String}

theorem strip_eq
    (h : ModulePath path) :
    PyText.strip path = path :=
  PyText.strip_eq_self (fun c hc => isSpace_of_isModuleChar (List.all_eq_true.mp h.chars c hc))

theorem ne_empty
    (h : ModulePath path) :
    path ≠ "" := by
  rintro rfl
  exact absurd h.allowed (by decide)

end ModulePath

/-- A module path that is set decides, and the description is not looked at. -/
theorem resolve_transformer_of_modulePath
    {p : PipelineSnapshot} {path : String} (htype : p.type = .PYTHON)
    (hmodule : p.python_module = some path) (hpath : ModulePath path) :
    resolve_transformer p = .ok (.pythonCallable path) := by
  have hstrip : PyText.stripOr p.python_module = path := by
    rw [hmodule]
    exact hpath.strip_eq
  simp only [resolve_transformer, htype, ne_eq, not_true_eq_false, if_false, hstrip,
    hpath.ne_empty, not_false_eq_true, if_true]

/-- What is resolved for a row: nothing to import, or the module it names. -/
inductive ImportsAllowed (row : EtlPipeline) : Except Exc Transformer → Prop
  | noOp :
      row.type ≠ .PYTHON →
      ImportsAllowed row (.ok .noOp)
  | named {path : String} :
      row.type = .PYTHON →
      row.python_module = some path →
      PyText.startswith path PYTHON_TASKS_PREFIX = true →
      ImportsAllowed row (.ok (.pythonCallable path))

theorem importsAllowed_of_fieldsValid
    {row : EtlPipeline} (h : row.FieldsValid) (description : Option String) :
    ImportsAllowed row
      (resolve_transformer (snapshot_pipeline { row with description := description })) := by
  by_cases htype : row.type = .PYTHON
  · obtain ⟨path, hmodule, hpath⟩ := h.exists_module htype
    have hnamed : resolve_transformer (snapshot_pipeline { row with description := description }) =
        .ok (.pythonCallable path) :=
      resolve_transformer_of_modulePath htype hmodule hpath
    rw [hnamed]
    exact .named htype hmodule hpath.allowed
  · have hnoOp : resolve_transformer (snapshot_pipeline { row with description := description }) =
        .ok .noOp :=
      if_pos htype
    rw [hnoOp]
    exact .noOp htype

/-- **Only modules of the tasks namespace are imported**, whatever a description says. -/
theorem imports_allowed_of_reach
    {table : PipelinesTable}
    (h : Reach PipelinesTable.step (fun table => table = []) (fun _ _ => True) table) :
    ∀ row ∈ table, ∀ description,
      ImportsAllowed row
        (resolve_transformer (snapshot_pipeline { row with description := description })) :=
  fun row hmem => importsAllowed_of_fieldsValid (fieldsValid_of_reach h row hmem)

/-- A create body for a pipeline with a module of its own. -/
def demoBody : PipelineCreate where
  name := "demo"
  type := .PYTHON
  target_table := "analytics.film_dim"
  source_query := filmQuery
  python_module := some " src.pipelines.python_tasks.demo_film_dim"

/-- A pipeline that is created without a type of its own, gets a description that asks for
another module, and becomes a `PYTHON` pipeline. -/
theorem imports_allowed_after_updates :
    ∃ table : PipelinesTable,
      (∃ row ∈ table, row.type = .PYTHON ∧ row.description = some "py:evil.module") ∧
      ∀ row ∈ table, ∀ description,
        ImportsAllowed row
          (resolve_transformer (snapshot_pipeline { row with description := description })) := by
  have hrun : ∃ table : PipelinesTable,
      Reach PipelinesTable.step (fun table => table = []) (fun _ _ => True) table ∧
      ∃ row ∈ table, row.type = .PYTHON ∧ row.description = some "py:evil.module" :=
    Reach.exists_of_replay []
      [.post "demo" { demoBody with type := .SQL, python_module := some "" },
        .patch "demo" { description := some (some "py:evil.module") },
        .patch "demo" { type := some (some .PYTHON), python_module := some demoBody.python_module },
        .patch "demo" { python_module := some none },
        .patch "demo" { python_module := some (some "") }]
      rfl (by decide +kernel)
  obtain ⟨table, hreach, hrow⟩ := hrun
  exact ⟨table, hrow, imports_allowed_of_reach hreach⟩

end EtlPlatform
