import EtlPlatform.Proofs.Configuration
import EtlPlatform.Proofs.PatchSteps

/-!
# Cross-field rules under concurrent updates

An update validates the merge of its fields with the row it has read, and writes
its own columns into the row as it is at the commit.  Two updates of one
pipeline can each be valid and store together a row that is not.

The rules hold as long as an update that writes a column of a rule finds the
other columns of the rule as it has read them.
-/

namespace EtlPlatform

open Library

section CrossFields

variable {κ ι P : Type} [DecidableEq κ] [DecidableEq ι] [DecidableEq P]

/-- What the mode requires of a record. -/
def FinalConfig.ModeRule (final : FinalConfig) : Prop :=
  final.mode = some .incremental →
    PyText.truthy final.incremental_key = true ∧ PyText.truthy final.incremental_id_key = true

/-- What the type requires of a record. -/
def FinalConfig.TypeRule (final : FinalConfig) : Prop :=
  final.type = some .PYTHON → PyText.truthy final.python_module = true

/-- The update writes no column the mode rule looks at, or the others are as it read them. -/
def ModeColumnsCurrent (loaded : EtlPipeline) (data : PipelineUpdate) (stored : EtlPipeline) :
    Prop :=
  (Unwritten data.mode (some loaded.mode) ∧
      Unwritten data.incremental_key loaded.incremental_key ∧
      Unwritten data.incremental_id_key loaded.incremental_id_key) ∨
    (Current data.mode (some loaded.mode) (some stored.mode) ∧
      Current data.incremental_key loaded.incremental_key stored.incremental_key ∧
      Current data.incremental_id_key loaded.incremental_id_key stored.incremental_id_key)

/-- The update writes no column the type rule looks at, or the others are as it read them. -/
def TypeColumnsCurrent (loaded : EtlPipeline) (data : PipelineUpdate) (stored : EtlPipeline) :
    Prop :=
  (Unwritten data.type (some loaded.type) ∧
      Unwritten data.python_module loaded.python_module) ∨
    (Current data.type (some loaded.type) (some stored.type) ∧
      Current data.python_module loaded.python_module stored.python_module)

/-- What is committed for `p` was checked together with the columns it is stored next to. -/
def CommitsCurrent (p : P) (s : ApiSys κ ι P) : ApiEvent κ ι P → Prop
  | .patch k _ =>
      match s.requests k with
      | .assigned q data loaded =>
          q = p → ModeColumnsCurrent loaded data (s.sys.db.pipelines p) ∧
            TypeColumnsCurrent loaded data (s.sys.db.pipelines p)
      | _ => True
  | _ => True

theorem FlushedRow.modeRule
    {loaded stored row : EtlPipeline} {data : PipelineUpdate}
    (h : FlushedRow loaded data stored row) (hcurrent : ModeColumnsCurrent loaded data stored)
    (hchecked : (mergedConfig loaded data).ModeRule) (hstored : stored.config.ModeRule) :
    row.config.ModeRule := by
  rcases hcurrent with ⟨hmode, hkey, hid⟩ | ⟨hmode, hkey, hid⟩
  · simpa only [FinalConfig.ModeRule, EtlPipeline.config, h.mode, h.incremental_key,
      h.incremental_id_key, flushed_of_unwritten hmode, flushed_of_unwritten hkey,
      flushed_of_unwritten hid] using hstored
  · simpa only [FinalConfig.ModeRule, EtlPipeline.config, h.mode, h.incremental_key,
      h.incremental_id_key, flushed_of_current hmode, flushed_of_current hkey,
      flushed_of_current hid, mergedConfig] using hchecked

theorem FlushedRow.typeRule
    {loaded stored row : EtlPipeline} {data : PipelineUpdate}
    (h : FlushedRow loaded data stored row) (hcurrent : TypeColumnsCurrent loaded data stored)
    (hchecked : (mergedConfig loaded data).TypeRule) (hstored : stored.config.TypeRule) :
    row.config.TypeRule := by
  rcases hcurrent with ⟨htype, hmodule⟩ | ⟨htype, hmodule⟩
  · simpa only [FinalConfig.TypeRule, EtlPipeline.config, h.type, h.python_module,
      flushed_of_unwritten htype, flushed_of_unwritten hmodule] using hstored
  · simpa only [FinalConfig.TypeRule, EtlPipeline.config, h.type, h.python_module,
      flushed_of_current htype, flushed_of_current hmodule, mergedConfig] using hchecked

/-- The record a request has checked. -/
def PatchRequest.Checked (p : P) : PatchRequest P → Prop
  | .checked q data loaded => q = p → (mergedConfig loaded data).Valid
  | .assigned q data loaded => q = p → (mergedConfig loaded data).Valid
  | _ => True

omit [DecidableEq P] in
theorem checked_check
    (p q : P) (data : PipelineUpdate) (row : EtlPipeline) :
    (PatchRequest.check q data row).Checked p := by
  unfold PatchRequest.check
  split_ifs
  · trivial
  · split
    · trivial
    · rename_i hvalid
      exact fun _ => validate_pipeline_config_eq_ok_iff.mp hvalid

/-- The row of `p` is valid, and so is every record that was checked for it. -/
structure CrossFields (p : P) (s : ApiSys κ ι P) : Prop where
  stored : (s.sys.db.pipelines p).config.Valid
  checked : ∀ k, (s.requests k).Checked p

omit [DecidableEq P] in
theorem SameConfig.finalConfig_eq
    {db db' : Db P} (h : SameConfig db db') (p : P) :
    (db'.pipelines p).config = (db.pipelines p).config := by
  have hsnap := h.2 p
  exact congrArg (fun snap : PipelineSnapshot =>
    { type := some snap.type, mode := some snap.mode, incremental_key := snap.incremental_key,
      incremental_id_key := snap.incremental_id_key,
      python_module := snap.python_module : FinalConfig }) hsnap

omit [DecidableEq ι] [DecidableEq P] in
/-- A request that steps has checked what it holds. -/
theorem CrossFields.update
    {p : P} {s : ApiSys κ ι P} (hs : CrossFields p s) {k : κ} {r : PatchRequest P}
    (hr : r.Checked p) (j : κ) :
    (Function.update s.requests k r j).Checked p := by
  by_cases hj : j = k
  · subst hj
    simpa using hr
  · simpa [hj] using hs.checked j

/-- **One event** that commits nothing outdated keeps the row valid. -/
theorem CrossFields.step
    {w : World} {p : P} {s s' : ApiSys κ ι P} {e : ApiEvent κ ι P}
    (hs : CrossFields p s) (hcurrent : CommitsCurrent p s e) (h : s.step w e = some s') :
    CrossFields p s' := by
  cases e with
  | platform e =>
      obtain ⟨hsys, hrequests⟩ := apiStep_platform h
      have hconfig : SameConfig s.sys.db s'.sys.db := by
        refine step_sameConfig hsys ?_
        rintro q row rfl
        cases h
      exact {
        stored := hconfig.finalConfig_eq p ▸ hs.stored
        checked := hrequests ▸ hs.checked }
  | receive k q body =>
      obtain ⟨hsys, r, hr, hrequests⟩ := apiStep_receive h
      have hchecked : r.Checked p := by
        rcases hr with ⟨res, rfl⟩ | ⟨data, rfl⟩ <;> trivial
      exact {
        stored := hsys ▸ hs.stored
        checked := fun j => hrequests ▸ hs.update hchecked j }
  | patch k c =>
      obtain ⟨r₀, db, r, hr₀, heffect, rfl⟩ := apiStep_patch h
      have hbefore := hs.checked k
      simp only [CommitsCurrent, hr₀] at hcurrent hbefore
      cases heffect with
      | failed _ =>
          exact { stored := hs.stored, checked := hs.update trivial }
      | checked =>
          exact { stored := hs.stored, checked := hs.update (checked_check p _ _ _) }
      | assigned =>
          exact { stored := hs.stored, checked := hs.update hbefore }
      | refused =>
          exact { stored := hs.stored, checked := hs.update trivial }
      | @committed q data loaded row c res hrow =>
          refine { stored := ?_, checked := hs.update trivial }
          by_cases hq : q = p
          · subst hq
            have hvalid : (mergedConfig loaded data).Valid := hbefore rfl
            obtain ⟨hmode, htype⟩ := hcurrent rfl
            have hnew : row.config.Valid :=
              ⟨hrow.modeRule hmode hvalid.1 hs.stored.1, hrow.typeRule htype hvalid.2 hs.stored.2⟩
            simpa [Db.setPipeline] using hnew
          · simpa [Db.setPipeline, Ne.symm hq] using hs.stored

/-- **Concurrent updates keep the cross-field rules** as long as none commits next to columns
of a rule that have changed since it read them. -/
theorem cross_fields_of_current
    {w : World} {p : P} {s : ApiSys κ ι P}
    (h : Reach (ApiSys.step w)
      (fun s => s.Quiet ∧ _validate_pipeline_config (s.sys.db.pipelines p).config = .ok ())
      (CommitsCurrent p) s) :
    _validate_pipeline_config (s.sys.db.pipelines p).config = .ok () := by
  have hinv : CrossFields p s := by
    refine h.invariant (I := CrossFields p) ?_ (fun _ _ _ hs hc hst => hs.step hc hst)
    rintro s ⟨hquiet, hvalid⟩
    exact {
      stored := validate_pipeline_config_eq_ok_iff.mp hvalid
      checked := fun k => by rw [hquiet k]; trivial }
  exact validate_pipeline_config_eq_ok_iff.mpr hinv.stored

instance (loaded stored : EtlPipeline) (data : PipelineUpdate) :
    Decidable (ModeColumnsCurrent loaded data stored) :=
  inferInstanceAs (Decidable (_ ∨ _))

instance (loaded stored : EtlPipeline) (data : PipelineUpdate) :
    Decidable (TypeColumnsCurrent loaded data stored) :=
  inferInstanceAs (Decidable (_ ∨ _))

instance (p : P) (s : ApiSys κ ι P) (e : ApiEvent κ ι P) : Decidable (CommitsCurrent p s e) :=
  match e with
  | .platform _ => isTrue trivial
  | .receive .. => isTrue trivial
  | .patch k _ =>
      match hr : s.requests k with
      | .assigned q data loaded =>
          decidable_of_iff
            (q = p → ModeColumnsCurrent loaded data (s.sys.db.pipelines p) ∧
              TypeColumnsCurrent loaded data (s.sys.db.pipelines p))
            (by simp only [CommitsCurrent, hr])
      | .idle | .reading .. | .checked .. | .answered _ =>
          isTrue (by simp only [CommitsCurrent, hr])

end CrossFields

/-- Two requests in step with each other: each takes its three statements after the other. -/
def inTurns (body body' : PipelineUpdate) : List (ApiEvent (Fin 2) (Fin 1) Unit) :=
  [.receive 0 () body, .receive 1 () body', .patch 0 .ok, .patch 1 .ok, .patch 0 .ok,
    .patch 1 .ok, .patch 0 .ok, .patch 1 .ok]

/-- One request sets the mode and the other one the type and the module. -/
theorem cross_fields_after_independent_updates :
    ∃ s : ApiSys (Fin 2) (Fin 1) Unit,
      ((s.sys.db.pipelines ()).mode = .incremental ∧ (s.sys.db.pipelines ()).type = .PYTHON) ∧
      _validate_pipeline_config (s.sys.db.pipelines ()).config = .ok () := by
  have hrun : ∃ s : ApiSys (Fin 2) (Fin 1) Unit,
      Reach (ApiSys.step World.plain)
        (fun s => s.Quiet ∧ _validate_pipeline_config (s.sys.db.pipelines ()).config = .ok ())
        (CommitsCurrent ()) s ∧
      (s.sys.db.pipelines ()).mode = .incremental ∧ (s.sys.db.pipelines ()).type = .PYTHON :=
    Reach.exists_of_replay (filmRequests (Fin 2))
      (inTurns { mode := some (some .incremental) }
        { type := some (some .PYTHON),
          python_module := some (some "src.pipelines.python_tasks.demo_film_dim") })
      ⟨fun _ => rfl, rfl⟩ (by decide +kernel)
  obtain ⟨s, hreach, hrow⟩ := hrun
  exact ⟨s, hrow, cross_fields_of_current hreach⟩

/-- One request makes the pipeline incremental while the other one removes a key. -/
theorem incremental_without_key_stored :
    ¬ ∀ s : ApiSys (Fin 2) (Fin 1) Unit,
        Reach (ApiSys.step World.plain)
          (fun s => s.Quiet ∧ _validate_pipeline_config (s.sys.db.pipelines ()).config = .ok ())
          (fun _ _ => True) s →
        _validate_pipeline_config (s.sys.db.pipelines ()).config = .ok () := by
  intro hall
  have hrun : ∃ s : ApiSys (Fin 2) (Fin 1) Unit,
      Reach (ApiSys.step World.plain)
        (fun s => s.Quiet ∧ _validate_pipeline_config (s.sys.db.pipelines ()).config = .ok ())
        (fun _ _ => True) s ∧
      ¬ (s.sys.db.pipelines ()).config.Valid :=
    Reach.exists_of_replay (filmRequests (Fin 2))
      (inTurns { mode := some (some .incremental) } { incremental_key := some none })
      ⟨fun _ => rfl, rfl⟩ (by decide +kernel)
  obtain ⟨s, hreach, hinvalid⟩ := hrun
  exact hinvalid (validate_pipeline_config_eq_ok_iff.mp (hall s hreach))

end EtlPlatform
