import EtlPlatform.Model.PatchRequests
import EtlPlatform.Proofs.StoredConfig

/-!
# Steps of requests that overlap

What one step of a `PATCH` can do, and what it is for the platform: a commit is
the `PATCH` event, every other step changes nothing outside the request.  What
holds of the states the platform reaches therefore holds between the steps of
any number of requests.
-/

namespace EtlPlatform

open Library

/-! ## What a flush writes -/

section Flush

/-- The flush leaves the column alone. -/
def Unwritten {α : Type} (sent : Field α) (loaded : Option α) : Prop :=
  sent = none ∨ sent = some loaded

/-- The column is written, or still holds what was read. -/
def Current {α : Type} (sent : Field α) (loaded stored : Option α) : Prop :=
  Unwritten sent loaded → stored = loaded

instance {α : Type} [DecidableEq α] (sent : Field α) (loaded : Option α) :
    Decidable (Unwritten sent loaded) :=
  inferInstanceAs (Decidable (_ ∨ _))

instance {α : Type} [DecidableEq α] (sent : Field α) (loaded stored : Option α) :
    Decidable (Current sent loaded stored) :=
  inferInstanceAs (Decidable (_ → _))

variable {α : Type} [DecidableEq α] {sent : Field α} {loaded stored : Option α}

theorem flushed_of_unwritten
    (h : Unwritten sent loaded) :
    flushed sent loaded stored = stored := by
  rcases h with rfl | rfl <;> simp [flushed]

/-- A column nobody has changed since the read gets the value that was checked. -/
theorem flushed_of_current
    (h : Current sent loaded stored) :
    flushed sent loaded stored = sent.getD loaded := by
  by_cases hun : Unwritten sent loaded
  · obtain rfl := h hun
    exact flushed_self
  · rcases sent with _ | v
    · exact absurd (Or.inl rfl) hun
    · have hne : v ≠ loaded := fun hv => hun (Or.inr (congrArg some hv))
      simp [flushed, hne]

/-- What a flush stores, as far as the configuration is checked. -/
structure FlushedRow (loaded : EtlPipeline) (data : PipelineUpdate) (stored row : EtlPipeline) :
    Prop where
  id : row.id = stored.id
  status : row.status = stored.status
  type : some row.type = flushed data.type (some loaded.type) (some stored.type)
  mode : some row.mode = flushed data.mode (some loaded.mode) (some stored.mode)
  incremental_key :
    row.incremental_key = flushed data.incremental_key loaded.incremental_key stored.incremental_key
  incremental_id_key : row.incremental_id_key =
    flushed data.incremental_id_key loaded.incremental_id_key stored.incremental_id_key
  python_module :
    row.python_module = flushed data.python_module loaded.python_module stored.python_module

theorem flush_eq_ok
    {loaded stored row : EtlPipeline} {data : PipelineUpdate}
    (h : flush loaded data stored = .ok row) :
    FlushedRow loaded data stored row := by
  simp only [flush, bind_eq_ok_iff, pure_eq_ok_iff, notNull_eq_ok_iff] at h
  obtain ⟨_, -, _, htype, _, hmode, _, -, _, -, _, -, rfl⟩ := h
  exact {
    id := rfl
    status := rfl
    type := htype.symm
    mode := hmode.symm
    incremental_key := rfl
    incremental_id_key := rfl
    python_module := rfl }

end Flush

/-! ## What a step of a request can do -/

section Requests

variable {P : Type} [DecidableEq P]

theorem commit_update_eq_ok
    {db db' : Db P} {p : P} {data : PipelineUpdate} {loaded : EtlPipeline}
    (h : db.commit_update p data loaded = .ok db') :
    ∃ row, FlushedRow loaded data (db.pipelines p) row ∧ db' = db.setPipeline p row := by
  simp only [Db.commit_update, bind_eq_ok_iff, check_eq_ok_iff, pure_eq_ok_iff] at h
  obtain ⟨row, hrow, -, rfl⟩ := h
  exact ⟨row, flush_eq_ok hrow, rfl⟩

/-- Everything one step of a request can do. -/
inductive PatchEffect (db : Db P) : PatchRequest P → Choice → Db P → PatchRequest P → Prop
  /-- a statement has failed -/
  | failed {r : PatchRequest P} {c : Choice} {exc : Exc} :
      c ≠ .ok → PatchEffect db r c db (.answered (.error exc))
  /-- the row is read and checked -/
  | checked {p : P} {data : PipelineUpdate} :
      PatchEffect db (.reading p data) .ok db (.check p data (db.pipelines p))
  | assigned {p : P} {data : PipelineUpdate} {row : EtlPipeline} :
      PatchEffect db (.checked p data row) .ok db (.assigned p data row)
  /-- a constraint refuses the flush -/
  | refused {p : P} {data : PipelineUpdate} {row : EtlPipeline} {exc : Exc} :
      PatchEffect db (.assigned p data row) .ok db (.answered (.error exc))
  /-- the flush is committed, and its answer may be lost -/
  | committed {p : P} {data : PipelineUpdate} {loaded row : EtlPipeline} {c : Choice}
      {res : Except Exc Unit} :
      FlushedRow loaded data (db.pipelines p) row →
      PatchEffect db (.assigned p data loaded) c (db.setPipeline p row) (.answered res)

/-- **One step of a request, case by case.** -/
theorem patchStep_effect
    {db db' : Db P} {r r' : PatchRequest P} {c : Choice} (h : r.step db c = some (db', r')) :
    PatchEffect db r c db' r' := by
  cases r with
  | idle =>
      cases h
  | answered res =>
      cases h
  | reading p data =>
      cases c with
      | ok =>
          obtain ⟨rfl, rfl⟩ := Prod.mk.inj (Option.some.inj h)
          exact .checked
      | partialBulk applied exc =>
          cases h
      | _ =>
          obtain ⟨rfl, rfl⟩ := Prod.mk.inj (Option.some.inj h)
          exact .failed (by simp)
  | checked p data row =>
      cases c with
      | ok =>
          obtain ⟨rfl, rfl⟩ := Prod.mk.inj (Option.some.inj h)
          exact .assigned
      | partialBulk applied exc =>
          cases h
      | _ =>
          obtain ⟨rfl, rfl⟩ := Prod.mk.inj (Option.some.inj h)
          exact .failed (by simp)
  | assigned p data row =>
      cases hcommit : db.commit_update p data row with
      | error exc =>
          cases c with
          | ok =>
              simp only [PatchRequest.step, hcommit] at h
              obtain ⟨rfl, rfl⟩ := Prod.mk.inj (Option.some.inj h)
              exact .refused
          | partialBulk applied exc' =>
              simp [PatchRequest.step] at h
          | _ =>
              simp only [PatchRequest.step, hcommit] at h
              obtain ⟨rfl, rfl⟩ := Prod.mk.inj (Option.some.inj h)
              exact .failed (by simp)
      | ok db₁ =>
          obtain ⟨row', hrow, rfl⟩ := commit_update_eq_ok hcommit
          cases c with
          | raise exc =>
              simp only [PatchRequest.step] at h
              obtain ⟨rfl, rfl⟩ := Prod.mk.inj (Option.some.inj h)
              exact .failed (by simp)
          | partialBulk applied exc =>
              simp [PatchRequest.step] at h
          | _ =>
              simp only [PatchRequest.step, hcommit] at h
              obtain ⟨rfl, rfl⟩ := Prod.mk.inj (Option.some.inj h)
              exact .committed hrow

/-- A flush is the `PATCH` event of the platform. -/
theorem setPipeline_eq_patchConfig
    {db : Db P} {p : P} {data : PipelineUpdate} {loaded row : EtlPipeline}
    (h : FlushedRow loaded data (db.pipelines p) row) :
    db.setPipeline p row = db.patchConfig p row := by
  have hrow : row = { row with id := (db.pipelines p).id, status := db.status p } := by
    rw [Db.status, ← h.id, ← h.status]
  rw [Db.patchConfig, ← hrow]

variable {κ ι : Type} [DecidableEq κ] [DecidableEq ι]

/-- What an event of the platform does. -/
theorem apiStep_platform
    {w : World} {s s' : ApiSys κ ι P} {e : Event ι P} (h : s.step w (.platform e) = some s') :
    s.sys.step w e = some s'.sys ∧ s'.requests = s.requests := by
  have hstep : (s.sys.step w e).map (fun sys => ({ s with sys := sys } : ApiSys κ ι P)) =
      some s' := by
    cases e with
    | patch p row =>
        cases h
    | _ =>
        exact h
  obtain ⟨sys, hsys, rfl⟩ := Option.map_eq_some_iff.mp hstep
  exact ⟨hsys, rfl⟩

/-- A request that arrives is refused at once, is answered at once, or reads the row. -/
theorem apiStep_receive
    {w : World} {s s' : ApiSys κ ι P} {k : κ} {p : P} {body : PipelineUpdate}
    (h : s.step w (.receive k p body) = some s') :
    s'.sys = s.sys ∧
      ∃ r : PatchRequest P, ((∃ res, r = .answered res) ∨ ∃ data, r = .reading p data) ∧
        s'.requests = Function.update s.requests k r := by
  simp only [ApiSys.step] at h
  split at h
  · obtain rfl := Option.some.inj h
    refine ⟨rfl, .received p body, ?_, rfl⟩
    unfold PatchRequest.received
    split
    · exact Or.inl ⟨_, rfl⟩
    · split_ifs
      · exact Or.inl ⟨_, rfl⟩
      · exact Or.inr ⟨_, rfl⟩
  · cases h

/-- What a step of a request does. -/
theorem apiStep_patch
    {w : World} {s s' : ApiSys κ ι P} {k : κ} {c : Choice} (h : s.step w (.patch k c) = some s') :
    ∃ r₀ db r, s.requests k = r₀ ∧ PatchEffect s.sys.db r₀ c db r ∧
      s' = { sys := { s.sys with db := db }, requests := Function.update s.requests k r } := by
  obtain ⟨⟨db, r⟩, hr, rfl⟩ := Option.map_eq_some_iff.mp h
  exact ⟨_, db, r, rfl, patchStep_effect hr, rfl⟩

/-- **Refinement.**  With its requests taken apart, the platform still does nothing but the
events it is modelled by. -/
theorem apiStep_sys
    {w : World} {s s' : ApiSys κ ι P} {e : ApiEvent κ ι P} (h : s.step w e = some s') :
    s'.sys = s.sys ∨ ∃ e', s.sys.step w e' = some s'.sys := by
  cases e with
  | platform e =>
      exact Or.inr ⟨e, (apiStep_platform h).1⟩
  | receive k p body =>
      exact Or.inl (apiStep_receive h).1
  | patch k c =>
      obtain ⟨r₀, db, r, -, heffect, rfl⟩ := apiStep_patch h
      cases heffect with
      | @committed p data loaded row _ _ hrow =>
          refine Or.inr ⟨.patch p row, ?_⟩
          rw [Sys.step, ← setPipeline_eq_patchConfig hrow]
      | _ =>
          exact Or.inl rfl

/-- Whatever holds of the states the platform reaches holds between the steps of requests. -/
theorem reach_sys
    {w : World} {init : Sys ι P → Prop} {allow : ApiSys κ ι P → ApiEvent κ ι P → Prop}
    {s : ApiSys κ ι P}
    (h : Reach (ApiSys.step w) (fun s => s.Quiet ∧ init s.sys) allow s) :
    Reach (Sys.step w) init (fun _ _ => True) s.sys := by
  induction h with
  | start h0 =>
      exact .start h0.2
  | next _ _ hstep ih =>
      rcases apiStep_sys hstep with hs | ⟨e, he⟩
      · exact hs ▸ ih
      · exact .next ih trivial he

end Requests

end EtlPlatform
