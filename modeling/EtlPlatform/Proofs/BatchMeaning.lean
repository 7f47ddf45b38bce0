import EtlPlatform.Proofs.StepCases
import EtlPlatform.Proofs.TransformIsolation
import Mathlib.Logic.Relation

/-!
# The meaning of a batch loop

A batch loop as the process runs it is a sequence of statements.  Its meaning is
coarser: a batch takes the tables and the loop variables from one query to the
next, and a run is a list of batches up to a query that finds nothing.

When every statement succeeds and no pause is asked for, the process does what
the meaning says.
-/

namespace EtlPlatform

open Library

section Meaning

variable {P : Type} [DecidableEq P]

/-- The items a batch of rows is written as. -/
def BatchLoop.items (bl : BatchLoop P) (rows : List Row) : Except Exc (List Item) := do
  let res ← bl.transform rows
  bl.itemsOf res.rows

/-- One batch from its query to its commit: the rows read, the items written, and the tables
and loop variables after it. -/
inductive BatchLoop.Batch (bl : BatchLoop P) (st : Store P) (v : LoopVars) :
    List Row → List Item → Store P → LoopVars → Prop
  | mk {rows : List Row} {res : Transformed} {items : List Item} {v' : LoopVars}
      {ws : List (Write P)} :
      bl.query st v = .ok rows →
      rows ≠ [] →
      bl.transform rows = .ok res →
      bl.itemsOf res.rows = .ok items →
      bl.advance v rows res.left items.length = .ok (v', ws) →
      bl.Batch st v rows items (st.commit (items.map .upsert ++ ws)) v'

/-- The batches of a run, up to a query that finds nothing. -/
inductive BatchLoop.Exhausts (bl : BatchLoop P) :
    Store P → LoopVars → List (List Row) → List (List Item) → Store P → LoopVars → Prop
  | done {st : Store P} {v : LoopVars} :
      bl.query st v = .ok [] →
      bl.Exhausts st v [] [] st v
  | batch {st st' st'' : Store P} {v v' v'' : LoopVars} {rows : List Row} {items : List Item}
      {batches : List (List Row)} {written : List (List Item)} :
      bl.Batch st v rows items st' v' →
      bl.Exhausts st' v' batches written st'' v'' →
      bl.Exhausts st v (rows :: batches) (items :: written) st'' v''

variable {bl : BatchLoop P} {st st' : Store P} {v v' : LoopVars}
variable {batches : List (List Row)} {written : List (List Item)}

/-- What is written is what the batches are transformed to. -/
theorem BatchLoop.Exhausts.items_eq
    (h : bl.Exhausts st v batches written st' v') :
    batches.mapM bl.items = .ok written := by
  induction h with
  | done _ =>
      rfl
  | batch hbatch _ ih =>
      obtain ⟨_, _, hres, hitems, _⟩ := hbatch
      refine mapM_cons_eq_ok_iff.mpr ⟨_, ?_, _, ih, rfl⟩
      exact bind_eq_ok_iff.mpr ⟨_, hres, hitems⟩

end Meaning

/-! ## Steps that succeed -/

section Leads

variable {P : Type} [DecidableEq P]

/-- With every statement succeeding, a process gets from one point to another. -/
def Leads (w : World) : Db P × Proc P → Db P × Proc P → Prop :=
  Relation.ReflTransGen (fun x y => procStep w x.1 x.2 .ok = some y)

variable {w : World} {db db' : Db P} {p : P} {snap : PipelineSnapshot}
variable {todo : List (P × PipelineStatus)} {ws ws' : List (Write P)}

theorem Leads.trans
    {x y z : Db P × Proc P} (h : Leads w x y) (h' : Leads w y z) :
    Leads w x z :=
  Relation.ReflTransGen.trans h h'

theorem Leads.step
    {pr : Proc P} {y : Db P × Proc P} (h : procStep w db pr .ok = some y) :
    Leads w (db, pr) y :=
  Relation.ReflTransGen.single h

/-- A statement of a dispatch that has read its tasks. -/
theorem Leads.stage
    {st st' : Stage P} (h : stageStep w (db, ws) p snap st .ok = some ⟨db', ws', st'⟩)
    (hsnap : nextSnapshot db p snap st .ok = snap) :
    Leads w (db, ⟨.dispatch p snap st todo, ws⟩) (db', ⟨.dispatch p snap st' todo, ws'⟩) := by
  refine Leads.step ?_
  cases st with
  | returning res =>
      cases h
  | _ =>
      simp only [procStep, h, Option.map_some, hsnap]

/-- A statement of a batch loop. -/
theorem Leads.loop
    {k r : ℕ} {bl : BatchLoop P} {pc : LoopPc} {st' : Stage P}
    (h : loopStep w (db, ws) p k r bl pc .ok = some ⟨db', ws', st'⟩) :
    Leads w (db, ⟨.dispatch p snap (.loop k r bl pc) todo, ws⟩)
      (db', ⟨.dispatch p snap st' todo, ws'⟩) :=
  Leads.stage h rfl

variable {k r : ℕ} {bl : BatchLoop P} {v v' : LoopVars} {rows : List Row}

/-- A write that succeeds: what the commit will have applied is written or pending. -/
theorem Leads.write
    {res : Transformed} {items : List Item} (hitems : bl.itemsOf res.rows = .ok items) :
    ∃ db₁ ws₁, Leads w (db, ⟨.dispatch p snap (.loop k r bl (.write v rows res)) todo, []⟩)
        (db₁, ⟨.dispatch p snap (.loop k r bl (.advance v rows res.left items.length)) todo, ws₁⟩) ∧
      ∀ ws, db₁.commit (ws₁ ++ ws) = db.commit (items.map .upsert ++ ws) := by
  by_cases hnil : res.rows = []
  · rw [BatchLoop.itemsOf, if_pos hnil] at hitems
    obtain rfl := Except.ok.inj hitems
    refine ⟨db, [], Leads.loop ?_, fun ws => rfl⟩
    simp [loopStep, answerRead, answer, hnil]
  · rw [BatchLoop.itemsOf, if_neg hnil] at hitems
    cases htx : bl.transactional with
    | true =>
        refine ⟨db, items.map .upsert, Leads.loop ?_, fun ws => rfl⟩
        simp [loopStep, writeStep, answer, hnil, hitems, htx]
    | false =>
        refine ⟨db.applySink items, [], Leads.loop ?_, fun ws => ?_⟩
        · simp [loopStep, writeStep, answer, hnil, hitems, htx]
        · simp [Db.commit, Db.applySink, Store.commit_append, Store.commit_upserts]

/-- **A batch is six statements.** -/
theorem Leads.batch
    {items : List Item} {st : Store P}
    (h : bl.Batch db.store v rows items st v') (hpause : db.status p ≠ .PAUSE_REQUESTED) :
    Leads w (db, ⟨.dispatch p snap (.loop k r bl (.fetch v)) todo, []⟩)
      ({ db with store := st }, ⟨.dispatch p snap (.loop k r bl (.fetch v')) todo, []⟩) := by
  obtain ⟨hquery, hne, hres, hitems, hadvance⟩ := h
  rename_i res ws
  have hfetch : loopStep w (db, []) p k r bl (.fetch v) .ok =
      some ⟨db, [], .loop k r bl (.transform v rows)⟩ := by
    simp [loopStep, answerRead, answer, stageOf, hquery, hne]
  have htransform : loopStep w (db, []) p k r bl (.transform v rows) .ok =
      some ⟨db, [], .loop k r bl (.write v rows res)⟩ := by
    simp [loopStep, answerRead, answer, stageOf, hres]
  obtain ⟨db₁, ws₁, hwrite, hcommit⟩ : ∃ db₁ ws₁,
      Leads w (db, ⟨.dispatch p snap (.loop k r bl (.write v rows res)) todo, []⟩)
        (db₁, ⟨.dispatch p snap (.loop k r bl (.advance v rows res.left items.length)) todo, ws₁⟩) ∧
      ∀ ws, db₁.commit (ws₁ ++ ws) = db.commit (items.map .upsert ++ ws) :=
    Leads.write hitems
  have hadv : loopStep w (db₁, ws₁) p k r bl (.advance v rows res.left items.length) .ok =
      some ⟨db₁, ws₁ ++ ws, .loop k r bl (.commit v')⟩ := by
    simp [loopStep, answer, hadvance]
  have hdone : loopStep w (db₁, ws₁ ++ ws) p k r bl (.commit v') .ok =
      some ⟨{ db with store := db.store.commit (items.map .upsert ++ ws) }, [],
        .loop k r bl (.pauseRead v')⟩ := by
    simp only [loopStep, answerCommit, answer, hcommit]
    rfl
  have hgo : loopStep w ({ db with store := db.store.commit (items.map .upsert ++ ws) }, []) p k r
      bl (.pauseRead v') .ok =
      some ⟨{ db with store := db.store.commit (items.map .upsert ++ ws) }, [],
        .loop k r bl (.fetch v')⟩ := by
    have hstill : ({ db with store := db.store.commit (items.map .upsert ++ ws) } : Db P).status p ≠
        .PAUSE_REQUESTED := hpause
    simp only [loopStep, answerRead, answer]
    rw [if_neg hstill]
  exact (Leads.loop hfetch).trans ((Leads.loop htransform).trans (hwrite.trans
    ((Leads.loop hadv).trans ((Leads.loop hdone).trans (Leads.loop hgo)))))

/-- **A run of batches** ends before the writer is closed. -/
theorem Leads.exhausts
    {st : Store P} {batches : List (List Row)} {written : List (List Item)}
    (h : bl.Exhausts db.store v batches written st v') (hpause : db.status p ≠ .PAUSE_REQUESTED) :
    Leads w (db, ⟨.dispatch p snap (.loop k r bl (.fetch v)) todo, []⟩)
      ({ db with store := st },
        ⟨.dispatch p snap (.loop k r bl (.close .exhausted v')) todo, []⟩) := by
  -- by induction on the batches
  generalize hstore : db.store = st₀ at h
  induction h generalizing db with
  | done hquery =>
      subst hstore
      refine Leads.loop ?_
      simp [loopStep, answerRead, answer, stageOf, hquery]
  | @batch _ st₁ _ _ v₁ _ _ _ _ _ hbatch _ ih =>
      subst hstore
      exact (Leads.batch hbatch hpause).trans (ih hpause rfl)

end Leads

end EtlPlatform
