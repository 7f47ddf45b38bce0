import EtlPlatform.Library.CursorLoop
import EtlPlatform.Model.Deployment
import EtlPlatform.Model.Process
import EtlPlatform.Proofs.RowFeed

/-!
# Transforms and the checkpoint

An incremental run takes its next cursor from the last row of the list it read,
after a transform has had that list in its hands.  `BatchLoop.run` is the
sequence of batches an undisturbed attempt reads, each with the checkpoint it
commits; `loopSteps_pass` ties one round of it to the steps of the process.

Two runs of a pipeline with different transforms read the same batches and
commit the checkpoints of the reader's rows exactly when both transforms leave
each batch with the keys of its last row unchanged.  A transform that reorders
the list in place does not.
-/

namespace EtlPlatform

open Library

section Rounds

variable {P : Type}

/-- The items a round sends: none for no rows. -/
def BatchLoop.itemsOf (bl : BatchLoop P) (rows : List Row) : Except Exc (List Item) :=
  if rows = [] then .ok [] else bl.write rows

/-- What one round makes of the rows it read: the next loop variables and the checkpoint
writes, or the error that ends the attempt. -/
def BatchLoop.pass (bl : BatchLoop P) (v : LoopVars) (rows : List Row) :
    Except Exc (LoopVars × List (Write P)) := do
  let res ← bl.transform rows
  let items ← bl.itemsOf res.rows
  bl.advance v rows res.left items.length

/-- The first `n` rounds from round `i`: the batches read, each with the cursor committed
after it.  The source may be another one in every round. -/
def BatchLoop.rounds (bl : BatchLoop P) (st : Store P) (src : ℕ → Source) :
    (n i : ℕ) → LoopVars → List (List Row × Option Cursor)
  | 0, _, _ => []
  | n + 1, i, v =>
      match bl.query { st with source := src i } v with
      | .error _ => []
      | .ok rows =>
          if rows = [] then []
          else
            match bl.pass v rows with
            | .error _ => [(rows, none)]
            | .ok (v', _) => (rows, v'.cursor) :: bl.rounds st src n (i + 1) v'

/-- The first `n` rounds of an attempt that starts from the store `st`. -/
def BatchLoop.run (bl : BatchLoop P) (st : Store P) (src : ℕ → Source) (n : ℕ) :
    List (List Row × Option Cursor) :=
  match bl.setup st with
  | .error _ => []
  | .ok v => bl.rounds st src n 0 v

/-- The same loop with nothing between the reader and the checkpoint. -/
def BatchLoop.readerOnly (bl : BatchLoop P) : BatchLoop P :=
  { bl with
    transform := fun rows => .ok (NoOpTransformer rows)
    write := fun _ => .ok [] }

/-- Only the last row counts. -/
theorem tailCursor_congr
    {inc_key id_key : String} {rows rows' : List Row} (h : rows.getLast? = rows'.getLast?) :
    tailCursor inc_key id_key rows = tailCursor inc_key id_key rows' := by
  rw [tailCursor, tailCursor, h]

/-- The keys of the last row of a list, if it has a row whose keys can be a checkpoint. -/
def tailKeys (pl : PipelineSnapshot) (rows : List Row) : Option Cursor :=
  (tailCursor (incKey pl) (idKey pl) rows).toOption

/-- A round has transformed the rows, built its items and advanced. -/
theorem BatchLoop.pass_eq_ok
    {bl : BatchLoop P} {v v' : LoopVars} {rows : List Row} {ws : List (Write P)}
    (h : bl.pass v rows = .ok (v', ws)) :
    ∃ res items, bl.transform rows = .ok res ∧ bl.itemsOf res.rows = .ok items ∧
      bl.advance v rows res.left items.length = .ok (v', ws) := by
  obtain ⟨res, hres, items, hitems, hadv⟩ := by
    simpa only [BatchLoop.pass, bind_eq_ok_iff] using h
  exact ⟨res, items, hres, hitems, hadv⟩

/-! ## Rounds of an incremental loop -/

/-- The batch an incremental reader hands on: none if the query fails or returns no rows. -/
def readAt (C : Collation) (plan : IncrementalPlan) (src : ℕ → Source) (i : ℕ)
    (c : Option Cursor) : Option (List Row) :=
  match incrementalBatch C (src i) plan.base plan.inc_key plan.id_key c plan.limit with
  | .error _ => none
  | .ok rows => if rows = [] then none else some rows

/-- The checkpoint a round commits, if nothing in it raises. -/
def BatchLoop.commitOf (bl : BatchLoop P) (inc_key id_key : String) (rows : List Row) :
    Option Cursor :=
  match bl.transform rows with
  | .error _ => none
  | .ok res =>
      match bl.itemsOf res.rows with
      | .error _ => none
      | .ok _ => (tailCursor inc_key id_key res.left).toOption

/-- The loop reads and advances as an incremental run of the plan does. -/
structure BatchLoop.Follows (bl : BatchLoop P) (C : Collation) (p : P) (plan : IncrementalPlan) :
    Prop where
  setup : ∀ st, bl.setup st = (decodeState (st.etl_state p)).map LoopVars.initial
  query : ∀ st v, bl.query st v = incrementalBatch C st.source plan.base plan.inc_key plan.id_key
    v.cursor plan.limit
  advance : bl.advance = advanceIncremental plan.inc_key plan.id_key p

/-- A round that fails commits nothing. -/
theorem BatchLoop.Follows.commitOf_eq_none
    {bl : BatchLoop P} {C : Collation} {p : P} {plan : IncrementalPlan}
    (h : bl.Follows C p plan) {v : LoopVars} {rows : List Row} {exc : Exc}
    (hpass : bl.pass v rows = .error exc) :
    bl.commitOf plan.inc_key plan.id_key rows = none := by
  simp only [BatchLoop.pass, h.advance, advanceIncremental] at hpass
  simp only [BatchLoop.commitOf]
  cases hres : bl.transform rows with
  | error exc =>
      rfl
  | ok res =>
      cases hitems : bl.itemsOf res.rows with
      | error exc =>
          simp only [hitems]
      | ok items =>
          cases htail : tailCursor plan.inc_key plan.id_key res.left with
          | error exc =>
              simp only [hitems, htail]
              rfl
          | ok c =>
              simp only [hres, hitems, htail, bind, Except.bind] at hpass
              cases hpass

/-- A round that succeeds commits its cursor. -/
theorem BatchLoop.Follows.commitOf_eq_cursor
    {bl : BatchLoop P} {C : Collation} {p : P} {plan : IncrementalPlan}
    (h : bl.Follows C p plan) {v v' : LoopVars} {rows : List Row} {ws : List (Write P)}
    (hpass : bl.pass v rows = .ok (v', ws)) :
    v'.cursor = bl.commitOf plan.inc_key plan.id_key rows := by
  obtain ⟨res, items, hres, hitems, hadv⟩ := BatchLoop.pass_eq_ok hpass
  rw [h.advance] at hadv
  obtain ⟨c, htail, hcursor, -⟩ := IncrementalPlan.advanceIncremental_eq_ok hadv
  simp only [BatchLoop.commitOf, hres, hitems, htail, hcursor]
  rfl

theorem BatchLoop.Follows.cursor_ne_none
    {bl : BatchLoop P} {C : Collation} {p : P} {plan : IncrementalPlan}
    (h : bl.Follows C p plan) {v v' : LoopVars} {rows : List Row} {ws : List (Write P)}
    (hpass : bl.pass v rows = .ok (v', ws)) :
    v'.cursor ≠ none := by
  obtain ⟨res, items, -, -, hadv⟩ := BatchLoop.pass_eq_ok hpass
  rw [h.advance] at hadv
  obtain ⟨c, -, hcursor, -⟩ := IncrementalPlan.advanceIncremental_eq_ok hadv
  rw [hcursor]
  exact Option.some_ne_none c

/-- **The rounds of an incremental loop** are those of a loop at its cursor. -/
theorem BatchLoop.Follows.rounds_eq
    {bl : BatchLoop P} {C : Collation} {p : P} {plan : IncrementalPlan}
    (h : bl.Follows C p plan) (st : Store P) (src : ℕ → Source) (n i : ℕ) (v : LoopVars) :
    bl.rounds st src n i v =
      follow (readAt C plan src) (bl.commitOf plan.inc_key plan.id_key) n i v.cursor := by
  induction n generalizing i v with
  | zero =>
      rfl
  | succ n ih =>
      rw [BatchLoop.rounds, h.query, follow, readAt]
      cases incrementalBatch C (src i) plan.base plan.inc_key plan.id_key v.cursor plan.limit with
      | error exc =>
          rfl
      | ok rows =>
          by_cases hnil : rows = []
          · simp only [hnil, if_true]
          · simp only [hnil, if_false]
            cases hpass : bl.pass v rows with
            | error exc =>
                simp only [h.commitOf_eq_none hpass]
            | ok vw =>
                obtain ⟨v', ws⟩ := vw
                obtain ⟨c, hcursor⟩ := Option.ne_none_iff_exists'.mp (h.cursor_ne_none hpass)
                simp only [ih, ← h.commitOf_eq_cursor hpass, hcursor]

/-- The run starts at the stored checkpoint. -/
theorem BatchLoop.Follows.run_eq
    {bl : BatchLoop P} {C : Collation} {p : P} {plan : IncrementalPlan}
    (h : bl.Follows C p plan) {st : Store P} {c : Option Cursor}
    (hstate : decodeState (st.etl_state p) = .ok c) (src : ℕ → Source) (n : ℕ) :
    bl.run st src n =
      follow (readAt C plan src) (bl.commitOf plan.inc_key plan.id_key) n 0 c := by
  rw [BatchLoop.run, h.setup, hstate]
  exact h.rounds_eq st src n 0 (LoopVars.initial c)

/-- Nothing is read after a checkpoint that cannot be decoded. -/
theorem BatchLoop.Follows.run_of_error
    {bl : BatchLoop P} {C : Collation} {p : P} {plan : IncrementalPlan}
    (h : bl.Follows C p plan) {st : Store P} {exc : Exc}
    (hstate : decodeState (st.etl_state p) = .error exc) (src : ℕ → Source) (n : ℕ) :
    bl.run st src n = [] := by
  rw [BatchLoop.run, h.setup, hstate]
  rfl

theorem follows_withTransform
    (w : World) (p : P) (plan : IncrementalPlan) (tr : List Row → Except Exc Transformed) :
    ((plan.withTransform tr).loop w p).Follows w.collation p plan :=
  ⟨fun _ => rfl, fun _ _ => rfl, rfl⟩

/-- Without a transform the loop follows the same plan. -/
theorem BatchLoop.Follows.readerOnly
    {bl : BatchLoop P} {C : Collation} {p : P} {plan : IncrementalPlan}
    (h : bl.Follows C p plan) :
    bl.readerOnly.Follows C p plan :=
  ⟨h.setup, h.query, h.advance⟩

/-- With nothing in between, the checkpoint is the tail of the rows read. -/
theorem BatchLoop.readerOnly_commitOf
    (bl : BatchLoop P) (inc_key id_key : String) (rows : List Row) :
    bl.readerOnly.commitOf inc_key id_key rows = (tailCursor inc_key id_key rows).toOption := by
  by_cases hnil : rows = [] <;>
    simp [BatchLoop.commitOf, BatchLoop.readerOnly, BatchLoop.itemsOf, NoOpTransformer, hnil]

/-- Where the writer accepts its rows, a transform that raises nothing yields the tail of the
list it leaves. -/
theorem BatchLoop.commitOf_eq
    {bl : BatchLoop P} {t : TransformFn} {rows : List Row}
    (ht : bl.transform rows = .ok (t rows))
    (haccept : ∃ items, bl.itemsOf (t rows).rows = .ok items) (inc_key id_key : String) :
    bl.commitOf inc_key id_key rows = (tailCursor inc_key id_key (t rows).left).toOption := by
  obtain ⟨items, hitems⟩ := haccept
  simp only [BatchLoop.commitOf, ht, hitems]

variable [DecidableEq P]

/-- Run a loop on the answers `cs`. -/
def loopSteps (w : World) (p : P) (k r : ℕ) (bl : BatchLoop P) :
    After P → List Choice → Option (After P) :=
  exec (fun a c =>
    match a.stage with
    | .loop _ _ _ pc => loopStep w (a.db, a.pending) p k r bl pc c
    | _ => none)

/-- From the loop head to the write, when there are rows and the transform returns. -/
theorem loopSteps_read
    (w : World) {db : Db P} (p : P) (k r : ℕ) {bl : BatchLoop P} {v : LoopVars}
    {rows : List Row} {res : Transformed}
    (hquery : bl.query db.store v = .ok rows) (hne : rows ≠ [])
    (hres : bl.transform rows = .ok res) :
    loopSteps w p k r bl ⟨db, [], .loop k r bl (.fetch v)⟩ (List.replicate 2 .ok) =
      some ⟨db, [], .loop k r bl (.write v rows res)⟩ := by
  simp [loopSteps, exec, List.replicate, loopStep, answerRead, answer, stageOf, hquery, hne, hres]

/-- A write that succeeds changes neither the source nor a status. -/
theorem loopSteps_write
    (w : World) (db : Db P) (p : P) (k r : ℕ) {bl : BatchLoop P} (v : LoopVars)
    (rows : List Row) {res : Transformed} {items : List Item}
    (hitems : bl.itemsOf res.rows = .ok items) :
    ∃ db' pending, loopSteps w p k r bl ⟨db, [], .loop k r bl (.write v rows res)⟩ [.ok] =
        some ⟨db', pending, .loop k r bl (.advance v rows res.left items.length)⟩ ∧
      db'.store.source = db.store.source ∧ db'.status p = db.status p := by
  by_cases hnil : res.rows = []
  · rw [BatchLoop.itemsOf, if_pos hnil] at hitems
    obtain rfl := Except.ok.inj hitems
    refine ⟨db, [], ?_, rfl, rfl⟩
    simp [loopSteps, exec, loopStep, answerRead, answer, hnil]
  · rw [BatchLoop.itemsOf, if_neg hnil] at hitems
    cases htx : bl.transactional with
    | true =>
        refine ⟨db, items.map .upsert, ?_, rfl, rfl⟩
        simp [loopSteps, exec, loopStep, writeStep, answer, hnil, hitems, htx]
    | false =>
        refine ⟨db.applySink items, [], ?_, rfl, rfl⟩
        simp [loopSteps, exec, loopStep, writeStep, answer, hnil, hitems, htx]

/-- From the advance back to the loop head, when no pause is asked for. -/
theorem loopSteps_commit
    (w : World) {db : Db P} {p : P} (k r : ℕ) {n : ℕ} (pending : List (Write P))
    {ws : List (Write P)}
    {bl : BatchLoop P} {v v' : LoopVars} {rows left : List Row}
    (hadv : bl.advance v rows left n = .ok (v', ws))
    (hpause : db.status p ≠ .PAUSE_REQUESTED) :
    loopSteps w p k r bl ⟨db, pending, .loop k r bl (.advance v rows left n)⟩
        (List.replicate 3 .ok) =
      some ⟨db.commit (pending ++ ws), [], .loop k r bl (.fetch v')⟩ := by
  simp [loopSteps, exec, List.replicate, loopStep, answerRead, answerCommit, answer, hadv, hpause]

/-- **One round is six statements of the process**: when all of them succeed and no pause
is asked for, the loop is back at its head, and the cursor of its variables is committed. -/
theorem loopSteps_pass
    {w : World} {db : Db P} {p : P} {k r : ℕ} {plan : IncrementalPlan} {v v' : LoopVars}
    {rows : List Row} {ws : List (Write P)}
    (hquery : (plan.loop w p).query db.store v = .ok rows) (hne : rows ≠ [])
    (hpass : (plan.loop w p).pass v rows = .ok (v', ws))
    (hpause : db.status p ≠ .PAUSE_REQUESTED) :
    ∃ db' c, loopSteps w p k r (plan.loop w p) ⟨db, [], .loop k r (plan.loop w p) (.fetch v)⟩
        (List.replicate 6 .ok) = some ⟨db', [], .loop k r (plan.loop w p) (.fetch v')⟩ ∧
      v'.cursor = some c ∧ db'.store.etl_state p = some (encodeState c) ∧
      db'.store.source = db.store.source ∧ db'.status p = db.status p := by
  obtain ⟨res, items, hres, hitems, hadv⟩ := BatchLoop.pass_eq_ok hpass
  obtain ⟨c, -, hcursor, rfl⟩ := IncrementalPlan.advanceIncremental_eq_ok hadv
  obtain ⟨db₁, pending, hwrite, hsource, hstatus⟩ := loopSteps_write w db p k r v rows hitems
  have hread := loopSteps_read w p k r hquery hne hres
  have hcommit := loopSteps_commit w k r pending hadv (hstatus.symm ▸ hpause)
  have hround := exec_append hread (exec_append hwrite hcommit)
  refine ⟨_, c, hround, hcursor, ?_, ?_, hstatus⟩
  · simp only [Db.commit, Store.commit_append, Store.commit_state, Function.update_self]
  · exact (Store.commit_source _ _).trans hsource

/-- **The rounds are what the process does**: over a source that stays as it is, rounds that
all commit take the loop from its head to its head, with the last checkpoint stored. -/
theorem loopSteps_rounds
    {w : World} {db : Db P} {p : P} {k r n i : ℕ} {plan : IncrementalPlan} {v : LoopVars}
    {src : Source} (hsrc : db.store.source = src)
    (hpause : db.status p ≠ .PAUSE_REQUESTED)
    (hcommits : ∀ rows c,
      (rows, c) ∈ (plan.loop w p).rounds db.store (fun _ => src) n i v → c ≠ none) :
    ∃ db' v', loopSteps w p k r (plan.loop w p) ⟨db, [], .loop k r (plan.loop w p) (.fetch v)⟩
        (List.replicate (((plan.loop w p).rounds db.store (fun _ => src) n i v).length * 6) .ok) =
          some ⟨db', [], .loop k r (plan.loop w p) (.fetch v')⟩ ∧
      db'.store.etl_state p =
        (((plan.loop w p).rounds db.store (fun _ => src) n i v).getLast?.map
          (fun e => e.2.map encodeState)).getD (db.store.etl_state p) := by
  have hfol : (plan.loop w p).Follows w.collation p plan := ⟨fun _ => rfl, fun _ _ => rfl, rfl⟩
  induction n generalizing db i v with
  | zero =>
      exact ⟨db, v, rfl, rfl⟩
  | succ n ih =>
      have hstore : ({ db.store with source := src } : Store P) = db.store := by
        rw [← hsrc]
      rw [BatchLoop.rounds, hstore] at hcommits ⊢
      cases hquery : (plan.loop w p).query db.store v with
      | error exc =>
          exact ⟨db, v, rfl, rfl⟩
      | ok rows =>
          simp only [hquery] at hcommits ⊢
          by_cases hne : rows = []
          · rw [if_pos hne]
            exact ⟨db, v, rfl, rfl⟩
          rw [if_neg hne] at hcommits ⊢
          cases hpass : (plan.loop w p).pass v rows with
          | error exc =>
              rw [hpass] at hcommits
              exact absurd rfl (hcommits rows none List.mem_cons_self)
          | ok vw =>
              obtain ⟨v', ws⟩ := vw
              simp only [hpass] at hcommits ⊢
              obtain ⟨db₁, c, hround, hcursor, hstate, hsource, hstatus⟩ :=
                loopSteps_pass (k := k) (r := r) hquery hne hpass hpause
              -- the rest of the rounds does not see what this one has stored
              have hrest : (plan.loop w p).rounds db.store (fun _ => src) n (i + 1) v' =
                  (plan.loop w p).rounds db₁.store (fun _ => src) n (i + 1) v' := by
                rw [hfol.rounds_eq, hfol.rounds_eq]
              rw [hrest] at hcommits ⊢
              obtain ⟨db', v'', hrun, hlast⟩ := ih (hsource.trans hsrc) (hstatus ▸ hpause)
                (fun rows' c' hmem => hcommits rows' c' (List.mem_cons_of_mem _ hmem))
              refine ⟨db', v'', ?_, ?_⟩
              · rw [List.length_cons, Nat.add_mul, Nat.one_mul, Nat.add_comm, List.replicate_add]
                exact exec_append hround hrun
              · rw [hlast, List.getLast?_cons, hstate, hcursor]
                cases ((plan.loop w p).rounds db₁.store (fun _ => src) n (i + 1) v').getLast? <;> rfl

end Rounds

/-- A batch is what some query returned. -/
theorem BatchLoop.query_of_mem_rounds
    {bl : BatchLoop P} {st : Store P} {src : ℕ → Source} {n i : ℕ} {v : LoopVars}
    {rows : List Row} {c : Option Cursor}
    (h : (rows, c) ∈ bl.rounds st src n i v) :
    ∃ j v', bl.query { st with source := src j } v' = .ok rows := by
  induction n generalizing i v with
  | zero =>
      cases h
  | succ n ih =>
      rw [BatchLoop.rounds] at h
      cases hquery : bl.query { st with source := src i } v with
      | error exc =>
          rw [hquery] at h
          cases h
      | ok batch =>
          simp only [hquery] at h
          split_ifs at h
          · cases h
          cases hpass : bl.pass v batch with
          | error exc =>
              rw [hpass] at h
              obtain ⟨rfl, -⟩ := Prod.mk.inj (List.mem_singleton.mp h)
              exact ⟨i, v, hquery⟩
          | ok vw =>
              rw [hpass] at h
              rcases List.mem_cons.mp h with hhead | hrest
              · obtain ⟨rfl, -⟩ := Prod.mk.inj hhead
                exact ⟨i, v, hquery⟩
              · exact ih hrest

/-! ## Two runs -/

section TwoRuns

variable {P : Type}

/--
The two loops read the same batches and commit the same checkpoints, each the
keys of the last row the reader returned for its batch.
-/
def SameCheckpoints (pl : PipelineSnapshot) (bl₁ bl₂ : BatchLoop P) (st : Store P)
    (src : ℕ → Source) : Prop :=
  ∀ n, bl₁.run st src n = bl₂.run st src n ∧
    ∀ rows c, (rows, some c) ∈ bl₁.run st src n → tailKeys pl rows = some c

/--
On every batch of the run in which nothing stands between the reader and the
checkpoint, both transforms leave the list with the keys its last row had, up to
a batch, if any, after which neither leaves a last row with usable keys.
-/
def TailsKept (pl : PipelineSnapshot) (t₁ t₂ : TransformFn) (bl : BatchLoop P) (st : Store P)
    (src : ℕ → Source) : Prop :=
  ∀ n, Kept (fun rows => tailKeys pl (t₁ rows).left) (fun rows => tailKeys pl (t₂ rows).left)
    (bl.readerOnly.run st src n)

/-- In the run of the loop the writer accepts what `t` returns. -/
def Accepts (bl : BatchLoop P) (t : TransformFn) (st : Store P) (src : ℕ → Source) : Prop :=
  ∀ n rows c, (rows, c) ∈ bl.run st src n → ∃ items, bl.itemsOf (t rows).rows = .ok items

/-- A run in which nothing raises commits the tails of the lists its transform leaves. -/
theorem BatchLoop.Follows.run_eq_of_accepts
    {bl : BatchLoop P} {C : Collation} {p : P} {plan : IncrementalPlan}
    (h : bl.Follows C p plan) {st : Store P} {c : Option Cursor}
    (hstate : decodeState (st.etl_state p) = .ok c) {t : TransformFn} {src : ℕ → Source}
    (ht : ∀ rows, bl.transform rows = .ok (t rows)) (haccept : Accepts bl t st src) (n : ℕ) :
    bl.run st src n = follow (readAt C plan src)
      (fun rows => (tailCursor plan.inc_key plan.id_key (t rows).left).toOption) n 0 c := by
  have hrun := h.run_eq hstate src n
  rw [hrun]
  refine follow_congr fun rows c' hmem => ?_
  exact BatchLoop.commitOf_eq (ht rows) (haccept n rows c' (hrun ▸ hmem)) _ _

variable [DecidableEq P]

/--
**When transforms do not affect the checkpoint.**  Two runs of an incremental
pipeline, alike but for their transforms, read the same batches and commit the
checkpoints of the rows read if and only if both transforms keep the tails of
these batches.
-/
theorem checkpoints_isolated_iff
    {w : World} {m₁ m₂ : Modules} {p : P} {pl : PipelineSnapshot} {bl₁ bl₂ : BatchLoop P}
    {t₁ t₂ : TransformFn} {st : Store P} {src : ℕ → Source}
    (hmode : pl.mode = .incremental)
    (hruns₁ : _run_body { w with modules := m₁ } p pl = .ok bl₁)
    (hruns₂ : _run_body { w with modules := m₂ } p pl = .ok bl₂)
    (ht₁ : ∀ rows, bl₁.transform rows = .ok (t₁ rows))
    (ht₂ : ∀ rows, bl₂.transform rows = .ok (t₂ rows))
    (haccept₁ : Accepts bl₁ t₁ st src)
    (haccept₂ : Accepts bl₂ t₂ st src) :
    SameCheckpoints pl bl₁ bl₂ st src ↔ TailsKept pl t₁ t₂ bl₁ st src := by
  obtain ⟨plan, tr₁, tr₂, hinc, hid, hbl₁, hbl₂⟩ := exists_plans hruns₁ hruns₂ hmode
  have hfol₁ : bl₁.Follows w.collation p plan := hbl₁ ▸ follows_withTransform w p plan tr₁
  have hfol₂ : bl₂.Follows w.collation p plan := hbl₂ ▸ follows_withTransform w p plan tr₂
  refine forall_congr' fun n => ?_
  cases hstate : decodeState (st.etl_state p) with
  | error exc =>
      simp [hfol₁.run_of_error hstate, hfol₂.run_of_error hstate,
        hfol₁.readerOnly.run_of_error hstate, Kept]
  | ok c =>
      have hrun₁ := hfol₁.run_eq_of_accepts hstate ht₁ haccept₁ n
      have hrun₂ := hfol₂.run_eq_of_accepts hstate ht₂ haccept₂ n
      have hread := hfol₁.readerOnly.run_eq hstate src n
      have hcommit := funext (BatchLoop.readerOnly_commitOf bl₁ plan.inc_key plan.id_key)
      rw [hcommit] at hread
      rw [hrun₁, hrun₂, hread, hinc, hid]
      exact follow_eq_and_prescribed_iff _ _ _ _ n 0 c

/-- Transforms that leave the last row of a list alone keep the tails. -/
theorem tailsKept_of_getLast?_eq
    {w : World} {p : P} {pl : PipelineSnapshot} {bl : BatchLoop P} {t₁ t₂ : TransformFn}
    (hmode : pl.mode = .incremental) (hruns : _run_body w p pl = .ok bl)
    (ht₁ : ∀ rows, (t₁ rows).left.getLast? = rows.getLast?)
    (ht₂ : ∀ rows, (t₂ rows).left.getLast? = rows.getLast?)
    (st : Store P) (src : ℕ → Source) :
    TailsKept pl t₁ t₂ bl st src := by
  obtain ⟨plan, tr, -, hinc, hid, hbl, -⟩ := exists_plans hruns hruns hmode
  have hfol : bl.Follows w.collation p plan := hbl ▸ follows_withTransform w p plan tr
  intro n
  cases hstate : decodeState (st.etl_state p) with
  | error exc =>
      rw [hfol.readerOnly.run_of_error hstate]
      trivial
  | ok c =>
      rw [hfol.readerOnly.run_eq hstate]
      refine kept_of_eq (fun rows => ?_) (fun rows => ?_) n 0 c
      · rw [BatchLoop.readerOnly_commitOf, hinc, hid, tailKeys, tailCursor_congr (ht₁ rows)]
      · rw [BatchLoop.readerOnly_commitOf, hinc, hid, tailKeys, tailCursor_congr (ht₂ rows)]

end TwoRuns

/-! ## A list reversed in place -/

section ReverseInPlace

/-- `rows.reverse(); return rows` -/
def reverseInPlace : TransformFn :=
  fun rows => { rows := rows.reverse, left := rows.reverse }

/-- `del rows[:-1]; return rows` -/
def keepLastInPlace : TransformFn :=
  fun rows => { rows := rows.getLast?.toList, left := rows.getLast?.toList }

/-- The film pipeline with a Python transform. -/
def filmPython : PipelineSnapshot :=
  { snapshot_pipeline (filmPipeline .incremental 2 .RUN_REQUESTED) with
    type := .PYTHON
    python_module := some "demo" }

/-- A world whose modules all hold the transform `t`. -/
def World.holding (t : TransformFn) : World :=
  { World.plain with modules := fun _ => .ok t }

/-- Two films, two days apart. -/
def twoFilms : List Row :=
  [filmExample, filmRow "f2" "Brazil" (january 3 (by decide))]

/-- Two films, no checkpoint. -/
def filmStore : Store Unit where
  source := filmSource twoFilms
  etl_state _ := none
  sink _ := none

/-- The film pipeline runs its own query and the transform `t`. -/
theorem filmPython_loop
    {t : TransformFn} {bl : BatchLoop Unit}
    (h : _run_body (World.holding t) () filmPython = .ok bl) :
    bl = (sqlPlan filmPython (fun rows => .ok (t rows))).loop (World.holding t) () := by
  rw [run_body_of_no_tasks _ () rfl rfl] at h
  obtain ⟨tr, htr, rfl⟩ := run_sql_incremental_pipeline_eq_ok h
  have hresolve : resolve_transformer filmPython = .ok (.pythonCallable "demo") := by
    decide +kernel
  obtain rfl : tr = .pythonCallable "demo" := Except.ok.inj (htr.symm.trans hresolve)
  rfl

theorem filmPython_transform
    {t : TransformFn} {bl : BatchLoop Unit}
    (h : _run_body (World.holding t) () filmPython = .ok bl) (rows : List Row) :
    bl.transform rows = .ok (t rows) := by
  rw [filmPython_loop h]
  rfl

/-- The writer accepts what a transform returns that invents no rows. -/
theorem filmPython_accepts
    {t : TransformFn} {bl : BatchLoop Unit}
    (h : _run_body (World.holding t) () filmPython = .ok bl)
    (hsub : ∀ rows, (t rows).rows ⊆ rows) :
    Accepts bl t filmStore (fun _ => filmSource twoFilms) := by
  obtain rfl := filmPython_loop h
  intro n rows c hmem
  have hrows : rows ⊆ twoFilms := by
    obtain ⟨j, v, hquery⟩ := BatchLoop.query_of_mem_rounds hmem
    obtain ⟨table, htable, rfl⟩ := incrementalBatch_eq_ok hquery
    have hbase : baseQuery (filmPython.source_query.getD "") = filmQuery := by decide +kernel
    obtain rfl : twoFilms = table := by
      rw [sqlPlan, hbase] at htable
      exact Except.ok.inj htable
    exact fun r hr => (mem_page _ hr).1
  have hitem : ∀ r ∈ twoFilms,
      ∃ item, PostgresWriter.item storeAsGiven "analytics.film_dim" r = .ok item := by
    simp only [twoFilms, List.forall_mem_cons]
    exact ⟨⟨_, rfl⟩, ⟨_, rfl⟩, by simp⟩
  have hwriter : resolve_writer filmPython.target_table = .postgres := by decide +kernel
  have hstrip : PyText.strip filmPython.target_table = "analytics.film_dim" := by decide +kernel
  have hallowed : is_allowed_target "analytics.film_dim" = true := by decide +kernel
  by_cases hnil : (t rows).rows = []
  · exact ⟨[], if_pos hnil⟩
  · obtain ⟨items, hitems⟩ := exists_mapM_eq_ok (fun r hr => hitem r (hrows (hsub rows hr)))
    refine ⟨items, ?_⟩
    rw [BatchLoop.itemsOf, if_neg hnil]
    have hsent := (mapM_bind_mapM_eq_ok_iff (f := PostgresWriter.payload "analytics.film_dim")
      (g := PostgresWriter.upsert storeAsGiven "analytics.film_dim")).mpr hitems
    simpa [IncrementalPlan.loop, sqlPlan, hwriter, Writer.write, PostgresWriter.write, hnil, hstrip,
      hallowed, World.holding, World.plain] using hsent

/-- The first round of the film pipeline, as a loop that exists. -/
theorem exists_run_filmPython
    {t : TransformFn} {trace : List (List Row × Option Cursor)}
    (h : (_run_body (World.holding t) () filmPython).map
      (fun bl : BatchLoop Unit => bl.run filmStore (fun _ => filmSource twoFilms) 1) = .ok trace) :
    ∃ bl : BatchLoop Unit, _run_body (World.holding t) () filmPython = .ok bl ∧
      bl.run filmStore (fun _ => filmSource twoFilms) 1 = trace := by
  exact map_eq_ok_iff.mp h

/-- The loop of a film pipeline whose transform does nothing. -/
theorem exists_run_noOp :
    ∃ bl : BatchLoop Unit,
      _run_body (World.holding NoOpTransformer) () filmPython = .ok bl ∧
        bl.run filmStore (fun _ => filmSource twoFilms) 1 =
          [(twoFilms, some ⟨january 3 (by decide), "f2"⟩)] :=
  exists_run_filmPython (by decide +kernel)

/-- Deleting all rows but the last one leaves the checkpoints as they are. -/
theorem checkpoints_isolated_keep_last :
    ∃ bl₁ bl₂ : BatchLoop Unit,
      _run_body (World.holding NoOpTransformer) () filmPython = .ok bl₁ ∧
      _run_body (World.holding keepLastInPlace) () filmPython = .ok bl₂ ∧
      bl₁.run filmStore (fun _ => filmSource twoFilms) 1 =
        [(twoFilms, some ⟨january 3 (by decide), "f2"⟩)] ∧
      SameCheckpoints filmPython bl₁ bl₂ filmStore (fun _ => filmSource twoFilms) := by
  obtain ⟨bl₁, hruns₁, htrace₁⟩ := exists_run_noOp
  have hrun₂ : ∃ bl : BatchLoop Unit,
      _run_body (World.holding keepLastInPlace) () filmPython = .ok bl ∧
        bl.run filmStore (fun _ => filmSource twoFilms) 1 =
          [(twoFilms, some ⟨january 3 (by decide), "f2"⟩)] :=
    exists_run_filmPython (by decide +kernel)
  obtain ⟨bl₂, hruns₂, -⟩ := hrun₂
  have hlast : ∀ rows : List Row, rows.getLast?.toList.getLast? = rows.getLast? := by
    intro rows
    cases rows.getLast? <;> rfl
  refine ⟨bl₁, bl₂, hruns₁, hruns₂, htrace₁, (checkpoints_isolated_iff (w := World.plain) rfl hruns₁ hruns₂
    (filmPython_transform hruns₁) (filmPython_transform hruns₂)
    (filmPython_accepts hruns₁ fun _ => List.Subset.refl _)
    (filmPython_accepts hruns₂ fun rows r hr => List.mem_of_getLast? (Option.mem_toList.mp hr))).mpr
    (tailsKept_of_getLast?_eq rfl hruns₁ (fun _ => rfl) hlast _ _)⟩

/-- **A transform that reverses its list in place** moves the checkpoint to the first row of
the batch. -/
theorem checkpoint_moved_by_reverse_in_place :
    ¬ ∀ (w : World) (m₁ m₂ : Modules) (p : Unit) (pl : PipelineSnapshot)
        (bl₁ bl₂ : BatchLoop Unit) (t₁ t₂ : TransformFn) (st : Store Unit) (src : ℕ → Source),
      pl.mode = .incremental →
      _run_body { w with modules := m₁ } p pl = .ok bl₁ →
      _run_body { w with modules := m₂ } p pl = .ok bl₂ →
      (∀ rows, bl₁.transform rows = .ok (t₁ rows)) →
      (∀ rows, bl₂.transform rows = .ok (t₂ rows)) →
      Accepts bl₁ t₁ st src → Accepts bl₂ t₂ st src →
      SameCheckpoints pl bl₁ bl₂ st src := by
  intro hclaim
  have hrun₂ : ∃ bl : BatchLoop Unit,
      _run_body (World.holding reverseInPlace) () filmPython = .ok bl ∧
      bl.run filmStore (fun _ => filmSource twoFilms) 1 =
        [(twoFilms, some ⟨january 1 (by decide), "f1"⟩)] :=
    exists_run_filmPython (by decide +kernel)
  obtain ⟨bl₁, hruns₁, htrace₁⟩ := exists_run_noOp
  obtain ⟨bl₂, hruns₂, htrace₂⟩ := hrun₂
  have hsame := hclaim World.plain _ _ () filmPython bl₁ bl₂ NoOpTransformer reverseInPlace
    filmStore (fun _ => filmSource twoFilms) rfl hruns₁ hruns₂ (filmPython_transform hruns₁)
    (filmPython_transform hruns₂) (filmPython_accepts hruns₁ fun _ => List.Subset.refl _)
    (filmPython_accepts hruns₂ fun _ => List.reverse_subset.mpr (List.Subset.refl _))
  have htrace := (hsame 1).1
  rw [htrace₁, htrace₂] at htrace
  revert htrace
  decide

end ReverseInPlace

end EtlPlatform
