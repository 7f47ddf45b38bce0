import EtlPlatform.Library.OwedWrites
import EtlPlatform.Proofs.BatchRule
import EtlPlatform.Proofs.ServedTick

/-!
# Interrupted runs converge

A run that is interrupted leaves a part of its work in the tables: whole batches
with their checkpoint, and of a batch that was under way, possibly a part of its
items.  The next run takes up the work at the checkpoint, or from the beginning.
Whatever has happened before, the first run that comes to its end leaves the
tables as one run would have left them that had met no trouble at all.
-/

namespace EtlPlatform

open Library

/-! ## The work of a pipeline -/

section Work

variable {P : Type} [DecidableEq P]

/-- What is assigned when the items are written, page by page. -/
def assignments (written : List (List Item)) : List (Cell × Datum) :=
  written.flatten.flatten

theorem assignments_append
    (written written' : List (List Item)) :
    assignments (written ++ written') = assignments written ++ assignments written' := by
  simp [assignments]

theorem mem_touched_assignments
    {written : List (List Item)} {items : List Item} {item : Item} {cell : Cell}
    (hitems : items ∈ written) (hitem : item ∈ items) (hcell : cell ∈ touched item) :
    cell ∈ touched (assignments written) := by
  obtain ⟨a, ha, rfl⟩ := List.mem_map.mp hcell
  refine List.mem_map_of_mem (List.mem_flatten.mpr ⟨item, ?_, ha⟩)
  exact List.mem_flatten.mpr ⟨items, hitems, hitem⟩

/-- No other pipeline has work on the cell. -/
def OwnCell (work : P → List (List Item)) (p : P) (cell : Cell) : Prop :=
  ∀ q, q ≠ p → cell ∉ touched (assignments (work q))

/--
The work of the platform from `db₀` on: `work p` is what a run of `p` writes
that meets no trouble, and `left p` are the rows its loop has before it.
-/
structure Workload (w : World) (db₀ : Db P) (work : P → List (List Item))
    (left : P → LoopVars → List Row) : Prop where
  reads : ∀ p bl, _run_body w p (db₀.config p) = .ok bl → bl.ReadsDue w db₀ p (left p)
  writes : ∀ p bl, _run_body w p (db₀.config p) = .ok bl → Writes w db₀ p bl (work p)
  decodes : ∀ p bl, _run_body w p (db₀.config p) = .ok bl → db₀.Decodes p db₀.store

variable (w : World) (db₀ : Db P) (work : P → List (List Item)) (left : P → LoopVars → List Row)

/-- While `rows` are left to read, `done` is the part of the work that is done and `rest` the
part that is owed. -/
structure Parted (p : P) (bl : BatchLoop P) (rows : List Row) (st : Store P)
    (done rest : List (List Item)) : Prop where
  split : work p = done ++ rest
  writes : (pages (batchSizeOr (db₀.config p).batch_size) rows).mapM bl.items = .ok rest
  owes : Owes db₀.store.sink (OwnCell work p) (assignments done) (assignments rest) st.sink
  mark : ((db₀.config p).mark rows).or (st.etl_state p) =
    ((db₀.config p).mark (db₀.due w p)).or (db₀.store.etl_state p)

/-- The rows a run of `p` would have before it with these tables. -/
def dueIn (st : Store P) (p : P) : List Row :=
  ({ db₀ with store := st } : Db P).due w p

/-- The next run of `p` will do what is owed. -/
def CatchesUp (p : P) (st : Store P) : Prop :=
  ∀ bl, _run_body w p (db₀.config p) = .ok bl →
    db₀.Decodes p st ∧ ∃ done rest, Parted w db₀ work p bl (dueIn w db₀ st p) st done rest

/-- So will the run that stands at `v`, and were it interrupted here, the next one. -/
structure Standing (p : P) (bl : BatchLoop P) (v : LoopVars) (st : Store P) : Prop where
  decodes : db₀.Decodes p st
  due : dueIn w db₀ st p = left p v ∨
    (∀ rows, (db₀.config p).mark rows = none) ∧ dueIn w db₀ st p = db₀.due w p
  parted : ∃ done rest, Parted w db₀ work p bl (left p v) st done rest

/-- All runs will do what is owed. -/
def AllCatchUp (st : Store P) : Prop :=
  st.source = db₀.store.source ∧ ∀ p, CatchesUp w db₀ work p st

variable {w db₀ work left} {p q : P} {bl : BatchLoop P} {st st' : Store P} {v v' : LoopVars}
variable {items part : List Item} {done rest : List (List Item)} {rows : List Row}

/-- At the beginning all work is owed. -/
theorem Workload.catchesUp
    (h : Workload w db₀ work left) :
    AllCatchUp w db₀ work db₀.store := by
  refine ⟨rfl, fun p bl hbl => ⟨h.decodes p bl hbl, [], work p, rfl, h.writes p bl hbl, ?_, rfl⟩⟩
  exact owes_start _ _ _

/-- An interrupted run leaves what the next one needs. -/
theorem Standing.catchesUp
    (h : Standing w db₀ work left p bl v st) (hload : Workload w db₀ work left)
    (hbl : _run_body w p (db₀.config p) = .ok bl) :
    CatchesUp w db₀ work p st := by
  intro bl' hbl'
  obtain rfl : bl = bl' := Except.ok.inj (hbl.symm.trans hbl')
  refine ⟨h.decodes, ?_⟩
  obtain ⟨done, rest, hparted⟩ := h.parted
  rcases h.due with hdue | ⟨hnone, hdue⟩
  · rw [hdue]
    exact ⟨done, rest, hparted⟩
  · -- a full run writes everything again
    rw [hdue]
    refine ⟨[], work p, rfl, hload.writes p bl hbl, ?_, ?_⟩
    · have howes := hparted.owes.restart
      rw [← assignments_append, ← hparted.split] at howes
      exact howes
    · have hmark := hparted.mark
      rw [hnone, hnone] at hmark
      rw [hnone]
      exact hmark

omit [DecidableEq P] in
/-- The page that is read next is the first of what is owed. -/
theorem Parted.next
    (h : Parted w db₀ work p bl rows st done rest) (hne : rows ≠ [])
    (hitems : bl.items (rows.take (batchSizeOr (db₀.config p).batch_size)) = .ok items) :
    ∃ rest', rest = items :: rest' ∧
      (pages (batchSizeOr (db₀.config p).batch_size)
        (rows.drop (batchSizeOr (db₀.config p).batch_size))).mapM bl.items = .ok rest' := by
  have hwrites := h.writes
  rw [pages_of_ne_nil (batchSizeOr_pos _) hne, mapM_cons_eq_ok_iff] at hwrites
  obtain ⟨items', hitems', rest', hrest', rfl⟩ := hwrites
  obtain rfl := Except.ok.inj (hitems.symm.trans hitems')
  exact ⟨rest', rfl, hrest'⟩

/-- The other runs do not notice what is written for `p`. -/
theorem CatchesUp.elsewhere
    (h : CatchesUp w db₀ work q st) (hq : q ≠ p) (hsource : st'.source = st.source)
    (hstate : st'.etl_state q = st.etl_state q) (hsink : st'.sink = applyItems st.sink part)
    (hpart : ∀ item ∈ part, ∀ cell ∈ touched item, cell ∈ touched (assignments (work p))) :
    CatchesUp w db₀ work q st' := by
  intro bl hbl
  obtain ⟨hdec, done, rest, hparted⟩ := h bl hbl
  have hdue : dueIn w db₀ st' q = dueIn w db₀ st q := by
    simp only [dueIn, Db.due, Db.config, hsource, hstate]
  refine ⟨fun hmode => ?_, done, rest, hparted.split, ?_, ?_, ?_⟩
  · rw [hstate]
    exact hdec hmode
  · rw [hdue]
    exact hparted.writes
  · rw [hsink]
    refine hparted.owes.elsewhere fun cell hcell hown => ?_
    obtain ⟨a, ha, rfl⟩ := List.mem_map.mp hcell
    obtain ⟨item, hitem, hmem⟩ := List.mem_flatten.mp ha
    exact hown p (Ne.symm hq) (hpart item hitem _ (List.mem_map_of_mem hmem))
  · rw [hdue, hstate]
    exact hparted.mark

omit [DecidableEq P] in
/-- The items of the page that is read next belong to the work. -/
theorem Standing.page_subset
    (h : Standing w db₀ work left p bl v st) (hne : left p v ≠ [])
    (hitems : bl.items ((left p v).take (batchSizeOr (db₀.config p).batch_size)) = .ok items)
    (hpart : part ⊆ items) :
    ∀ item ∈ part, ∀ cell ∈ touched item, cell ∈ touched (assignments (work p)) := by
  obtain ⟨done, rest, hparted⟩ := h.parted
  obtain ⟨rest', rfl, -⟩ := hparted.next hne hitems
  intro item hitem cell hcell
  refine mem_touched_assignments ?_ (hpart hitem) hcell
  rw [hparted.split]
  exact List.mem_append_right _ List.mem_cons_self

/-- **A request that fails half way** leaves a part of the page in the sink. -/
theorem Standing.interrupted
    (h : Standing w db₀ work left p bl v st) (hload : Workload w db₀ work left)
    (hall : AllCatchUp w db₀ work st) (hbl : _run_body w p (db₀.config p) = .ok bl)
    (hne : left p v ≠ [])
    (hitems : bl.items ((left p v).take (batchSizeOr (db₀.config p).batch_size)) = .ok items)
    (hpart : part ⊆ items) :
    AllCatchUp w db₀ work { st with sink := applyItems st.sink part } := by
  refine ⟨hall.1, fun q => ?_⟩
  by_cases hq : q = p
  · subst hq
    refine Standing.catchesUp (v := v) ⟨h.decodes, h.due, ?_⟩ hload hbl
    obtain ⟨done, rest, hparted⟩ := h.parted
    refine ⟨done, rest, hparted.split, hparted.writes, ?_, hparted.mark⟩
    refine hparted.owes.partly fun cell hcell => ?_
    obtain ⟨rest', rfl, -⟩ := hparted.next hne hitems
    obtain ⟨a, ha, rfl⟩ := List.mem_map.mp hcell
    obtain ⟨item, hitem, hmem⟩ := List.mem_flatten.mp ha
    exact mem_touched_assignments List.mem_cons_self (hpart hitem) (List.mem_map_of_mem hmem)
  · exact (hall.2 q).elsewhere hq rfl rfl rfl (h.page_subset hne hitems hpart)

/-- **A committed batch** leaves less to do. -/
theorem Standing.delivered
    (h : Standing w db₀ work left p bl v st) (hload : Workload w db₀ work left)
    (hall : AllCatchUp w db₀ work st) (hbl : _run_body w p (db₀.config p) = .ok bl)
    (hne : left p v ≠ [])
    (hitems : bl.items ((left p v).take (batchSizeOr (db₀.config p).batch_size)) = .ok items)
    (hleft : left p v' = (left p v).drop (batchSizeOr (db₀.config p).batch_size)) :
    AllCatchUp w db₀ work (st.delivered p items
        ((db₀.config p).mark ((left p v).take (batchSizeOr (db₀.config p).batch_size)))) ∧
      Standing w db₀ work left p bl v' (st.delivered p items
        ((db₀.config p).mark ((left p v).take (batchSizeOr (db₀.config p).batch_size)))) := by
  set page := (left p v).take (batchSizeOr (db₀.config p).batch_size) with hpage
  have hreads := hload.reads p bl hbl
  have hstate : (st.delivered p items ((db₀.config p).mark page)).etl_state p =
      ((db₀.config p).mark page).or (st.etl_state p) := by
    cases hmark : (db₀.config p).mark page with
    | none =>
        rfl
    | some e =>
        exact Function.update_self _ _ _
  have hstanding : Standing w db₀ work left p bl v'
      (st.delivered p items ((db₀.config p).mark page)) := by
    have hsource : (st.delivered p items ((db₀.config p).mark page)).source = db₀.store.source :=
      hall.1
    obtain ⟨hdec, hdue⟩ := hreads.resumes hsource hne (fun e he => by rw [hstate, he]; rfl)
    refine ⟨hdec, ?_, ?_⟩
    · rw [hleft]
      exact hdue
    · obtain ⟨done, rest, hparted⟩ := h.parted
      obtain ⟨rest', rfl, hrest'⟩ := hparted.next hne hitems
      refine ⟨done ++ [items], rest', ?_, ?_, ?_, ?_⟩
      · rw [hparted.split, List.append_assoc, List.singleton_append]
      · rw [hleft]
        exact hrest'
      · have hcons : assignments (items :: rest') = items.flatten ++ assignments rest' := by
          simp [assignments]
        have hone : assignments [items] = items.flatten := by
          simp [assignments]
        have howes := hparted.owes
        rw [hcons] at howes
        rw [assignments_append, hone]
        exact howes.forward
      · rw [hleft, hstate, ← Option.or_assoc, ← hreads.pages.mark_page hne]
        exact hparted.mark
  refine ⟨⟨hall.1, fun q => ?_⟩, hstanding⟩
  by_cases hq : q = p
  · subst hq
    exact hstanding.catchesUp hload hbl
  · refine (hall.2 q).elsewhere hq rfl ?_ rfl (h.page_subset hne hitems (List.Subset.refl items))
    simp only [Store.delivered]
    cases (db₀.config p).mark page with
    | none =>
        rfl
    | some e =>
        exact Function.update_of_ne hq _ _

end Work

/-! ## The rule for the batch loops -/

section Rule

variable {P : Type} [DecidableEq P] {w : World} {db₀ : Db P} {work : P → List (List Item)}
variable {left : P → LoopVars → List Row}

variable (w db₀ work left) in
/-- The loop `bl` of `p` holds the page that is read at `v`, transformed to `res`, and the tables
are `st`. -/
structure HoldsPage (p : P) (bl : BatchLoop P) (v : LoopVars) (rows : List Row) (st : Store P) :
    Prop where
  runs : _run_body w p (db₀.config p) = .ok bl
  standing : Standing w db₀ work left p bl v st
  nonempty : left p v ≠ []
  page : rows = (left p v).take (batchSizeOr (db₀.config p).batch_size)

variable (w db₀ work left) in
/-- What the loop of `p` has in hand at each of its await points. -/
def InHand (p : P) (st : Store P) (ws : List (Write P)) : LoopPc → Prop
  | .fetch v => ∃ bl, _run_body w p (db₀.config p) = .ok bl ∧ Standing w db₀ work left p bl v st
  | .transform v rows => ∃ bl, HoldsPage w db₀ work left p bl v rows st
  | .write v rows res =>
      ∃ bl, HoldsPage w db₀ work left p bl v rows st ∧ bl.transform rows = .ok res
  | .advance v rows remains _ =>
      -- the items are in the session or in the sink: committed, they are in the sink
      ∃ bl st₁ res items, HoldsPage w db₀ work left p bl v rows st₁ ∧
        AllCatchUp w db₀ work st₁ ∧ bl.transform rows = .ok res ∧ res.left = remains ∧
        bl.items rows = .ok items ∧ st.commit ws = { st₁ with sink := applyItems st₁.sink items }
  | .commit v =>
      AllCatchUp w db₀ work (st.commit ws) ∧ ∃ bl, _run_body w p (db₀.config p) = .ok bl ∧
        Standing w db₀ work left p bl v (st.commit ws)
  | _ => False

variable {p : P} {bl : BatchLoop P} {st : Store P} {v : LoopVars} {rows : List Row}
variable {res : Transformed} {items : List Item}

omit [DecidableEq P] in
theorem items_of_write
    (hres : bl.transform rows = .ok res) (hne : res.rows ≠ [])
    (hwrite : bl.write res.rows = .ok items) :
    bl.items rows = .ok items := by
  refine bind_eq_ok_iff.mpr ⟨res, hres, ?_⟩
  rw [BatchLoop.itemsOf, if_neg hne]
  exact hwrite

omit [DecidableEq P] in
theorem items_of_nil
    (hres : bl.transform rows = .ok res) (hnil : res.rows = []) :
    bl.items rows = .ok [] := by
  refine bind_eq_ok_iff.mpr ⟨res, hres, ?_⟩
  rw [BatchLoop.itemsOf, if_pos hnil]

/-- **Every statement of a batch leaves what the next run needs.** -/
def catchingUp (hload : Workload w db₀ work left) :
    BatchInvariant (fun p bl => _run_body w p (db₀.config p) = .ok bl) (fun _ _ => False) where
  idle st := AllCatchUp w db₀ work st
  holds p st ws pc := AllCatchUp w db₀ work st ∧ InHand w db₀ work left p st ws pc
  idle_of_holds _ _ _ _ h := h.1
  idle_source _ _ _ h := h.elim
  holds_source _ _ _ _ _ _ h := h.elim
  setup := by
    rintro p bl st v hbl hall hsetup
    obtain ⟨hdec, hparted⟩ := hall.2 p bl hbl
    obtain ⟨v', hsetup', hdue, -, -⟩ := (hload.reads p bl hbl).starts hall.1 hdec
    obtain rfl := Except.ok.inj (hsetup.symm.trans hsetup')
    refine ⟨hall, bl, hbl, hdec, Or.inl hdue.symm, ?_⟩
    rw [hdue]
    exact hparted
  query := by
    rintro p bl st v rows hbl ⟨hall, bl', hbl', hstanding⟩ hquery hne
    obtain rfl := Except.ok.inj (hbl.symm.trans hbl')
    rw [(hload.reads p bl hbl).pages.query v hall.1] at hquery
    obtain rfl := Except.ok.inj hquery
    refine ⟨hall, bl, hbl, hstanding, fun hnil => hne ?_, rfl⟩
    rw [hnil, List.take_nil]
  transform := by
    rintro p bl st v rows res hbl ⟨hall, bl', hholds⟩ hres
    obtain rfl := Except.ok.inj (hbl.symm.trans hholds.runs)
    exact ⟨hall, bl, hholds, hres⟩
  skip := by
    rintro p st v rows res ⟨hall, bl, hholds, hres⟩ hnil
    exact ⟨hall, bl, st, res, [], hholds, hall, hres, rfl, items_of_nil hres hnil, rfl⟩
  session := by
    rintro p bl st v rows res items hbl ⟨hall, bl', hholds, hres⟩ hne hwrite -
    obtain rfl := Except.ok.inj (hbl.symm.trans hholds.runs)
    exact ⟨hall, bl, st, res, items, hholds, hall, hres, rfl, items_of_write hres hne hwrite,
      Store.commit_upserts st items⟩
  direct := by
    rintro p bl st v rows res items hbl ⟨hall, bl', hholds, hres⟩ hne hwrite -
    obtain rfl := Except.ok.inj (hbl.symm.trans hholds.runs)
    have hitems := items_of_write hres hne hwrite
    refine ⟨?_, bl, st, res, items, hholds, hall, hres, rfl, hitems, rfl⟩
    exact hholds.standing.interrupted hload hall hbl hholds.nonempty (hholds.page ▸ hitems)
      (List.Subset.refl items)
  interrupted := by
    rintro p bl st v rows res items part hbl ⟨hall, bl', hholds, hres⟩ hne hwrite - hpart
    obtain rfl := Except.ok.inj (hbl.symm.trans hholds.runs)
    have hitems := items_of_write hres hne hwrite
    exact hholds.standing.interrupted hload hall hbl hholds.nonempty (hholds.page ▸ hitems)
      hpart.subset
  advance := by
    rintro p bl st ws v v' rows remains n ws' hbl
      ⟨hall, bl', st₁, res, items, hholds, hall₁, hres, rfl, hitems, hcommit⟩ hadv
    obtain rfl := Except.ok.inj (hbl.symm.trans hholds.runs)
    obtain ⟨-, hstanding, hne, rfl⟩ := hholds
    obtain ⟨v'', hadv', hleft, -, -⟩ := (hload.reads p bl hbl).pages.advances n hne hres
    obtain ⟨rfl, rfl⟩ := Prod.mk.inj (Except.ok.inj (hadv.symm.trans hadv'))
    have hdelivered := hstanding.delivered hload hall₁ hbl hne hitems hleft
    have hstore : st.commit (ws ++ ((db₀.config p).mark ((left p v).take
        (batchSizeOr (db₀.config p).batch_size))).toList.map (.state p)) =
        st₁.delivered p items ((db₀.config p).mark ((left p v).take
          (batchSizeOr (db₀.config p).batch_size))) := by
      rw [Store.commit_append, hcommit, ← Store.commit_upserts, ← Store.commit_append,
        Store.commit_delivered]
    refine ⟨hall, ?_, bl, hbl, ?_⟩
    · rw [hstore]
      exact hdelivered.1
    · rw [hstore]
      exact hdelivered.2
  commit := by
    rintro p st ws v ⟨-, hall, bl, hbl, hstanding⟩
    exact ⟨hall, bl, hbl, hstanding⟩

end Rule

/-! ## The run that comes to its end -/

section Convergence

variable {P : Type} [DecidableEq P] {w : World} {db₀ db : Db P} {work : P → List (List Item)}
variable {p : P} {bl : BatchLoop P}

/-- The tables of `p`, and its status, are those after one run from `db₀` that met no trouble. -/
structure CaughtUp (w : World) (db₀ : Db P) (work : P → List (List Item)) (p : P) (db : Db P) :
    Prop where
  status : db.status p = .IDLE
  checkpoint : db.store.etl_state p =
    ((db₀.config p).mark (db₀.due w p)).or (db₀.store.etl_state p)
  sink : ∀ cell, OwnCell work p cell →
    db.store.sink cell = applyItems db₀.store.sink (work p).flatten cell

/-- What can run at the beginning can run later. -/
theorem Runnable.later
    (h : Runnable w db₀ p bl) (hconfig : db.config p = db₀.config p)
    (hsource : db.store.source = db₀.store.source) (hdec : db₀.Decodes p db.store) :
    Runnable w db p bl where
  body := by
    rw [hconfig]
    exact h.body
  source := by
    rw [hconfig, hsource]
    exact h.source
  accepts := by
    rw [hconfig, hsource]
    exact h.accepts
  incremental := by
    rw [hconfig, hsource]
    intro hmode
    obtain ⟨htable, -, hpure⟩ := h.incremental hmode
    exact ⟨htable, hdec hmode, hpure⟩

omit [DecidableEq P] in
theorem dueIn_store
    (hconfig : db.config p = db₀.config p) :
    dueIn w db₀ db.store p = db.due w p := by
  have hsame : ({ db₀ with store := db.store } : Db P).config p = db₀.config p := rfl
  simp only [dueIn, Db.due, hsame, hconfig]

/-- What each pipeline owes. -/
theorem AllCatchUp.exists_owed
    (h : AllCatchUp w db₀ work db.store) (hconfig : ∀ p, db.config p = db₀.config p) :
    ∃ owed : P → List (List Item), ∀ p bl, _run_body w p (db₀.config p) = .ok bl →
      ∃ done, Parted w db₀ work p bl (db.due w p) db.store done (owed p) := by
  classical
  have hone : ∀ p, ∃ owed, ∀ bl, _run_body w p (db₀.config p) = .ok bl →
      ∃ done, Parted w db₀ work p bl (db.due w p) db.store done owed := by
    intro p
    by_cases hbl : ∃ bl, _run_body w p (db₀.config p) = .ok bl
    · obtain ⟨bl, hbl⟩ := hbl
      obtain ⟨-, done, rest, hparted⟩ := h.2 p bl hbl
      rw [dueIn_store (hconfig p)] at hparted
      refine ⟨rest, fun bl' hbl' => ⟨done, ?_⟩⟩
      obtain rfl := Except.ok.inj (hbl.symm.trans hbl')
      exact hparted
    · exact ⟨[], fun bl hbl' => absurd ⟨bl, hbl'⟩ hbl⟩
  exact ⟨fun p => (hone p).choose, fun p => (hone p).choose_spec⟩

omit [DecidableEq P] in
/-- A cell that only `p` writes. -/
theorem applyItems_flatMap_own
    {sink : Sink} {l : List P} {items : P → List Item} {cell : Cell} (honce : l.Nodup) (hp : p ∈ l)
    (hown : ∀ q ∈ l, q ≠ p → cell ∉ touched (items q).flatten) :
    applyItems sink (l.flatMap items) cell = applyItems sink (items p) cell := by
  have hothers : ∀ (l' : List P) (sink' : Sink), l' ⊆ l → p ∉ l' →
      applyItems sink' (l'.flatMap items) cell = sink' cell := by
    intro l' sink' hsub hl'
    refine assignAll_of_not_mem _ _ fun hmem => ?_
    obtain ⟨a, ha, rfl⟩ := List.mem_map.mp hmem
    obtain ⟨item, hitem, hin⟩ := List.mem_flatten.mp ha
    obtain ⟨q, hq, hitem⟩ := List.mem_flatMap.mp hitem
    exact hown q (hsub hq) (ne_of_mem_of_not_mem hq hl')
      (List.mem_map_of_mem (List.mem_flatten.mpr ⟨item, hitem, hin⟩))
  obtain ⟨before, after, rfl⟩ := List.append_of_mem hp
  obtain ⟨-, hrest, hapart⟩ := List.nodup_append.mp honce
  have hbefore : p ∉ before := fun h => hapart p h p List.mem_cons_self rfl
  rw [List.flatMap_append, List.flatMap_cons, applyItems_append, applyItems_append,
    hothers after _ (by simp) (List.nodup_cons.mp hrest).1]
  exact assignAll_congr _ (hothers before sink (by simp) hbefore)

/-- **The next undisturbed tick does what is owed.** -/
theorem Leads.caughtUp
    (hmax : 1 ≤ w.max_attempts)
    (hrunnable : ∀ p bl, _run_body w p (db₀.config p) = .ok bl → Runnable w db₀ p bl)
    (hconfig : ∀ p, db.config p = db₀.config p) (hall : AllCatchUp w db₀ work db.store)
    (haccepted : ∀ p, (db.pipelines p).enabled = true → db.status p = .RUN_REQUESTED →
      ∃ bl, _run_body w p (db₀.config p) = .ok bl)
    {pr : Proc P} (hpc : pr.pc = .started ∨ pr.pc = .polling) :
    ∃ db', Leads w (db, pr) (db', ⟨.polling, []⟩) ∧
      ∀ p, (db.pipelines p).enabled = true → db.status p = .RUN_REQUESTED →
        CaughtUp w db₀ work p db' := by
  obtain ⟨owed, howed⟩ := hall.exists_owed hconfig
  have hcan : ∀ p, (db.pipelines p).enabled = true → db.status p = .RUN_REQUESTED →
      ∃ bl, Runnable w db p bl ∧ Writes w db p bl (owed p) := by
    intro p hon hreq
    obtain ⟨bl, hbl⟩ := haccepted p hon hreq
    obtain ⟨done, hparted⟩ := howed p bl hbl
    refine ⟨bl, (hrunnable p bl hbl).later (hconfig p) hall.1 (hall.2 p bl hbl).1, ?_⟩
    rw [Writes, hconfig p]
    exact hparted.writes
  have hservable := servable_get_active hcan
  have hbegin : procStep w db pr .ok = some (db, ⟨.tick db.get_active, []⟩) := by
    rcases hpc with hpc | hpc <;> simp [procStep, hpc]
  have houtcome := hservable.outcome
  refine ⟨_, (Leads.step hbegin).trans (Leads.turns hservable hmax), fun p hon hreq => ?_⟩
  have hactive : (p, PipelineStatus.RUN_REQUESTED) ∈ db.get_active :=
    mem_get_active_iff.mpr ⟨⟨hon, Or.inl hreq⟩, hreq.symm⟩
  have hruns : p ∈ toRun db.get_active := mem_toRun_iff.mpr hactive
  obtain ⟨bl, hbl⟩ := haccepted p hon hreq
  obtain ⟨done, hparted⟩ := howed p bl hbl
  constructor
  · rw [houtcome.status p, statusAfter, if_pos hactive]
  · rw [houtcome.checkpoint p, if_pos hruns, hconfig p]
    exact hparted.mark
  · intro cell hown
    have honce : (toRun db.get_active).Nodup :=
      (get_active_nodup db).sublist (List.filter_sublist.map _)
    have hsettled := hparted.owes.settle hown
    rw [← assignments_append, ← hparted.split] at hsettled
    rw [houtcome.sink, applyItems_flatMap_own honce hruns fun q hrun hq hmem => ?_]
    · exact hsettled
    · obtain ⟨⟨hon', -⟩, hreq'⟩ := mem_get_active_iff.mp (mem_toRun_iff.mp hrun)
      obtain ⟨bl', hbl'⟩ := haccepted q hon' hreq'.symm
      obtain ⟨done', hparted'⟩ := howed q bl' hbl'
      refine hown q hq ?_
      rw [hparted'.split, assignments_append, mem_touched_append]
      exact Or.inr hmem

end Convergence

/-! ## A restart -/

section Restart

variable {P : Type} [DecidableEq P] {w : World}

/-- The recovery of a process puts the claimed pipelines back, and touches nothing but statuses
and run rows. -/
theorem Leads.recovered
    (db : Db P) :
    ∃ db', Leads w (db, ⟨.recovery, []⟩) (db', ⟨.started, []⟩) ∧
      (∀ p, db'.status p = if db.status p = .RUNNING then .RUN_REQUESTED else db.status p) ∧
      SameConfig db db' ∧ db'.store = db.store := by
  by_cases hnil : db.list_stuck_running_ids = []
  · refine ⟨db, Leads.step (by simp [procStep, hnil]), fun p => ?_, SameConfig.refl db, rfl⟩
    rw [if_neg]
    intro hrunning
    have hmem : p ∈ db.list_stuck_running_ids := by
      simp [Db.list_stuck_running_ids, hrunning, db.complete p]
    rw [hnil] at hmem
    cases hmem
  · have hlist : procStep w db ⟨.recovery, []⟩ .ok =
        some (db, ⟨.recovering db.list_stuck_running_ids, []⟩) := by
      simp [procStep, hnil]
    have hrecover : procStep w db ⟨.recovering db.list_stuck_running_ids, []⟩ .ok =
        some ((db.recover_running_failed_bulk db.list_stuck_running_ids).mark_run_requested_bulk
          db.list_stuck_running_ids, ⟨.started, []⟩) := rfl
    refine ⟨_, (Leads.step hlist).trans (Leads.step hrecover), fun p => ?_,
      sameConfig_recovered _ _, rfl⟩
    rw [Db.status_mark_run_requested_bulk, Db.status_recover_running_failed_bulk]
    refine if_congr ?_ rfl rfl
    simp [Db.list_stuck_running_ids, db.complete p]

/-- Pipelines that can run and write what `work` says are a workload. -/
theorem exists_workload
    {db₀ : Db P} {work : P → List (List Item)}
    (hrunnable : ∀ p bl, _run_body w p (db₀.config p) = .ok bl →
      Runnable w db₀ p bl ∧ Writes w db₀ p bl (work p)) :
    ∃ left, Workload w db₀ work left := by
  classical
  have hreads : ∀ p, ∃ left, ∀ bl, _run_body w p (db₀.config p) = .ok bl →
      bl.ReadsDue w db₀ p left := by
    intro p
    by_cases hbl : ∃ bl, _run_body w p (db₀.config p) = .ok bl
    · obtain ⟨bl, hbl⟩ := hbl
      obtain ⟨left, hleft⟩ := (hrunnable p bl hbl).1.readsDue
      refine ⟨left, fun bl' hbl' => ?_⟩
      obtain rfl := Except.ok.inj (hbl.symm.trans hbl')
      exact hleft
    · exact ⟨fun _ => [], fun bl hbl' => absurd ⟨bl, hbl'⟩ hbl⟩
  choose left hleft using hreads
  exact ⟨left, hleft, fun p bl hbl => (hrunnable p bl hbl).2,
    fun p bl hbl => (hrunnable p bl hbl).1.decodes⟩

/-- A runner that is killed and started again begins with the recovery. -/
theorem exec_restart
    {s s' : Sys Unit P} {es : List (Event Unit P)}
    (h : exec (Sys.step w) { db := s.db, procs := fun _ => ⟨.recovery, []⟩ } es = some s') :
    exec (Sys.step w) s (.kill () :: .spawn () :: es) = some s' := by
  have hkill : s.step w (.kill ()) = some (s.setProc () ⟨.down, []⟩) := rfl
  have hspawn : (s.setProc () ⟨.down, []⟩).step w (.spawn ()) =
      some { db := s.db, procs := fun _ => ⟨.recovery, []⟩ } := by
    refine Sys.step_spawn_iff.mpr ⟨by simp [Sys.setProc], ?_⟩
    simp only [Sys.setProc, Function.update_idem, Sys.mk.injEq, true_and]
    funext u
    cases u
    rw [Function.update_self]
  rw [exec, hkill, Option.bind_some, exec, hspawn, Option.bind_some]
  exact h

/--
**Interrupted runs converge.**  A single runner has worked on tables and
configurations that stay as they are, and in which every pipeline whose
configuration its runner accepts can run; its runs may have been paused, retried,
cut off half way through a bulk request, or killed, any number of times.  Kill
it once more, wherever it is, and start it again: when nothing else happens, each
enabled pipeline that was claimed or requested, its configuration accepted, ends
idle, with the checkpoint and the tables that one run from the beginning would
have left.
-/
theorem interrupted_runs_converge
    {s₀ s : Sys Unit P} {work : P → List (List Item)}
    (hmax : 1 ≤ w.max_attempts) (hrest : s₀.Resting)
    (hrunnable : ∀ p bl, _run_body w p (s₀.db.config p) = .ok bl →
      Runnable w s₀.db p bl ∧ Writes w s₀.db p bl (work p))
    (h : Reach (Sys.step w) (fun s => s = s₀) (fun s e => e.keepsConfig (fun _ _ => False) s) s)
    (haccepted : ∀ p, (s.db.pipelines p).enabled = true →
      s.db.status p = .RUNNING ∨ s.db.status p = .RUN_REQUESTED →
        ∃ bl, _run_body w p (s₀.db.config p) = .ok bl) :
    ∃ (n : ℕ) (s' : Sys Unit P),
      exec (Sys.step w) s (.kill () :: .spawn () :: List.replicate n (.runner () .ok)) = some s' ∧
      ∀ p, (s.db.pipelines p).enabled = true →
        s.db.status p = .RUNNING ∨ s.db.status p = .RUN_REQUESTED →
          CaughtUp w s₀.db work p s'.db := by
  obtain ⟨left, hload⟩ := exists_workload hrunnable
  have hinv := (catchingUp hload).inv_of_reach (fun _ _ hbl => hbl) hrest hload.catchesUp h
  have hall : AllCatchUp w s₀.db work s.db.store := hinv.idle
  -- the recovery leads to a tick that finds every claimed pipeline requested
  obtain ⟨db₁, hrecover, hstatus, hconfig, hstore⟩ := Leads.recovered (w := w) s.db
  have hsame : ∀ p, db₁.config p = s₀.db.config p := fun p =>
    (hconfig.config_eq p).trans (hinv.config p)
  have hon : ∀ p, (db₁.pipelines p).enabled = (s.db.pipelines p).enabled := fun p =>
    congrArg PipelineSnapshot.enabled (hconfig.2 p)
  have hreq : ∀ p, db₁.status p = .RUN_REQUESTED ↔
      s.db.status p = .RUNNING ∨ s.db.status p = .RUN_REQUESTED := by
    intro p
    rw [hstatus p]
    split_ifs with hrunning <;> simp [hrunning]
  have hstarted : (⟨.started, []⟩ : Proc P).pc = .started ∨
      (⟨.started, []⟩ : Proc P).pc = .polling :=
    Or.inl rfl
  obtain ⟨db', htick, hdone⟩ := Leads.caughtUp hmax (fun p bl hbl => (hrunnable p bl hbl).1) hsame
    (hstore ▸ hall)
    (fun p honp hreqp => haccepted p ((hon p).symm.trans honp) ((hreq p).mp hreqp)) hstarted
  obtain ⟨n, hexec⟩ := (hrecover.trans htick).exec_eq
    (s := { db := s.db, procs := fun _ => ⟨.recovery, []⟩ }) (i := ()) rfl rfl
  exact ⟨n, _, exec_restart hexec,
    fun p honp hreqp => hdone p ((hon p).trans honp) ((hreq p).mpr hreqp)⟩

/-- Killed in the second batch, after two of three films. -/
theorem interrupted_runs_converge_three_films :
    ∃ (s s' : Sys Unit Unit) (n : ℕ), s.db.status () = .RUNNING ∧
      s.db.store.etl_state () = some ⟨some "2024-01-04T00:00:00+00:00", some "f2"⟩ ∧
      exec (Sys.step World.plain) s (.kill () :: .spawn () :: List.replicate n (.runner () .ok)) =
        some s' ∧
      s'.db.status () = .IDLE ∧
      s'.db.store.etl_state () = some ⟨some "2024-01-05T00:00:00+00:00", some "f3"⟩ := by
  obtain ⟨s, hreach, hrunning, hstate, hon⟩ : ∃ s : Sys Unit Unit,
      Reach (Sys.step World.plain) (fun s => s = threeFilmsRequested)
        (fun s e => e.keepsConfig (fun _ _ => False) s) s ∧
      s.db.status () = .RUNNING ∧
      s.db.store.etl_state () = some ⟨some "2024-01-04T00:00:00+00:00", some "f2"⟩ ∧
      (s.db.pipelines ()).enabled = true :=
    Reach.exists_of_replay threeFilmsRequested (List.replicate 14 (.runner () .ok)) rfl
      (by decide +kernel)
  obtain ⟨bl, hbl⟩ := runnable_threeFilms
  obtain ⟨v, written, v', -, hruns, -, -⟩ := hbl.exhausts
  obtain ⟨n, s', hexec, hdone⟩ := @interrupted_runs_converge Unit _ World.plain
    threeFilmsRequested s (fun _ => written) (by decide) (fun _ => ⟨trivial, rfl⟩)
    (by
      rintro p bl' hbl'
      obtain rfl := Except.ok.inj (hbl.body.symm.trans hbl')
      exact ⟨hbl, hruns.items_eq⟩)
    hreach (fun _ _ _ => ⟨bl, hbl.body⟩)
  have hcaught := hdone () hon (Or.inl hrunning)
  refine ⟨s, s', n, hrunning, hstate, hexec, hcaught.status, ?_⟩
  rw [hcaught.checkpoint]
  decide +kernel

end Restart

end EtlPlatform
