import EtlPlatform.Proofs.BatchAtomicity
import EtlPlatform.Proofs.DueRows
import EtlPlatform.Proofs.NoMissedUpdate

/-!
# Checkpoints move forward

The checkpoint of an incremental pipeline says how far its runs have come in the
order of the key columns.  Rows may be inserted, changed and deleted while the
runner works, attempts fail, runs are paused, and the process dies: as long as
the tables keep the contract of incremental mode, no commit moves a checkpoint
back.
-/

namespace EtlPlatform

open Library
open IncrementalPlan

section ForwardCheckpoints

variable {P : Type} [DecidableEq P]

/-- The readers of the incremental pipelines return rows that have their keys. -/
def KeyedSource (cfg : P → PipelineSnapshot) (τ : P → IdType) (src : Source) : Prop :=
  ∀ p, (cfg p).mode = .incremental → ∀ table, src (cfg p).readerQuery = .ok table →
    ∀ r ∈ table, HasKeys (τ p) (incKey (cfg p)) (idKey (cfg p)) r

variable (w : World) (cfg : P → PipelineSnapshot) (τ : P → IdType)

/-- The last of the rows stands after `c`, under the keys of `p`. -/
def EndsAfter (p : P) (c : Option Cursor) (rows : List Row) : Prop :=
  ∀ c', tailCursor (incKey (cfg p)) (idKey (cfg p)) rows = .ok c' →
    mark w.collation (τ p) c < (c'.position w.collation (τ p) : WithBot FeedPosition) ∧
      c'.last_id ≠ ""

/-- The loop variables stand where the checkpoint stands. -/
def StandsAtMark (p : P) (st : Store P) (v : LoopVars) : Prop :=
  checkpoint w.collation (τ p) (st.etl_state p) = mark w.collation (τ p) v.cursor

/-- What the loop of `p` has in hand at each of its await points. -/
def Heading (p : P) (st : Store P) (ws : List (Write P)) : LoopPc → Prop
  | .fetch v => StandsAtMark w τ p st v
  | .transform v rows => StandsAtMark w τ p st v ∧ EndsAfter w cfg τ p v.cursor rows
  | .write v rows res =>
      StandsAtMark w τ p st v ∧ EndsAfter w cfg τ p v.cursor rows ∧ res.left = rows
  | .advance v rows left _ =>
      StandsAtMark w τ p st v ∧ EndsAfter w cfg τ p v.cursor rows ∧ left = rows ∧
        ∃ items : List Item, ws = items.map .upsert
  | .commit v =>
      ∃ (items : List Item) (c' : Cursor),
        ws = items.map .upsert ++ [.state p (encodeState c')] ∧ v.cursor = some c' ∧
          c'.last_id ≠ "" ∧ checkpoint w.collation (τ p) (st.etl_state p) <
            (c'.position w.collation (τ p) : WithBot FeedPosition)
  | _ => False

/-- What the loop of a full pipeline has in its session: the items of its batch. -/
def OnlyItems (ws : List (Write P)) : LoopPc → Prop
  | .advance _ _ _ _ | .commit _ => ∃ items : List Item, ws = items.map .upsert
  | _ => True

/-- What the loop of `p` relies on, by the mode of the pipeline. -/
def OnItsWay (p : P) (st : Store P) (ws : List (Write P)) (pc : LoopPc) : Prop :=
  ((cfg p).mode = .incremental ∧ Heading w cfg τ p st ws pc) ∨
    ((cfg p).mode = .full ∧ OnlyItems ws pc)

/-- No checkpoint stands before that of `e₀`, and the readers return keyed rows. -/
structure HeldSince (e₀ : P → Option EtlState) (st : Store P) : Prop where
  keyed : KeyedSource cfg τ st.source
  held : ∀ p, checkpoint w.collation (τ p) (e₀ p) ≤ checkpoint w.collation (τ p) (st.etl_state p)

variable {w cfg τ}

/-- A batch ends after the cursor it was read from. -/
theorem endsAfter_of_query
    {p : P} {bl : BatchLoop P} {st : Store P} {v : LoopVars} {rows : List Row}
    (hruns : _run_body w p (cfg p) = .ok bl) (hmode : (cfg p).mode = .incremental)
    (hkeys : KeyedSource cfg τ st.source) (hquery : bl.query st v = .ok rows) :
    EndsAfter w cfg τ p v.cursor rows := by
  intro c' htail
  obtain ⟨plan, rfl, hbase, -, hinc, hid⟩ := exists_incrementalPlan hruns hmode
  obtain ⟨table, htable, hpage⟩ := incrementalBatch_eq_ok hquery
  rw [hbase] at htable
  rw [hinc, hid] at hpage
  cases hlast : rows.getLast? with
  | none =>
      simp only [tailCursor, hlast] at htail
      cases htail
  | some tail =>
      have hmem : tail ∈ rows := List.mem_of_getLast? hlast
      rw [hpage] at hmem
      obtain ⟨hrow, hwhere⟩ := mem_page _ hmem
      have htailKeys := hkeys p hmode table htable tail hrow
      obtain ⟨hposition, hne⟩ := tailCursor_position (C := w.collation) hlast htailKeys htail
      rw [hposition]
      exact ⟨(batchWhere_iff htailKeys v.cursor).mp hwhere, hne⟩

omit [DecidableEq P] in
/-- The sink is free to change. -/
theorem HeldSince.sink
    {e₀ : P → Option EtlState} {st : Store P} (h : HeldSince w cfg τ e₀ st) (k : Sink) :
    HeldSince w cfg τ e₀ { st with sink := k } :=
  ⟨h.keyed, h.held⟩

/-- **Checkpoints move forward, statement by statement.** -/
def forward (e₀ : P → Option EtlState)
    (hpure : ∀ p bl, (cfg p).mode = .incremental → _run_body w p (cfg p) = .ok bl → bl.Pure) :
    BatchInvariant (fun p bl => _run_body w p (cfg p) = .ok bl)
      (fun _ src => KeyedSource cfg τ src) where
  idle := HeldSince w cfg τ e₀
  holds p st ws pc := HeldSince w cfg τ e₀ st ∧ OnItsWay w cfg τ p st ws pc
  idle_of_holds _ _ _ _ h := h.1
  idle_source _ _ h hsrc := ⟨hsrc, h.held⟩
  holds_source := by
    rintro p st ws pc src ⟨hidle, hway⟩ hsrc
    refine ⟨⟨hsrc, hidle.held⟩, ?_⟩
    cases pc <;> exact hway
  setup := by
    rintro p bl st v hruns hidle hsetup
    cases hmode : (cfg p).mode with
    | full =>
        exact ⟨hidle, .inr ⟨hmode, trivial⟩⟩
    | incremental =>
        obtain ⟨plan, rfl, -⟩ := exists_plan hruns hmode
        exact ⟨hidle, .inl ⟨hmode, checkpoint_of_decodeState (setup_eq_ok hsetup)⟩⟩
  query := by
    rintro p bl st v rows hruns ⟨hidle, ⟨hmode, hstands⟩ | ⟨hmode, -⟩⟩ hquery -
    · exact ⟨hidle, .inl ⟨hmode, hstands, endsAfter_of_query hruns hmode hidle.keyed hquery⟩⟩
    · exact ⟨hidle, .inr ⟨hmode, trivial⟩⟩
  transform := by
    rintro p bl st v rows res hruns ⟨hidle, ⟨hmode, hstands, hends⟩ | ⟨hmode, -⟩⟩ hres
    · exact ⟨hidle, .inl ⟨hmode, hstands, hends, hpure p bl hmode hruns rows res hres⟩⟩
    · exact ⟨hidle, .inr ⟨hmode, trivial⟩⟩
  skip := by
    rintro p st v rows res ⟨hidle, ⟨hmode, hstands, hends, hleft⟩ | ⟨hmode, -⟩⟩ -
    · exact ⟨hidle, .inl ⟨hmode, hstands, hends, hleft, [], rfl⟩⟩
    · exact ⟨hidle, .inr ⟨hmode, [], rfl⟩⟩
  session := by
    rintro p bl st v rows res items hruns ⟨hidle, ⟨hmode, hstands, hends, hleft⟩ | ⟨hmode, -⟩⟩ - - -
    · exact ⟨hidle, .inl ⟨hmode, hstands, hends, hleft, items, rfl⟩⟩
    · exact ⟨hidle, .inr ⟨hmode, items, rfl⟩⟩
  direct := by
    -- the items are in the sink already, and the session is empty
    rintro p bl st v rows res items hruns ⟨hidle, ⟨hmode, hstands, hends, hleft⟩ | ⟨hmode, -⟩⟩ - - -
    · exact ⟨hidle.sink _, .inl ⟨hmode, hstands, hends, hleft, [], rfl⟩⟩
    · exact ⟨hidle.sink _, .inr ⟨hmode, [], rfl⟩⟩
  interrupted := by
    rintro p bl st v rows res items part hruns ⟨hidle, -⟩ - - - -
    exact hidle.sink _
  advance := by
    rintro p bl st ws v v' rows left n ws' hruns
      ⟨hidle, ⟨hmode, hstands, hends, rfl, items, rfl⟩ | ⟨hmode, items, rfl⟩⟩ hadv
    · obtain ⟨plan, rfl, -, -, hinc, hid⟩ := exists_incrementalPlan hruns hmode
      obtain ⟨c', htail, hcursor, rfl⟩ := advanceIncremental_eq_ok hadv
      rw [hinc, hid] at htail
      obtain ⟨hafter, hne⟩ := hends c' htail
      rw [← hstands] at hafter
      exact ⟨hidle, .inl ⟨hmode, items, c', rfl, hcursor, hne, hafter⟩⟩
    · obtain ⟨plan, next, rfl, -⟩ := exists_fullPlan hruns hmode
      -- a full loop puts no checkpoint into its session
      obtain ⟨-, rfl⟩ := Prod.mk.inj (Except.ok.inj hadv)
      exact ⟨hidle, .inr ⟨hmode, items, List.append_nil _⟩⟩
  commit := by
    rintro p st ws v
      ⟨hidle, ⟨hmode, items, c', rfl, hcursor, hid, hafter⟩ | ⟨hmode, items, rfl⟩⟩
    · have hstored : checkpoint w.collation (τ p) (some (encodeState c')) =
          (c'.position w.collation (τ p) : WithBot FeedPosition) :=
        checkpoint_of_decodeState (decodeState_encodeState hid)
      rw [commit_batch]
      refine ⟨⟨hidle.keyed, fun q => ?_⟩, .inl ⟨hmode, ?_⟩⟩
      · by_cases hq : q = p
        · subst hq
          simp only [Function.update_self, hstored]
          exact (hidle.held q).trans hafter.le
        · simp only [Function.update_of_ne hq]
          exact hidle.held q
      · simp only [Heading, StandsAtMark, Function.update_self, hstored, hcursor, mark]
    · rw [Store.commit_upserts]
      exact ⟨hidle.sink _, .inr ⟨hmode, trivial⟩⟩

/--
**Checkpoints move forward.**  One runner works on the pipelines, and the
transforms of the incremental ones are pure.  The tables may change in any way
in which the rows keep their keys.  Between any two moments of any run no
checkpoint has moved back, whatever failed in between and wherever the runs
stood.
-/
theorem checkpoints_move_forward
    {s₀ s s' : Sys Unit P}
    (hpure : ∀ p bl, (s₀.db.config p).mode = .incremental →
      _run_body w p (s₀.db.config p) = .ok bl → bl.Pure)
    (hrest : s₀.Resting)
    (hkeys : KeyedSource s₀.db.config τ s₀.db.store.source)
    (hreach : Reach (Sys.step w) (fun s => s = s₀)
      (fun s e => e.keepsConfig (fun _ src => KeyedSource s₀.db.config τ src) s) s)
    (hlater : Reach (Sys.step w) (fun t => t = s)
      (fun s e => e.keepsConfig (fun _ src => KeyedSource s₀.db.config τ src) s) s') (p : P) :
    checkpoint w.collation (τ p) (s.db.store.etl_state p) ≤
      checkpoint w.collation (τ p) (s'.db.store.etl_state p) := by
  have hnow := (forward s₀.db.store.etl_state hpure).inv_of_reach (fun _ _ hruns => hruns)
    hrest ⟨hkeys, fun _ => le_rfl⟩ hreach
  -- from here on the checkpoints are compared with those of `s`
  have hfrom : (forward (τ := τ) s.db.store.etl_state hpure).Inv s₀.db.config s :=
    BatchInvariant.inv_mono (I := forward s₀.db.store.etl_state hpure)
      (fun hidle => ⟨hidle.keyed, fun _ => le_rfl⟩)
      (fun _ _ _ hholds => ⟨⟨hholds.1.keyed, fun _ => le_rfl⟩, hholds.2⟩) hnow
  have hthen : (forward (τ := τ) s.db.store.etl_state hpure).Inv s₀.db.config s' := by
    refine hlater.invariant (I := fun t =>
      (forward (τ := τ) s.db.store.etl_state hpure).Inv s₀.db.config t) ?_ ?_
    · rintro t rfl
      exact hfrom
    · intro t e t' hI hallow hstep
      exact BatchInvariant.inv_step _ (fun _ _ hruns => hruns) hI hallow hstep
  exact hthen.idle.held p

/-! ## A film that is revised and deleted -/

/-- The source has `filmRevised` from now on, or no film at all. -/
def FilmRevisedOrDeleted (src : Source) : Prop :=
  src filmQuery = .ok [filmRevised] ∨ src filmQuery = .ok []

instance (src : Source) : Decidable (FilmRevisedOrDeleted src) :=
  inferInstanceAs (Decidable (_ ∨ _))

theorem keyedSource_film
    {src : Source} {rows : List Row} (h : src filmQuery = .ok rows)
    (hrows : ∀ r ∈ rows, HasKeys .text "updated_at" "film_id" r) :
    KeyedSource filmStart.db.config (fun _ => .text) src := by
  rintro ⟨⟩ - table htable r hr
  have hquery : (filmStart.db.config ()).readerQuery = filmQuery := by
    decide +kernel
  have hkeys : incKey (filmStart.db.config ()) = "updated_at" ∧
      idKey (filmStart.db.config ()) = "film_id" := by
    decide +kernel
  rw [hquery, h] at htable
  obtain rfl := Except.ok.inj htable
  rw [hkeys.1, hkeys.2]
  exact hrows r hr

theorem FilmRevisedOrDeleted.keyed
    {src : Source} (h : FilmRevisedOrDeleted src) :
    KeyedSource filmStart.db.config (fun _ => .text) src := by
  obtain hrevised | hdeleted := h
  · exact keyedSource_film hrevised
      (List.forall_mem_singleton.mpr (keyed_filmRow _ _ _ (by decide)).toHasKeys)
  · exact keyedSource_film hdeleted (List.forall_mem_nil _)

/-- The runner dies, its successor finds the film revised, and the film is deleted. -/
def revisedAndDeleted : List (Event Unit Unit) :=
  [.kill (), .source (filmSource [filmRevised]), .spawn ()] ++
    List.replicate 13 (.runner () .ok) ++ [.source (filmSource [])] ++
    List.replicate 4 (.runner () .ok)

/-- The checkpoint has moved on from that of the first commit. -/
theorem checkpoints_move_forward_film_deleted :
    ∃ s s' : Sys Unit Unit, s.db.store.etl_state () ≠ none ∧
      s'.db.store.etl_state () ≠ s.db.store.etl_state () ∧
      checkpoint World.plain.collation .text (s.db.store.etl_state ()) ≤
        checkpoint World.plain.collation .text (s'.db.store.etl_state ()) := by
  have hfirst : ∃ s : Sys Unit Unit,
      Reach (Sys.step World.plain) (fun s => s = filmStart)
        (fun s e => e.keepsConfig (fun _ src => FilmRevisedOrDeleted src) s) s ∧
      s.db.store.etl_state () ≠ none ∧
      (exec (guarded (Sys.step World.plain)
          (fun s e => e.keepsConfig (fun _ src => FilmRevisedOrDeleted src) s)) s
        revisedAndDeleted).any
        (fun s' => decide (s'.db.store.etl_state () ≠ s.db.store.etl_state ())) = true :=
    Reach.exists_of_replay filmStart (List.replicate 11 (.runner () .ok)) rfl (by decide +kernel)
  obtain ⟨s, hreach, hstate, hexec⟩ := hfirst
  have hthen : ∃ s' : Sys Unit Unit,
      Reach (Sys.step World.plain) (fun t => t = s)
        (fun s e => e.keepsConfig (fun _ src => FilmRevisedOrDeleted src) s) s' ∧
      s'.db.store.etl_state () ≠ s.db.store.etl_state () :=
    Reach.exists_of_replay s revisedAndDeleted rfl hexec
  obtain ⟨s', hlater, hmoved⟩ := hthen
  have hkeyed : ∀ (s : Sys Unit Unit) (e : Event Unit Unit),
      e.keepsConfig (fun _ src => FilmRevisedOrDeleted src) s →
      e.keepsConfig (fun _ src => KeyedSource filmStart.db.config (fun _ => .text) src) s := by
    intro s e hallow
    cases e with
    | source src =>
        exact FilmRevisedOrDeleted.keyed hallow
    | _ =>
        exact hallow
  have hpure : ∀ p bl, (filmStart.db.config p).mode = .incremental →
      _run_body World.plain p (filmStart.db.config p) = .ok bl → bl.Pure := by
    intro p bl hmode hbody
    obtain ⟨-, -, hpure⟩ := exists_plan hbody hmode
    exact hpure (fun path fn hfn => by cases hfn)
  have hkeys : KeyedSource filmStart.db.config (fun _ => .text) filmStart.db.store.source :=
    keyedSource_film rfl
      (List.forall_mem_singleton.mpr (keyed_filmRow _ _ _ (by decide)).toHasKeys)
  exact ⟨s, s', hstate, hmoved, checkpoints_move_forward (τ := fun _ => .text) hpure
    (Sys.resting_polling _) hkeys (hreach.mono hkeyed) (hlater.mono hkeyed) ()⟩

end ForwardCheckpoints

end EtlPlatform
