import EtlPlatform.Proofs.PlanRounds

/-!
# Stopping and resuming a run

A run that is paused or killed behind a batch leaves the checkpoint of the batch
as its only memory, and the next run decodes it.  It then goes on as if it had
never been stopped, unless the batch ended with a row whose id is the empty
text: the encoder stores the empty id, the decoder takes it for a missing one.
-/

namespace EtlPlatform
namespace Sequential

open Library

/-! ## One checkpoint -/

section Checkpoints

variable {P : Type} [DecidableEq P]

/-- **A stored cursor is decoded to itself exactly if its id is not empty.** -/
theorem decodeState_encodeState_iff
    {c : Cursor} :
    decodeState (some (encodeState c)) = .ok (some c) ↔ c.last_id ≠ "" := by
  constructor
  · rintro h hid
    have hvalue : PyText.truthy (some c.last_ts.isoformat) = true :=
      PyText.truthy_some_iff.mpr (Datetime.isoformat_ne_empty _)
    simp only [decodeState, encodeState, Option.bind_some, hvalue, hid, if_true,
      Option.getD_some, Datetime.fromisoformat_isoformat] at h
    cases h
  · exact decodeState_encodeState

/-- An empty id makes the next run raise. -/
theorem decodeState_of_empty_id
    {c : Cursor} (hid : c.last_id = "") :
    decodeState (some (encodeState c)) =
      .error (valueError "Incremental state is missing last_processed_id") := by
  have hvalue : PyText.truthy (some c.last_ts.isoformat) = true :=
    PyText.truthy_some_iff.mpr (Datetime.isoformat_ne_empty _)
  simp only [decodeState, encodeState, Option.bind_some, hvalue, hid, if_true,
    Option.getD_some, Datetime.fromisoformat_isoformat]
  rfl

end Checkpoints

/-! ## Stops -/

section Stops

/-- A stop of a run behind one of its batches. -/
structure Stop where
  /-- how many batches the run has committed since it was started -/
  batches : ℕ
  pos : 0 < batches
  /-- it was asked to pause; otherwise it was killed -/
  paused : Bool

/-- What a run sees that is stopped there. -/
def Stop.env (source : Source) (stop : Stop) : Surroundings where
  source := fun _ => source
  status := fun i => if stop.paused = true ∧ i = stop.batches then .PAUSE_REQUESTED else .RUNNING

/-- How many batches are committed before the last stop. -/
def batchesBefore (stops : List Stop) : ℕ :=
  (stops.map Stop.batches).sum

/-- The batches a run is stopped behind, of those it reads. -/
def stoppedBehind : List Stop → List (List Row) → List (List Row)
  | [], _ => []
  | stop :: rest, batches =>
      (batches.take stop.batches).getLast?.toList ++ stoppedBehind rest (batches.drop stop.batches)

variable {P : Type}

/-- The run, stopped and started again at each of the stops, and then left alone. -/
def resumed (run : Surroundings → ℕ → RunnerM P (Option (ℕ × ℕ))) (source : Source) :
    List Stop → ℕ → RunnerM P (Option (ℕ × ℕ))
  | [], fuel => run (steady source) fuel
  | stop :: rest, fuel => do
      let _ ← run (stop.env source) stop.batches
      resumed run source rest fuel

/-- The last row of the batch, as the transform leaves it, has the empty text for an id. -/
def EndsWithEmptyId (transform : List Row → Except Exc Transformed) (id_key : String)
    (rows : List Row) : Prop :=
  ∃ res tail id, transform rows = .ok res ∧ res.left.getLast? = some tail ∧
    tail.get? id_key = some id ∧ id.str = ""

end Stops

/-! ## Runs that are stopped -/

section Runs

variable {P : Type} [DecidableEq P]
variable {w : World} {source : Source} {p : P} {plan : IncrementalPlan}
variable {run : Surroundings → ℕ → RunnerM P (Option (ℕ × ℕ))}
variable {v v' : LoopVars} {s s' : Session P} {c : Option Cursor}
variable {rows : List Row} {batches : List (List Row)}

/-- What a round leaves for the next run. -/
theorem Round.stored_iff
    (h : Round w source p plan v s rows v' s') :
    ∃ c, v'.cursor = some c ∧ s'.store.etl_state p = some (encodeState c) ∧
      (c.last_id = "" ↔ EndsWithEmptyId plan.transform plan.id_key rows) := by
  obtain ⟨-, -, res, items, c, hres, -, htail, rfl, rfl⟩ := h
  refine ⟨c, rfl, checkpointed_etl_state _ _ _, ?_⟩
  obtain ⟨tail, t, id, hlast, -, hid, rfl⟩ := tailCursor_eq_ok_inv htail
  constructor
  · intro hempty
    exact ⟨res, tail, id, hres, hlast, hid, hempty⟩
  · rintro ⟨res', tail', id', hres', hlast', hid', hempty⟩
    obtain rfl := Except.ok.inj (hres.symm.trans hres')
    obtain rfl := Option.some.inj (hlast.symm.trans hlast')
    obtain rfl := Option.some.inj (hid.symm.trans hid')
    exact hempty

/-- A run that is stopped behind its rounds has done these rounds. -/
theorem run_of_stop
    (hfollows : FollowsPlan w p plan run) (hstart : decodeState (s.store.etl_state p) = .ok c)
    {stop : Stop} (hlen : batches.length = stop.batches)
    (h : Rounds w source p plan (LoopVars.initial c) s batches v' s') :
    ∃ totals, run (stop.env source) stop.batches s = .ok totals s' := by
  have hpos := stop.pos
  obtain rfl | ⟨front, rows, rfl⟩ := List.eq_nil_or_concat' batches
  · exact absurd hlen hpos.ne
  obtain ⟨v₁, s₁, hfront, hlast⟩ := h.split
  have hround : ∃ v₂, planRound w source p plan v₁ s₁ = .ok (some v₂) s' := by
    cases hlast with
    | next hround hrest =>
        cases hrest
        exact ⟨_, planRound_eq_some_iff.mpr ⟨_, hround⟩⟩
  obtain ⟨v₂, hround⟩ := hround
  have hfuel : stop.batches = front.length + 1 := by
    rw [← hlen, List.length_append, List.length_singleton]
  have hstatus : ∀ i, i < front.length → (stop.env source).status (1 + i) ≠ .PAUSE_REQUESTED := by
    intro i hi
    have hne : 1 + i ≠ stop.batches := by omega
    simp [Stop.env, hne]
  rw [hfollows, hstart]
  dsimp only
  rw [hfuel, planLoop_of_rounds _ 1 hfront (fun _ => rfl) hstatus, planLoop, bind_apply]
  have hsource : (stop.env source).source (1 + front.length) = source := rfl
  rw [hsource, hround]
  dsimp only
  split_ifs
  · exact ⟨_, rfl⟩
  · exact ⟨_, rfl⟩

/-- A checkpoint that cannot be decoded is where every next run stops. -/
theorem resumed_of_error
    (hfollows : FollowsPlan w p plan run) {exc : Exc}
    (hstate : decodeState (s.store.etl_state p) = .error exc) (stops : List Stop) (fuel : ℕ) :
    resumed run source stops fuel s = .error exc s := by
  cases stops with
  | nil =>
      rw [resumed, hfollows, hstate]
  | cons stop rest =>
      rw [resumed, bind_apply, hfollows, hstate]

/-- **A run that is stopped and resumed comes to the same as one that is not**, exactly if no
batch it is stopped behind ends with an empty id. -/
theorem resumed_iff
    (hfollows : FollowsPlan w p plan run) {stops : List Stop}
    (hstart : decodeState (s.store.etl_state p) = .ok c)
    (hlen : batches.length = batchesBefore stops)
    (h : Rounds w source p plan (LoopVars.initial c) s batches v' s') :
    (∀ fuel, outcome (resumed run source stops fuel s) =
        outcome (run (steady source) (batchesBefore stops + fuel) s)) ↔
      ∀ rows ∈ stoppedBehind stops batches,
        ¬ EndsWithEmptyId plan.transform plan.id_key rows := by
  induction stops generalizing s c batches v' with
  | nil =>
      simp [resumed, batchesBefore, stoppedBehind]
  | cons stop rest ih =>
      have hbefore : batchesBefore (stop :: rest) = stop.batches + batchesBefore rest := by
        simp [batchesBefore]
      rw [hbefore] at hlen
      have htake : (batches.take stop.batches).length = stop.batches := by
        rw [List.length_take]
        omega
      have hdrop : (batches.drop stop.batches).length = batchesBefore rest := by
        rw [List.length_drop]
        omega
      have hne : batches.take stop.batches ≠ [] := by
        rw [← List.length_pos_iff, htake]
        exact stop.pos
      rw [← List.take_append_drop stop.batches batches] at h
      obtain ⟨v₁, s₁, hfirst, hsecond⟩ := h.split
      obtain ⟨u, t, hround⟩ := hfirst.last hne
      obtain ⟨c₁, hcursor, hstored, hempty⟩ := hround.stored_iff
      obtain ⟨totals, hstopped⟩ := run_of_stop hfollows hstart htake hfirst
      -- both go on from the session the stop leaves
      have hresumed : ∀ fuel, resumed run source (stop :: rest) fuel s =
          resumed run source rest fuel s₁ := by
        intro fuel
        rw [resumed, bind_apply, hstopped]
      have hgoes : ∀ fuel,
          outcome (run (steady source) (batchesBefore (stop :: rest) + fuel) s) =
            outcome (planLoop w (steady source) p plan (batchesBefore rest + fuel) 1
              (LoopVars.initial (some c₁)) s₁) := by
        intro fuel
        have hsteady := planLoop_of_rounds (steady source) 1 hfirst (fun _ => rfl)
          (fun _ _ => by simp [steady]) (batchesBefore rest + fuel)
        rw [hfollows, hstart, hbefore, Nat.add_assoc]
        dsimp only
        rw [htake] at hsteady
        rw [hsteady]
        exact planLoop_outcome hcursor _ _ _ _
      have hbehind : stoppedBehind (stop :: rest) batches =
          (batches.take stop.batches).getLast hne ::
            stoppedBehind rest (batches.drop stop.batches) := by
        rw [stoppedBehind, List.getLast?_eq_some_getLast hne]
        rfl
      rw [hbehind, List.forall_mem_cons, ← hempty]
      simp only [hresumed, hgoes]
      obtain ⟨v₂, hrest, -⟩ := hsecond.congr (u := LoopVars.initial (some c₁)) hcursor.symm
      by_cases hid : c₁.last_id = ""
      · -- the next run raises where the other has nothing left to do
        have hstate : decodeState (s₁.store.etl_state p) =
            .error (valueError "Incremental state is missing last_processed_id") := by
          rw [hstored, decodeState_of_empty_id hid]
        have hends := planLoop_of_rounds (steady source) 1 hrest (fun _ => rfl)
          (fun _ _ => by simp [steady]) 0
        rw [hdrop] at hends
        constructor
        · intro hsame
          have hzero := hsame 0
          rw [resumed_of_error hfollows hstate, hends] at hzero
          cases congrArg Prod.fst hzero
        · rintro ⟨hnot, -⟩
          exact absurd hid hnot
      · have hstate : decodeState (s₁.store.etl_state p) = .ok (some c₁) := by
          rw [hstored, decodeState_encodeState hid]
        have hnext := ih hstate hdrop hrest
        simp only [hfollows (steady source) _ s₁, hstate] at hnext
        rw [hnext]
        exact (and_iff_right hid).symm

end Runs

/-! ## Both runners -/

section Runners

variable {P : Type} [DecidableEq P]

/-- The session a run is started with. -/
def Session.opened (store : Store P) : Session P :=
  { store := store, pending := [], seen := [] }

/--
**Resuming from the stored checkpoint is continuing in memory, except behind an
empty id.**  Whatever passes the checks on the tail row is stored and decoded to
itself if and only if its id is not the empty text.  A run of either runner over
a source that stays as it is, stopped and resumed behind any of its batches,
comes to the same as the run that is left alone, with the same queries, batches
and commits, if and only if none of these batches ends with an empty id.
-/
theorem resumption_iff
    (w : World) (p : P) (pl : PipelineSnapshot) (runner : Runner) (source : Source)
    (store : Store P) :
    (∀ (s : Session P) (left : List Row) (c : Cursor),
      tailCursor (incKey pl) (idKey pl) left = .ok c →
        (decodeState ((s.checkpointed p c).store.etl_state p) = .ok (some c) ↔
          ∀ tail id, left.getLast? = some tail → tail.get? (idKey pl) = some id →
            id.str ≠ "")) ∧
      ∀ (stops : List Stop) (s' : Session P),
        runner.run w p pl (steady source) (batchesBefore stops) (Session.opened store) =
            .ok none s' →
          ((∀ fuel, outcome (resumed (runner.run w p pl) source stops fuel (Session.opened store)) =
              outcome (runner.run w p pl (steady source) (batchesBefore stops + fuel)
                (Session.opened store))) ↔
            ∀ rows ∈ stoppedBehind stops (batchesRead s'.seen),
              ¬ EndsWithEmptyId (runner.transform w pl) (idKey pl) rows) := by
  constructor
  · intro s left c htail
    obtain ⟨tail, t, id, hlast, -, hid, rfl⟩ := tailCursor_eq_ok_inv htail
    rw [checkpointed_etl_state, decodeState_encodeState_iff]
    constructor
    · intro hne tail' id' hlast' hid'
      obtain rfl := Option.some.inj (hlast.symm.trans hlast')
      obtain rfl := Option.some.inj (hid.symm.trans hid')
      exact hne
    · intro hall
      exact hall tail id hlast hid
  · intro stops s' hreached
    obtain ⟨plan, -, hid_key, -, htransform, hfollows⟩ | ⟨exc, hstops⟩ :=
      runner.follows_or_stops w p pl
    · rw [hfollows] at hreached
      cases hstart : decodeState ((Session.opened store).store.etl_state p) with
      | error exc =>
          rw [hstart] at hreached
          cases hreached
      | ok c =>
          rw [hstart] at hreached
          obtain ⟨batches, v', hlen, hrounds⟩ :=
            rounds_of_planLoop (steady source) 1 (fun _ => rfl) hreached
          have hread : batchesRead s'.seen = batches := hrounds.read
          rw [hread, ← hid_key, ← htransform]
          exact resumed_iff hfollows hstart hlen hrounds
    · rw [hstops] at hreached
      cases hreached

/-- The film pipeline, one film a batch. -/
def oneFilmABatch : PipelineSnapshot :=
  snapshot_pipeline (filmPipeline .incremental 1 .RUNNING)

/-- The film table and nothing else, before any run. -/
def noFilmsYet : Store Unit where
  source := filmSource []
  etl_state := fun _ => none
  sink := fun _ => none

/-- What a run read in its first batches, if it got that far. -/
def readUntil : EStateM.Result Exc (Session P) (Option (ℕ × ℕ)) → Option (List (List Row))
  | .ok none s => some (batchesRead s.seen)
  | _ => none

omit [DecidableEq P] in
theorem readUntil_eq_some
    {x : EStateM.Result Exc (Session P) (Option (ℕ × ℕ))} {batches : List (List Row)}
    (h : readUntil x = some batches) :
    ∃ s, x = .ok none s ∧ batchesRead s.seen = batches := by
  rcases x with ⟨_ | totals, s⟩ | ⟨exc, s⟩
  · exact ⟨s, rfl, Option.some.inj h⟩
  · cases h
  · cases h

/-- Killed behind the first batch and asked to pause behind the second. -/
def killedThenPaused : List Stop :=
  [⟨1, Nat.one_pos, false⟩, ⟨1, Nat.one_pos, true⟩]

/-- The run over three films goes on behind both stops. -/
theorem resumption_three_films :
    outcome (resumed (Runner.sql.run World.plain () oneFilmABatch) (filmSource threeFilms)
        killedThenPaused 2 (Session.opened noFilmsYet)) =
      outcome (Runner.sql.run World.plain () oneFilmABatch (steady (filmSource threeFilms))
        (2 + 2) (Session.opened noFilmsYet)) := by
  have hread : readUntil (Runner.sql.run World.plain () oneFilmABatch
      (steady (filmSource threeFilms)) 2 (Session.opened noFilmsYet)) =
        some [[filmRow "f1" "Alien" (january 4 (by decide))],
          [filmRow "f2" "Solaris" (january 4 (by decide))]] := by
    decide +kernel
  obtain ⟨s', hreached, hbatches⟩ := readUntil_eq_some hread
  obtain ⟨-, hiff⟩ := resumption_iff World.plain () oneFilmABatch .sql (filmSource threeFilms)
    noFilmsYet
  refine (hiff killedThenPaused s' hreached).mpr ?_ 2
  rw [hbatches]
  rintro rows hmem ⟨res, tail, id, hres, hlast, hid, hempty⟩
  have hhanded : Runner.sql.transform World.plain oneFilmABatch rows =
      .ok { rows := rows, left := rows } := rfl
  obtain rfl := Except.ok.inj (hhanded.symm.trans hres)
  have hrows : rows = [filmRow "f1" "Alien" (january 4 (by decide))] ∨
      rows = [filmRow "f2" "Solaris" (january 4 (by decide))] := by
    simpa [stoppedBehind, killedThenPaused] using hmem
  rcases hrows with rfl | rfl
  · obtain rfl := Option.some.inj hlast
    obtain rfl := Option.some.inj hid
    exact absurd hempty (by decide)
  · obtain rfl := Option.some.inj hlast
    obtain rfl := Option.some.inj hid
    exact absurd hempty (by decide)

/-- A film without an id of its own, and the next day's film. -/
def filmsWithEmptyId : List Row :=
  [filmRow "" "Untitled" (january 9 (by decide)), filmRow "f1" "Alien" (january 10 (by decide))]

/-- Asked to pause behind the first film, the run never starts again; left alone it reads both. -/
theorem resumption_fails_on_empty_id :
    let stops : List Stop := [⟨1, by decide, true⟩]
    let run := Runner.sql.run World.plain () oneFilmABatch
    (outcome (resumed run (filmSource filmsWithEmptyId) stops 2
        (Session.opened noFilmsYet))).1 =
        .error (valueError "Incremental state is missing last_processed_id") ∧
      (outcome (run (steady (filmSource filmsWithEmptyId)) 3 (Session.opened noFilmsYet))).1 =
        .ok true ∧
      ¬ ∀ fuel, outcome (resumed run (filmSource filmsWithEmptyId) stops fuel
          (Session.opened noFilmsYet)) =
        outcome (run (steady (filmSource filmsWithEmptyId)) (batchesBefore stops + fuel)
          (Session.opened noFilmsYet)) := by
  intro stops run
  have hraises : (outcome (resumed run (filmSource filmsWithEmptyId) stops 2
      (Session.opened noFilmsYet))).1 =
        .error (valueError "Incremental state is missing last_processed_id") := by
    decide +kernel
  have hreturns : (outcome (run (steady (filmSource filmsWithEmptyId)) 3
      (Session.opened noFilmsYet))).1 = .ok true := by
    decide +kernel
  refine ⟨hraises, hreturns, fun hsame => ?_⟩
  have htwo := congrArg Prod.fst (hsame 2)
  rw [hraises] at htwo
  have hsum : batchesBefore stops + 2 = 3 := rfl
  rw [hsum, hreturns] at htwo
  cases htwo

end Runners

end Sequential
end EtlPlatform
