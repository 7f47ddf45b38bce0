import EtlPlatform.Proofs.Sessions

/-!
# What the runs have delivered

A history of the items that have reached the sink, each with the pipeline whose
run has delivered it: at the commit of a batch these are the upserts of the
session, and at a write outside the session what the request has applied.
Nothing else reaches the sink, so the history explains its content.
-/

namespace EtlPlatform

open Library

section Deliveries

variable {P : Type}

/-- The items of the upserts of an open transaction. -/
def upsertsOf : List (Write P) → List Item
  | [] => []
  | .upsert item :: ws => item :: upsertsOf ws
  | .state _ _ :: ws => upsertsOf ws

@[simp] theorem upsertsOf_append
    (ws ws' : List (Write P)) :
    upsertsOf (ws ++ ws') = upsertsOf ws ++ upsertsOf ws' := by
  induction ws with
  | nil =>
      rfl
  | cons wr ws ih =>
      cases wr with
      | upsert item =>
          exact congrArg (item :: ·) ih
      | state p e =>
          exact ih

@[simp] theorem upsertsOf_map_upsert
    (items : List Item) :
    upsertsOf (items.map (Write.upsert (P := P))) = items := by
  induction items with
  | nil =>
      rfl
  | cons item items ih =>
      exact congrArg (item :: ·) ih

/-- What has been applied of `items` when their statement is answered. -/
def Choice.applied (items : List Item) : Choice → List Item
  | .ok | .lost => items
  | .raise _ => []
  | .partialBulk marks _ => maskItems marks items

/-- The items a step of a dispatch delivers, from its session and the answer it gets. -/
def Stage.sends (ws : List (Write P)) (c : Choice) : Stage P → List Item
  | .loop _ _ _ (.commit _) => c.applied (upsertsOf ws)
  | .loop _ _ bl (.write _ _ res) =>
      if bl.transactional ∨ res.rows = [] then []
      else c.applied ((bl.write res.rows).toOption.getD [])
  | _ => []

/-- The items a step of a process delivers, for the pipeline it works on. -/
def Proc.sends (pr : Proc P) (c : Choice) : List (P × Item) :=
  match pr.pc with
  | .dispatch p _ st _ => (st.sends pr.pending c).map (fun item => (p, item))
  | _ => []

/-- The history after an event. -/
def deliver {ι : Type} (D : List (P × Item)) (s : Sys ι P) : Event ι P → List (P × Item)
  | .runner i c => D ++ (s.procs i).sends c
  | _ => D

/-- A stage that delivers nothing sends nothing. -/
theorem Stage.sends_eq_nil
    {st : Stage P} {ws : List (Write P)} {c : Choice} (h : ¬ st.delivers) :
    st.sends ws c = [] := by
  cases st with
  | loop k r bl pc =>
      cases pc with
      | write v rows res =>
          have htx : bl.transactional = true := by
            rwa [← Bool.not_eq_false]
          exact if_pos (Or.inl htx)
      | commit v =>
          exact absurd trivial h
      | _ =>
          rfl
  | _ =>
      rfl

/-- One statement, by what it has applied. -/
theorem answer_sink
    {c : Choice} {kept done : Db P × List (Write P)} {next : Stage P} {onExc : Exc → Stage P}
    {a : After P} {items : List Item}
    (h : answer c kept done next onExc = some a)
    (hdone : done.1.store.sink = applyItems kept.1.store.sink items) :
    a.db.store.sink = applyItems kept.1.store.sink (c.applied items) := by
  rcases answer_cases h with ⟨rfl, rfl⟩ | ⟨exc, rfl, rfl⟩ | ⟨rfl, rfl⟩
  · exact hdone
  · rfl
  · exact hdone

variable [DecidableEq P]

/-- A commit applies the upserts. -/
theorem Store.commit_sink
    (st : Store P) (ws : List (Write P)) :
    (st.commit ws).sink = applyItems st.sink (upsertsOf ws) := by
  induction ws generalizing st with
  | nil =>
      rfl
  | cons wr ws ih =>
      have hhead : (st.commit (wr :: ws)).sink = applyItems (st.write wr).sink (upsertsOf ws) :=
        ih (st.write wr)
      rw [hhead]
      cases wr with
      | upsert item =>
          simp [upsertsOf, Store.write, applyItems, assignAll_append]
      | state p e =>
          rfl

/-- The write of a batch. -/
theorem loopStep_write_sink
    {w : World} {db : Db P} {ws : List (Write P)} {p : P} {k r : ℕ} {bl : BatchLoop P}
    {v : LoopVars} {rows : List Row} {res : Transformed} {c : Choice} {a : After P}
    (h : loopStep w (db, ws) p k r bl (.write v rows res) c = some a) :
    a.db.store.sink =
      applyItems db.store.sink ((Stage.loop k r bl (.write v rows res)).sends ws c) := by
  rcases loopStep_write_cases h with ⟨hnil, h⟩ | ⟨exc, hne, hwrite, h⟩ | ⟨items, hne, hwrite, h⟩
  · rw [Stage.sends, if_pos (Or.inr hnil)]
    rcases answer_cases h with ⟨-, rfl⟩ | ⟨exc, -, rfl⟩ | ⟨-, rfl⟩ <;> rfl
  · have hsends : (Stage.loop k r bl (.write v rows res)).sends ws c = [] := by
      rw [Stage.sends, hwrite]
      split_ifs
      · rfl
      · cases c <;> simp [Choice.applied, Except.toOption, maskItems]
    rw [hsends]
    rcases answer_cases h with ⟨-, rfl⟩ | ⟨exc, -, rfl⟩ | ⟨-, rfl⟩ <;> rfl
  · rcases writeStep_cases h with ⟨htx, hans⟩ | ⟨htx, hans | ⟨marks, exc, rfl, rfl⟩⟩
    · rw [Stage.sends, if_pos (Or.inl htx)]
      rcases answer_cases hans with ⟨-, rfl⟩ | ⟨exc, -, rfl⟩ | ⟨-, rfl⟩ <;> rfl
    · rw [Stage.sends, if_neg (by simp [htx, hne]), hwrite]
      exact answer_sink hans rfl
    · rw [Stage.sends, if_neg (by simp [htx, hne]), hwrite]
      rfl

/-- **A dispatch delivers what it sends.** -/
theorem stageStep_sink
    {w : World} {db : Db P} {ws : List (Write P)} {p : P} {snap : PipelineSnapshot}
    {st : Stage P} {c : Choice} {a : After P}
    (h : stageStep w (db, ws) p snap st c = some a)
    (hclean : st.mayHold ∨ ws = []) :
    a.db.store.sink = applyItems db.store.sink (st.sends ws c) := by
  by_cases hdel : st.delivers
  · cases st with
    | loop k r bl pc =>
        cases pc with
        | write v rows res =>
            exact loopStep_write_sink (p := p) h
        | commit v =>
            exact answer_sink h (Store.commit_sink db.store ws)
        | _ =>
            exact hdel.elim
    | _ =>
        exact hdel.elim
  · rw [Stage.sends_eq_nil hdel, ((stageStep_session h hclean).2.resolve_left hdel)]
    rfl

/-- So does a process. -/
theorem procStep_sink
    {w : World} {db db' : Db P} {pr pr' : Proc P} {c : Choice}
    (h : procStep w db pr c = some (db', pr')) (hclean : pr.Clean) :
    db'.store.sink = applyItems db.store.sink ((pr.sends c).map Prod.snd) := by
  obtain ⟨pc, ws⟩ := pr
  cases pc with
  | dispatch p snap st todo =>
      have hsends : ((Proc.sends ⟨.dispatch p snap st todo, ws⟩ c).map Prod.snd) =
          st.sends ws c := by
        simp [Proc.sends, Function.comp_def]
      rw [hsends]
      rcases procStep_dispatch h with ⟨res, rfl, rfl, -⟩ | ⟨a, hst, rfl, -⟩
      · rfl
      · exact stageStep_sink hst hclean
  | _ =>
      have hstore := (procStep_session h hclean).2.resolve_left (by
        rintro ⟨p, hdel⟩
        exact hdel)
      rw [hstore]
      rfl

variable {ι : Type} [DecidableEq ι]

/-- One event changes the sink by what it delivers. -/
theorem step_sink
    {w : World} {s s' : Sys ι P} {e : Event ι P} {k₀ : Sink} {D : List (P × Item)}
    (h : s.step w e = some s') (hclean : ∀ i, (s.procs i).Clean)
    (hsink : s.db.store.sink = applyItems k₀ (D.map Prod.snd)) :
    s'.db.store.sink = applyItems k₀ ((deliver D s e).map Prod.snd) := by
  cases e with
  | run p =>
      obtain rfl := Option.some.inj h
      exact (congrArg Store.sink (Db.store_run_pipeline s.db p)).trans hsink
  | pause p =>
      obtain rfl := Option.some.inj h
      exact (congrArg Store.sink (Db.store_pause_pipeline s.db p)).trans hsink
  | spawn i =>
      obtain ⟨-, rfl⟩ := Sys.step_spawn_iff.mp h
      exact hsink
  | runner i c =>
      obtain ⟨db, pr, hproc, rfl⟩ := Sys.step_runner_iff.mp h
      rw [deliver, List.map_append, applyItems_append, ← hsink]
      exact procStep_sink hproc (hclean i)
  | _ =>
      obtain rfl := Option.some.inj h
      exact hsink

/-- **The history explains the sink**: any number of runners, any requests and crashes. -/
theorem sink_eq_of_reach
    {w : World} {s₀ : Sys ι P} {x : Sys ι P × List (P × Item)}
    (hrest : s₀.Resting)
    (h : Reach (tracked (Sys.step w) deliver) (fun x => x = (s₀, [])) (fun _ _ => True) x) :
    x.1.db.store.sink = applyItems s₀.db.store.sink (x.2.map Prod.snd) := by
  refine (h.invariant (I := fun x : Sys ι P × List (P × Item) =>
    (∀ i, (x.1.procs i).Clean) ∧
      x.1.db.store.sink = applyItems s₀.db.store.sink (x.2.map Prod.snd)) ?_ ?_).2
  · rintro x rfl
    exact ⟨fun i => clean_of_resting (hrest i).1 (hrest i).2, rfl⟩
  · rintro x e y ⟨hclean, hsink⟩ - hstep
    obtain ⟨hsys, hD⟩ := tracked_eq_some_iff.mp hstep
    rw [hD]
    exact ⟨clean_step hsys hclean, step_sink hsys hclean hsink⟩

end Deliveries

end EtlPlatform
