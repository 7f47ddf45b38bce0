import EtlPlatform.Proofs.NullableTables
import EtlPlatform.Proofs.Resumption

/-!
# Checkpoints and what has been written

The log of a session says which rows have been written to the target by runs
that hand rows through.  Every checkpoint such runs store is accounted for by
it: on a regular table the rows with a key up to the checkpoint have been
written, however the runs have ended.
-/

namespace EtlPlatform
namespace Sequential

open Library

/-! ## What has been written -/

section Written

/-- The event is a commit. -/
def Seen.isCommitted : Seen → Bool
  | .committed _ _ => true
  | .query _ _ => false

/-- The writer takes these rows and sends them at once, before anything is committed. -/
def SentAtOnce (w : World) (target : String) (rows : List Row) : Prop :=
  resolve_writer target = .elasticsearch ∧
    ((resolve_writer target).write w.storeRow target rows).isOk = true

instance (w : World) (target : String) (rows : List Row) : Decidable (SentAtOnce w target rows) :=
  inferInstanceAs (Decidable (_ ∧ _))

/--
The rows that runs with this log have written to the target, when they handed
the rows through: those of the batches they committed and, in an index, also
those of a batch that was sent and not committed.
-/
def rowsWritten (w : World) (target : String) : List Seen → List Row
  | [] => []
  | .query _ (.ok rows) :: log =>
      (if log.head?.any Seen.isCommitted = true ∨ SentAtOnce w target rows then rows else []) ++
        rowsWritten w target log
  | _ :: log => rowsWritten w target log

variable {w : World} {target : String}

/-- What a run writes comes behind what was written before it. -/
theorem rowsWritten_append_query
    (log : List Seen) (q : BatchQuery) (answer : Except Exc (List Row)) (rest : List Seen) :
    rowsWritten w target (log ++ .query q answer :: rest) =
      rowsWritten w target log ++ rowsWritten w target (.query q answer :: rest) := by
  induction log with
  | nil =>
      rfl
  | cons e log ih =>
      have hhead : (log ++ .query q answer :: rest).head?.any Seen.isCommitted =
          log.head?.any Seen.isCommitted := by
        cases log <;> rfl
      rcases e with ⟨q', exc | rows⟩ | ⟨sink, state⟩
      · exact ih
      · simp only [List.cons_append, rowsWritten, hhead, ih, List.append_assoc]
      · exact ih

/-- Rows that were written once stay written. -/
theorem rowsWritten_subset_append_query
    (log : List Seen) (q : BatchQuery) (answer : Except Exc (List Row)) :
    rowsWritten w target log ⊆ rowsWritten w target (log ++ [.query q answer]) := by
  rw [rowsWritten_append_query]
  exact List.subset_append_left _ _

end Written

/-! ## Rounds that hand rows through -/

section Rounds

variable {P : Type} [DecidableEq P]

/-- The plan hands rows through, and its writer is the one of its target. -/
structure PassesRows (plan : IncrementalPlan) : Prop where
  transform : ∀ rows, plan.transform rows = .ok { rows := rows, left := rows }
  writer : plan.writer = resolve_writer plan.target
  limit : 0 < plan.limit

variable {w : World} {source : Source} {p : P} {plan : IncrementalPlan} {table : List Row}
variable {v v' : LoopVars} {s s' : Session P} {rows : List Row} {batches : List (List Row)}

/-- The batch of a round is a page of the table, and its cursor comes from its last row. -/
theorem Round.page
    (h : Round w source p plan v s rows v' s') (hpass : PassesRows plan)
    (hsource : source plan.base = .ok table) :
    ∃ c, v'.cursor = some c ∧ s'.store.etl_state p = some (encodeState c) ∧
      rows = batchPage w.collation plan.inc_key plan.id_key v.cursor plan.limit table ∧
      tailCursor plan.inc_key plan.id_key rows = .ok c := by
  obtain ⟨hquery, -, res, items, c, hres, -, htail, rfl, rfl⟩ := h
  obtain rfl := Except.ok.inj ((hpass.transform rows).symm.trans hres)
  obtain ⟨table', htable', hrows⟩ := incrementalBatch_eq_ok hquery
  obtain rfl := Except.ok.inj (hsource.symm.trans htable')
  exact ⟨c, rfl, checkpointed_etl_state _ _ _, hrows, htail⟩

/-- The rows of a round are written. -/
theorem Round.rowsWritten
    (h : Round w source p plan v s rows v' s') :
    Sequential.rowsWritten w plan.target s'.seen =
      Sequential.rowsWritten w plan.target s.seen ++ rows := by
  obtain ⟨-, -, res, items, c, -, -, -, -, rfl⟩ := h
  set sent := (s.queried (batchQuery plan v.cursor) (.ok rows)).written plan.writer items
  have hsent : sent.seen = s.seen ++ [.query (batchQuery plan v.cursor) (.ok rows)] :=
    written_seen _ _ _
  have hseen : (sent.checkpointed p c).seen = s.seen ++
      .query (batchQuery plan v.cursor) (.ok rows) ::
        [.committed (sent.checkpointed p c).store.sink
          ((sent.checkpointed p c).store.etl_state p)] := by
    rw [← List.singleton_append, ← List.append_assoc, ← hsent]
    rfl
  rw [hseen, rowsWritten_append_query]
  simp [Sequential.rowsWritten, Seen.isCommitted]

theorem Rounds.rowsWritten
    (h : Rounds w source p plan v s batches v' s') :
    Sequential.rowsWritten w plan.target s'.seen =
      Sequential.rowsWritten w plan.target s.seen ++ batches.flatten := by
  induction h with
  | start =>
      exact (List.append_nil _).symm
  | next hround _ ih =>
      rw [ih, hround.rowsWritten, List.flatten_cons, List.append_assoc]

/-- **A round that is not followed by another** ends the loop with an empty batch or raises,
and stores no checkpoint. -/
theorem planRound_ends
    (h : ∀ v' s', planRound w source p plan v s ≠ .ok (some v') s') :
    (planRound w source p plan v s = .ok none (s.queried (batchQuery plan v.cursor) (.ok [])) ∧
        incrementalBatch w.collation source plan.base plan.inc_key plan.id_key v.cursor
          plan.limit = .ok []) ∨
      ∃ exc s' answer, planRound w source p plan v s = .error exc s' ∧
        s'.seen = s.seen ++ [.query (batchQuery plan v.cursor) answer] ∧
        s'.store.etl_state = s.store.etl_state := by
  rw [planRound_eq] at *
  cases hquery : incrementalBatch w.collation source plan.base plan.inc_key plan.id_key v.cursor
      plan.limit with
  | error exc =>
      exact .inr ⟨exc, _, _, rfl, rfl, rfl⟩
  | ok rows =>
      by_cases hnil : rows = []
      · subst hnil
        exact .inl ⟨rfl, rfl⟩
      · simp only [hquery, hnil, if_false] at h ⊢
        cases hres : plan.transform rows with
        | error exc =>
            exact .inr ⟨exc, _, _, rfl, rfl, rfl⟩
        | ok res =>
            simp only [hres] at h ⊢
            cases hitems : (plan.loop w p).itemsOf res.rows with
            | error exc =>
                exact .inr ⟨exc, _, _, rfl, rfl, rfl⟩
            | ok items =>
                simp only [hitems] at h ⊢
                cases htail : tailCursor plan.inc_key plan.id_key res.left with
                | error exc =>
                    refine .inr ⟨exc, _, _, rfl, written_seen _ _ _, ?_⟩
                    cases plan.writer <;> rfl
                | ok c =>
                    simp only [htail] at h
                    exact absurd rfl (h _ _)

end Rounds

/-! ## What a checkpoint stands for -/

section Checkpoints

variable {P : Type} [DecidableEq P]

/-- The checkpoint was taken from a row of the table, and the rows with a key up to it have
been written. -/
structure Covered (w : World) (p : P) (inc_key id_key target : String) (table : List Row)
    (c : Cursor) (s : Session P) : Prop where
  stored : s.store.etl_state p = some (encodeState c)
  tail : ∃ r ∈ table, (∃ t, r.get? inc_key = some (.datetime t)) ∧ r.get? id_key ≠ none
  written : ∀ τ, RegularTable inc_key id_key τ table → ∀ r ∈ table, HasKey inc_key r →
    batchWhere w.collation (foldIdent inc_key) (foldIdent id_key) (some c) r = false →
      r ∈ rowsWritten w target s.seen

/-- Nothing is stored, or a checkpoint that is covered. -/
def Accounted (w : World) (p : P) (inc_key id_key target : String) (table : List Row) :
    Option Cursor → Session P → Prop
  | none, s => s.store.etl_state p = none
  | some c, s => Covered w p inc_key id_key target table c s

variable {w : World} {source : Source} {p : P} {plan : IncrementalPlan} {table : List Row}
variable {inc_key id_key target : String} {c : Option Cursor}
variable {v v' : LoopVars} {s s' : Session P} {rows : List Row} {batches : List (List Row)}

omit [DecidableEq P] in
/-- Nothing is lost while the checkpoint stays and more is written. -/
theorem Accounted.keep
    (h : Accounted w p inc_key id_key target table c s)
    (hstate : s'.store.etl_state p = s.store.etl_state p)
    (hseen : rowsWritten w target s.seen ⊆ rowsWritten w target s'.seen) :
    Accounted w p inc_key id_key target table c s' := by
  cases c with
  | none =>
      exact hstate.trans h
  | some c =>
      exact ⟨hstate.trans h.stored, h.tail, fun τ hreg r hr hkey hc =>
        hseen (h.written τ hreg r hr hkey hc)⟩

/-- A round moves the checkpoint and writes the rows it moves over. -/
theorem Accounted.round
    (h : Accounted w p plan.inc_key plan.id_key plan.target table v.cursor s)
    (hround : Round w source p plan v s rows v' s') (hpass : PassesRows plan)
    (hsource : source plan.base = .ok table)
    (htable : NullableTable plan.inc_key plan.id_key table) :
    Accounted w p plan.inc_key plan.id_key plan.target table v'.cursor s' := by
  obtain ⟨c', hcursor, hstored, hpage, htail⟩ := hround.page hpass hsource
  rw [hcursor]
  refine ⟨hstored, ?_, fun τ hreg r hr hkey hc' => ?_⟩
  · obtain ⟨tail, t, id, hlast, hts, hid, -⟩ := tailCursor_eq_ok_inv htail
    have hmem : tail ∈ batchPage w.collation plan.inc_key plan.id_key v.cursor plan.limit table :=
      hpage ▸ List.mem_of_getLast? hlast
    exact ⟨tail, (mem_page _ hmem).1, ⟨t, hts⟩, by simp [hid]⟩
  · rw [hround.rowsWritten, List.mem_append]
    by_cases hc : batchWhere w.collation (foldIdent plan.inc_key) (foldIdent plan.id_key)
        v.cursor r = true
    · exact .inr ((hreg.page_covers htable hpage htail).1 r hr hkey hc hc')
    · left
      rw [Bool.not_eq_true] at hc
      cases hv : v.cursor with
      | none =>
          rw [hv] at hc
          cases hc
      | some c =>
          rw [hv] at h hc
          exact h.written τ hreg r hr hkey hc

theorem Accounted.rounds
    (h : Accounted w p plan.inc_key plan.id_key plan.target table v.cursor s)
    (hrounds : Rounds w source p plan v s batches v' s') (hpass : PassesRows plan)
    (hsource : source plan.base = .ok table)
    (htable : NullableTable plan.inc_key plan.id_key table) :
    Accounted w p plan.inc_key plan.id_key plan.target table v'.cursor s' := by
  induction hrounds with
  | start =>
      exact h
  | next hround _ ih =>
      exact ih (h.round hround hpass hsource htable)

/-- **However a loop ends**, what it has stored is covered. -/
theorem Accounted.planLoop
    {env : Surroundings} (hpass : PassesRows plan) (hsource : source plan.base = .ok table)
    (htable : NullableTable plan.inc_key plan.id_key table)
    (hstatic : ∀ i, env.source i = source) (fuel batch_no : ℕ)
    (h : Accounted w p plan.inc_key plan.id_key plan.target table v.cursor s) :
    ∃ c, Accounted w p plan.inc_key plan.id_key plan.target table c
      (sessionAfter (Sequential.planLoop w env p plan fuel batch_no v s)) := by
  induction fuel generalizing batch_no v s with
  | zero =>
      exact ⟨v.cursor, h⟩
  | succ fuel ih =>
      rw [Sequential.planLoop, bind_apply, hstatic]
      by_cases hgoes : ∃ v' s', planRound w source p plan v s = .ok (some v') s'
      · obtain ⟨v', s', hok⟩ := hgoes
        obtain ⟨rows, hround⟩ := planRound_eq_some_iff.mp hok
        have hnext := h.round hround hpass hsource htable
        rw [hok]
        dsimp only
        split_ifs
        · exact ⟨_, hnext⟩
        · exact ih (batch_no + 1) hnext
      · push Not at hgoes
        rcases planRound_ends hgoes with ⟨hok, -⟩ | ⟨exc, s', answer, herror, hseen, hstate⟩
        · rw [hok]
          exact ⟨_, h.keep rfl (rowsWritten_subset_append_query _ _ _)⟩
        · rw [herror]
          refine ⟨_, h.keep (congrFun hstate p) ?_⟩
          rw [sessionAfter, hseen]
          exact rowsWritten_subset_append_query _ _ _

end Checkpoints

/-! ## How a run ends -/

section Ends

variable {P : Type} [DecidableEq P]
variable {w : World} {source : Source} {p : P} {plan : IncrementalPlan} {table : List Row}
variable {inc_key id_key target base : String} {c : Cursor} {limit : ℕ}
variable {v v' : LoopVars} {s s' : Session P} {rows : List Row} {batches : List (List Row)}
variable {env : Surroundings}

end Ends

end Sequential
end EtlPlatform
