import EtlPlatform.Proofs.Deliveries
import EtlPlatform.Proofs.NoMissedUpdate

/-!
# Which rows have been delivered

Four columns of a pipeline decide which rows its incremental runs deliver, in
which order, and where to.  Against a history of deliveries they say when a row
has been written, and what a checkpoint promises: every row up to it has been.
A batch that is delivered moves the promise to its last row, and an empty batch
means that no row is left.
-/

namespace EtlPlatform

open Library
open IncrementalPlan

/-- What decides which rows an incremental run delivers, and where to. -/
structure Feed where
  base : String
  inc_key : String
  id_key : String
  target : String
deriving DecidableEq

/-- The feed of a configuration. -/
def feedOf (pl : PipelineSnapshot) : Feed where
  base := baseQuery (pl.source_query.getD "")
  inc_key := incKey pl
  id_key := idKey pl
  target := PyText.strip pl.target_table

/-- The configured feed of a pipeline. -/
def Db.feed {P : Type} (db : Db P) (p : P) : Feed :=
  feedOf (db.config p)

/-- The writer of a feed sends this item for a row. -/
def Feed.item (w : World) (f : Feed) : Row → Except Exc Item :=
  (resolve_writer f.target).item w.storeRow f.target

/-- All ids are of one type that takes text parameters. -/
def Typed (τ : IdType) (f : Feed) (table : List Row) : Prop :=
  ∀ r ∈ table, ∃ s, r.column (foldIdent f.id_key) = τ.value s

/--
The pairs of key and id are distinct, and there is no `NULL` among them.  The
id column as a whole takes text parameters, or does not.  As in `HasKeys`, each
key names one column.
-/
structure Paired (C : Collation) (f : Feed) (table : List Row) : Prop where
  key : ∀ r ∈ table, r.column (foldIdent f.inc_key) ≠ .null
  id : (∃ τ, Typed τ f table) ∨
    ∀ r ∈ table, (r.column (foldIdent f.id_key)).bindLike "" = none
  distinct : (table.map (position (rowKey C f.inc_key) (rowId C f.id_key))).Nodup
  inc_named : ∀ r ∈ table, ∀ v, r.get? f.inc_key = some v → v = r.column (foldIdent f.inc_key)
  id_named : ∀ r ∈ table, ∀ v, r.get? f.id_key = some v → v = r.column (foldIdent f.id_key)

/-- What the query of the feed returns is paired. -/
def HasPairs (C : Collation) (src : Source) (f : Feed) : Prop :=
  ∀ table, src f.base = .ok table → Paired C f table

section DeliveredRows

variable {P : Type}
variable (w : World) (f : Feed) (p : P) (D : List (P × Item))

/-- A run of `p` has written the row to the target. -/
def Written (r : Row) : Prop :=
  ∃ item, f.item w r = .ok item ∧ (p, item) ∈ D

/-- Every row of the source query has been written. -/
def Complete (src : Source) : Prop :=
  ∀ table, src f.base = .ok table → ∀ r ∈ table, Written w f p D r

/-- Every row up to the stored checkpoint has been written. -/
def DeliveredUpTo (src : Source) (e : Option EtlState) : Prop :=
  ∀ table, src f.base = .ok table → ∀ τ, Typed τ f table → ∀ c, StandsAt e c →
    Covered (rowKey w.collation f.inc_key) (rowId w.collation f.id_key) (Written w f p D) table
      (mark w.collation τ c)

/-- The rows are a batch of the feed, read where the checkpoint stands. -/
def BatchRead (src : Source) (e : Option EtlState) (rows : List Row) : Prop :=
  rows ≠ [] ∧ ∃ c limit, StandsAt e c ∧
    incrementalBatch w.collation src f.base f.inc_key f.id_key c limit = .ok rows

variable {w f p D}

/-- The feed names the target without the blanks around it; the writer strips them, too. -/
theorem item_feedOf
    (pl : PipelineSnapshot) :
    (feedOf pl).item w = sinkItem w pl := by
  funext r
  have hwriter : resolve_writer (PyText.strip pl.target_table) = resolve_writer pl.target_table := by
    rw [resolve_writer, resolve_writer, PyText.strip_strip]
  simp only [Feed.item, feedOf, sinkItem, hwriter, Writer.item, PyText.strip_strip]

/-! ## More deliveries -/

theorem Written.mono
    {D' : List (P × Item)} (h : D ⊆ D') {r : Row} (hr : Written w f p D r) :
    Written w f p D' r := by
  obtain ⟨item, hitem, hmem⟩ := hr
  exact ⟨item, hitem, h hmem⟩

theorem Complete.mono
    {D' : List (P × Item)} {src : Source} (h : D ⊆ D') (hall : Complete w f p D src) :
    Complete w f p D' src :=
  fun table htable r hr => (hall table htable r hr).mono h

theorem DeliveredUpTo.mono
    {D' : List (P × Item)} {src : Source} {e : Option EtlState}
    (h : D ⊆ D') (hup : DeliveredUpTo w f p D src e) :
    DeliveredUpTo w f p D' src e :=
  fun table htable τ hτ c hc r hr hle => (hup table htable τ hτ c hc r hr hle).mono h

/-- Before the first checkpoint nothing is promised. -/
theorem DeliveredUpTo.of_fresh
    (src : Source) :
    DeliveredUpTo w f p D src none := by
  rintro table - τ - c (hc | ⟨c', -, h⟩)
  · obtain rfl : none = c := Except.ok.inj hc
    exact covered_bot _ _
  · cases h

/-! ## Batches -/

/-- A loop that stands at a stored cursor stands at no other. -/
theorem standsAt_encodeState_iff
    {c : Cursor} {c' : Option Cursor} :
    StandsAt (some (encodeState c)) c' ↔ c' = some c := by
  constructor
  · rintro (hc | ⟨c'', rfl, h⟩)
    · by_cases hid : c.last_id = ""
      · simp [decodeState, encodeState, hid, PyText.truthy, Datetime.isoformat_ne_empty,
          Datetime.fromisoformat_isoformat] at hc
      · exact (Except.ok.inj ((decodeState_encodeState hid).symm.trans hc)).symm
    · simp only [Option.some.injEq, encodeState, EtlState.mk.injEq] at h
      obtain ⟨hts, hid⟩ := h
      have hts' := congrArg Datetime.fromisoformat hts
      rw [Datetime.fromisoformat_isoformat, Datetime.fromisoformat_isoformat] at hts'
      obtain ⟨ts, id⟩ := c
      obtain ⟨ts', id'⟩ := c''
      obtain rfl := Option.some.inj hts'
      obtain rfl : id = id' := hid
      rfl
  · rintro rfl
    exact standsAt_encodeState c

/-- A batch query after a cursor is refused where the ids take no text. -/
theorem takesText_of_incrementalBatch
    {src : Source} {c : Cursor} {limit : ℕ} {rows table : List Row}
    (h : incrementalBatch w.collation src f.base f.inc_key f.id_key (some c) limit = .ok rows)
    (htable : src f.base = .ok table) :
    ∀ r ∈ table, (r.column (foldIdent f.id_key)).bindLike "" ≠ none := by
  simp only [incrementalBatch, check_eq_ok_iff, bind_eq_ok_iff, htable] at h
  obtain ⟨table', htable', -, hbind, -⟩ := h
  obtain rfl := Except.ok.inj htable'
  simpa [Option.isNone_iff_eq_none] using hbind

theorem Typed.batchWhere_iff
    {C : Collation} {τ : IdType} {table : List Row} (hτ : Typed τ f table)
    (hpairs : Paired C f table) (c : Option Cursor) {r : Row} (hr : r ∈ table) :
    batchWhere C (foldIdent f.inc_key) (foldIdent f.id_key) c r = true ↔
      mark C τ c <
        (position (rowKey C f.inc_key) (rowId C f.id_key) r : WithBot FeedPosition) := by
  obtain ⟨s, hs⟩ := hτ r hr
  exact batchWhere_iff_of_ne_null (hpairs.key r hr) hs c

/-- **An empty batch leaves no row.** -/
theorem DeliveredUpTo.complete
    {src : Source} {e : Option EtlState} {c : Option Cursor} {limit : ℕ}
    (h : DeliveredUpTo w f p D src e) (hpairs : HasPairs w.collation src f)
    (hc : StandsAt e c) (hlimit : 0 < limit)
    (hbatch : incrementalBatch w.collation src f.base f.inc_key f.id_key c limit = .ok []) :
    Complete w f p D src := by
  intro table htable
  obtain ⟨table', htable', hnil⟩ := incrementalBatch_eq_ok hbatch
  obtain rfl := Except.ok.inj (htable.symm.trans htable')
  rcases (hpairs table htable).id with ⟨τ, hτ⟩ | hnone
  · exact (h table htable τ hτ c hc).of_page_eq_nil
      (fun r hr => hτ.batchWhere_iff (hpairs table htable) c hr) hlimit hnil.symm
  · -- without text parameters only a first batch is answered, and it takes every row
    intro r hr
    cases c with
    | none =>
        have hfalse := (page_eq_nil_iff _ hlimit).mp hnil.symm r hr
        cases hfalse
    | some c =>
        exact absurd (hnone r hr) (takesText_of_incrementalBatch hbatch htable r hr)

/-- **A batch that is delivered moves the promise to its last row.** -/
theorem DeliveredUpTo.advance
    {src : Source} {e : Option EtlState} {rows : List Row} {c' : Cursor}
    (h : DeliveredUpTo w f p D src e) (hpairs : HasPairs w.collation src f)
    (hread : BatchRead w f src e rows)
    (hrows : ∀ r ∈ rows, Written w f p D r)
    (htail : tailCursor f.inc_key f.id_key rows = .ok c') :
    DeliveredUpTo w f p D src (some (encodeState c')) := by
  intro table htable τ hτ c'' hc''
  obtain rfl := standsAt_encodeState_iff.mp hc''
  obtain ⟨hne, c, limit, hc, hbatch⟩ := hread
  obtain ⟨table', htable', rfl⟩ := incrementalBatch_eq_ok hbatch
  obtain rfl := Except.ok.inj (htable.symm.trans htable')
  have hpaired := hpairs table htable
  have hmem := (mem_page _ (List.getLast_mem hne)).1
  obtain ⟨s, hs⟩ := hτ _ hmem
  obtain ⟨hpos, -⟩ := tailCursor_eq_ok (C := w.collation) (List.getLast?_eq_some_getLast hne)
    (hpaired.inc_named _ hmem) (hpaired.id_named _ hmem) hs htail
  rw [mark, hpos]
  exact (h table htable τ hτ c hc).advance_page (rowLe_iff _ _ _)
    (fun r hr => hτ.batchWhere_iff hpaired c hr) hpaired.distinct hne hrows

end DeliveredRows

end EtlPlatform
