import EtlPlatform.Proofs.Delivery
import EtlPlatform.Proofs.RowFeed

/-!
# Rows in the sink

A row is in the sink when the cells its item writes hold what the item put
there.  Items of rows with different ids write different cells, so delivering
one row never disturbs another.
-/

namespace EtlPlatform

open Library

section Items

/-- The sink holds the row in this version. -/
def InSink (f : Row → Except Exc Item) (sink : Sink) (r : Row) : Prop :=
  ∃ item, f r = .ok item ∧ ∀ a ∈ item, sink a.1 = some a.2

/-- The items of the two rows write different cells. -/
def Apart (f : Row → Except Exc Item) (r r' : Row) : Prop :=
  ∀ item item', f r = .ok item → f r' = .ok item' →
    ∀ a ∈ item, ∀ a' ∈ item', a.1 ≠ a'.1

/-- An item gives each of its cells one value. -/
def Consistent (f : Row → Except Exc Item) : Prop :=
  ∀ r item, f r = .ok item → ∀ a ∈ item, ∀ a' ∈ item, a.1 = a'.1 → a.2 = a'.2

variable {f : Row → Except Exc Item}

/-- **A written row is in the sink.** -/
theorem inSink_of_write
    {rows : List Row} {items : List Item}
    (hcons : Consistent f)
    (hitems : rows.mapM f = .ok items)
    (hapart : ∀ b ∈ rows, ∀ b' ∈ rows, b ≠ b' → Apart f b b')
    (sink : Sink) {r : Row} (hr : r ∈ rows) :
    InSink f (applyItems sink items) r := by
  obtain ⟨item, hitem, hfr⟩ := exists_mem_of_mapM hitems hr
  refine ⟨item, hfr, fun a ha => ?_⟩
  refine assignAll_lookup sink items.flatten (List.mem_flatten.mpr ⟨item, hitem, ha⟩) ?_
  intro a' ha' hcell
  obtain ⟨item', hitem', hmem⟩ := List.mem_flatten.mp ha'
  obtain ⟨r', hr', hfr'⟩ := mem_of_mapM hitems hitem'
  by_cases hsame : r = r'
  · subst hsame
    obtain rfl : item = item' := Except.ok.inj (hfr.symm.trans hfr')
    exact hcons r item hfr a' hmem a ha hcell
  · exact absurd hcell.symm (hapart r hr r' hr' hsame item item' hfr hfr' a ha a' hmem)

/-- **A row stays in the sink** while rows with other cells are written. -/
theorem InSink.keep
    {rows : List Row} {items part : List Item} {sink : Sink} {r : Row}
    (h : InSink f sink r)
    (hitems : rows.mapM f = .ok items)
    (hpart : ∀ item ∈ part, item ∈ items)
    (hapart : ∀ b ∈ rows, Apart f r b) :
    InSink f (applyItems sink part) r := by
  obtain ⟨item, hfr, hcells⟩ := h
  refine ⟨item, hfr, fun a ha => ?_⟩
  rw [applyItems, assignAll_of_not_mem]
  · exact hcells a ha
  · intro hmem
    obtain ⟨a', ha', hcell⟩ := List.mem_map.mp hmem
    obtain ⟨item', hitem', hin⟩ := List.mem_flatten.mp ha'
    obtain ⟨b, hb, hfb⟩ := mem_of_mapM hitems (hpart item' hitem')
    exact hapart b hb item item' hfr hfb a ha a' hin hcell.symm

end Items

/-! ## The two writers -/

/-- The key column of every target tells ids of this type apart: two payloads stored under
one key carry the same id. -/
def KeepsIds (τ : IdType) (store : StoreRow) : Prop :=
  ∀ target payload payload' k cols cols' id id',
    store target payload = .ok (k, cols) → payload.lookup "film_id" = some (τ.value id) →
    store target payload' = .ok (k, cols') → payload'.lookup "film_id" = some (τ.value id') →
      id = id'

section Writers

variable {store : StoreRow} {wr : Writer} {target_table : String}

theorem Row.getItem_eq_ok
    {r : Row} {name : String} {v : Value} (h : r.getItem name = .ok v) :
    r.get? name = some v := by
  cases hv : r.get? name with
  | none =>
      rw [Row.getItem, hv] at h
      cases h
  | some v' =>
      rw [Row.getItem, hv] at h
      rw [Except.ok.inj h]

/-- A payload carries the `film_id` of its row. -/
theorem PostgresWriter.lookup_payload
    {target : String} {r : Row} {cols : List (String × Value)}
    (h : PostgresWriter.payload target r = .ok cols) :
    cols.lookup "film_id" = r.get? "film_id" := by
  simp only [PostgresWriter.payload] at h
  split_ifs at h
  · simp only [bind_eq_ok_iff, pure_eq_ok_iff] at h
    obtain ⟨film_id, hid, title, -, rfl⟩ := h
    exact (Row.getItem_eq_ok hid).symm
  · simp only [bind_eq_ok_iff, pure_eq_ok_iff] at h
    obtain ⟨film_id, hid, avg_rating, -, rating_count, -, rfl⟩ := h
    exact (Row.getItem_eq_ok hid).symm

/-- An upsert writes one row, under the key its target stores. -/
theorem PostgresWriter.item_eq_ok
    {target : String} {r : Row} {item : Item}
    (h : PostgresWriter.item store target r = .ok item) :
    ∃ cols k data, PostgresWriter.payload target r = .ok cols ∧
      store target cols = .ok (k, data) ∧ item = [(.row target k, .columns data)] := by
  simp only [PostgresWriter.item, PostgresWriter.upsert, bind_eq_ok_iff, pure_eq_ok_iff] at h
  obtain ⟨cols, hcols, ⟨k, data⟩, hstore, rfl⟩ := h
  exact ⟨cols, k, data, hcols, hstore, rfl⟩

/-- A bulk operation writes the fields of one document. -/
theorem ElasticsearchWriter.item_eq_ok
    {index : String} {r : Row} {item : Item}
    (h : ElasticsearchWriter.item index r = .ok item) :
    ∃ v, r.get? "film_id" = some v ∧
      item = (_normalize_row r).map (fun c => (.field index (_jsonify v).str c.1, .json c.2)) := by
  simp only [ElasticsearchWriter.item, ElasticsearchWriter._id_field_for_index] at h
  cases hid : r.get? "film_id" with
  | none =>
      rw [hid] at h
      cases h
  | some v =>
      rw [hid] at h
      exact ⟨v, rfl, (Except.ok.inj h).symm⟩

/-- The item of a row is one upsert, or one bulk operation on the target's index. -/
theorem Writer.item_cases
    (store : StoreRow) (wr : Writer) (target_table : String) :
    (∃ target, ∀ r item, wr.item store target_table r = .ok item →
        PostgresWriter.item store target r = .ok item) ∨
      ∃ index, ∀ r item, wr.item store target_table r = .ok item →
        ElasticsearchWriter.item index r = .ok item := by
  by_cases hallowed : is_allowed_target (PyText.strip target_table) = true
  · cases wr with
    | postgres =>
        refine Or.inl ⟨PyText.strip target_table, fun r item h => ?_⟩
        simpa only [Writer.item, if_pos hallowed] using h
    | elasticsearch =>
        cases hidx : ElasticsearchWriter._index_from_target (PyText.strip target_table) with
        | error exc =>
            refine Or.inr ⟨"", fun r item h => ?_⟩
            simp only [Writer.item, if_pos hallowed, hidx] at h
            cases h
        | ok index =>
            refine Or.inr ⟨index, fun r item h => ?_⟩
            simp only [Writer.item, if_pos hallowed, hidx] at h
            exact h
  · refine Or.inr ⟨"", fun r item h => ?_⟩
    simp only [Writer.item, if_neg hallowed] at h
    cases h

/-- **The items of both writers are consistent.** -/
theorem Writer.consistent_item
    (store : StoreRow) (wr : Writer) (target_table : String) :
    Consistent (wr.item store target_table) := by
  intro r item hitem a ha a' ha' hcell
  rcases Writer.item_cases store wr target_table with ⟨target, hpg⟩ | ⟨index, hes⟩
  · obtain ⟨cols, k, data, -, -, rfl⟩ := PostgresWriter.item_eq_ok (hpg r item hitem)
    rw [List.mem_singleton.mp ha, List.mem_singleton.mp ha']
  · obtain ⟨v, -, rfl⟩ := ElasticsearchWriter.item_eq_ok (hes r item hitem)
    obtain ⟨c, hc, rfl⟩ := List.mem_map.mp ha
    obtain ⟨c', hc', rfl⟩ := List.mem_map.mp ha'
    have hname : c.1 = c'.1 := (Cell.field.inj hcell).2.2
    rw [List.inj_on_of_nodup_map (_normalize_row_keys_nodup r) hc hc' hname]

variable {τ : IdType} {inc_key id_key : String}

/-- **Rows with different ids go to different cells.** -/
theorem Writer.apart_item
    (hstore : KeepsIds τ store) {r r' : Row}
    (hr : Keyed τ inc_key id_key r) (hr' : Keyed τ inc_key id_key r')
    (hne : r.column (foldIdent id_key) ≠ r'.column (foldIdent id_key)) :
    Apart (wr.item store target_table) r r' := by
  intro item item' hitem hitem' a ha a' ha' hcell
  apply hne
  obtain ⟨id, -, hid⟩ := hr.id
  obtain ⟨id', -, hid'⟩ := hr'.id
  have hget := hr.sink_key
  have hget' := hr'.sink_key
  rw [hid] at hget ⊢
  rw [hid'] at hget' ⊢
  rcases Writer.item_cases store wr target_table with ⟨target, hpg⟩ | ⟨index, hes⟩
  · obtain ⟨cols, k, data, hcols, hk, rfl⟩ := PostgresWriter.item_eq_ok (hpg r item hitem)
    obtain ⟨cols', k', data', hcols', hk', rfl⟩ :=
      PostgresWriter.item_eq_ok (hpg r' item' hitem')
    rw [List.mem_singleton.mp ha, List.mem_singleton.mp ha'] at hcell
    obtain rfl : k = k' := (Cell.row.inj hcell).2
    rw [← PostgresWriter.lookup_payload hcols] at hget
    rw [← PostgresWriter.lookup_payload hcols'] at hget'
    rw [hstore target cols cols' k data data' id id' hk hget hk' hget']
  · obtain ⟨v, hv, rfl⟩ := ElasticsearchWriter.item_eq_ok (hes r item hitem)
    obtain ⟨v', hv', rfl⟩ := ElasticsearchWriter.item_eq_ok (hes r' item' hitem')
    obtain ⟨c, -, rfl⟩ := List.mem_map.mp ha
    obtain ⟨c', -, rfl⟩ := List.mem_map.mp ha'
    have hdoc : (_jsonify v).str = (_jsonify v').str := (Cell.field.inj hcell).2.1
    obtain rfl := Option.some.inj (hv.symm.trans hget)
    obtain rfl := Option.some.inj (hv'.symm.trans hget')
    rw [τ.jsonify_value, τ.jsonify_value] at hdoc
    rw [show id = id' from hdoc]

end Writers

end EtlPlatform
