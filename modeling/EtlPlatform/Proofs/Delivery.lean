import EtlPlatform.Library.Failing
import EtlPlatform.Model.Deployment

/-!
# Delivering batches more than once

Both writers send one item a row, and an item overwrites cells that depend on
nothing but the row: one table row in PostgreSQL, the document's fields in
Elasticsearch.  Whatever parts of some batches earlier attempts have left in
the sink, a complete pass over these batches therefore ends as if they had
never run.
-/

namespace EtlPlatform

section Items

/-- The item a writer sends for one row. -/
def Writer.item (store : StoreRow) (wr : Writer) (target_table : String) (r : Row) :
    Except Exc Item :=
  let target := PyText.strip target_table
  if is_allowed_target target then
    match wr with
    | .postgres => PostgresWriter.item store target r
    | .elasticsearch => do
        let index ← ElasticsearchWriter._index_from_target target
        ElasticsearchWriter.item index r
  else .error (valueError ("target_table '" ++ target ++ "' is not allowed"))

/-- **A write that returns is one item a row.** -/
theorem Writer.write_eq_ok_iff
    {store : StoreRow} {wr : Writer} {target_table : String} {rows : List Row}
    {items : List Item} :
    wr.write store target_table rows = .ok items ↔
      rows.mapM (wr.item store target_table) = .ok items := by
  by_cases hnil : rows = []
  · subst hnil
    cases wr <;> rfl
  · by_cases hallowed : is_allowed_target (PyText.strip target_table) = true
    · cases wr with
      | postgres =>
          have hitem : Writer.postgres.item store target_table =
              PostgresWriter.item store (PyText.strip target_table) := by
            funext r
            simp [Writer.item, hallowed]
          simp only [Writer.write, PostgresWriter.write, if_neg hnil, if_pos hallowed, hitem]
          exact Library.mapM_bind_mapM_eq_ok_iff
      | elasticsearch =>
          simp only [Writer.write, ElasticsearchWriter.write, if_neg hnil, if_pos hallowed]
          cases hidx : ElasticsearchWriter._index_from_target (PyText.strip target_table) with
          | ok index =>
              have hitem : Writer.elasticsearch.item store target_table =
                  ElasticsearchWriter.item index := by
                funext r
                simp only [Writer.item, if_pos hallowed, hidx]
                rfl
              rw [hitem]
              rfl
          | error exc =>
              have hitem : ∀ r, Writer.elasticsearch.item store target_table r = .error exc := by
                intro r
                simp only [Writer.item, if_pos hallowed, hidx]
                rfl
              rw [Library.mapM_eq_error hitem hnil]
              rfl
    · have hitem : ∀ r, wr.item store target_table r = .error
          (valueError ("target_table '" ++ PyText.strip target_table ++ "' is not allowed")) := by
        intro r
        simp [Writer.item, hallowed]
      rw [Library.mapM_eq_error hitem hnil]
      cases wr <;>
        simp [Writer.write, PostgresWriter.write, ElasticsearchWriter.write, hnil, hallowed]

/-- Applying items absorbs whatever some of them did before. -/
theorem applyItems_absorb
    (s : Sink) {done items : List Item}
    (h : ∀ item ∈ done, item ∈ items) :
    applyItems (applyItems s done) items = applyItems s items := by
  refine Library.assignAll_absorb s done.flatten items.flatten ?_
  intro w hw
  obtain ⟨item, hitem, hmem⟩ := List.mem_flatten.mp hw
  exact List.mem_map_of_mem (List.mem_flatten.mpr ⟨item, h item hitem, hmem⟩)

end Items

section Passes

/-- One complete pass: the writer writes the batches in order, each to its end. -/
def pass (store : StoreRow) (wr : Writer) (target_table : String) :
    Sink → List (List Row) → Except Exc Sink
  | s, [] => .ok s
  | s, rows :: batches => do
      let items ← wr.write store target_table rows
      pass store wr target_table (applyItems s items) batches

/-- The upserts of the rows of the batches, in order; a row that has none is skipped. -/
def upserts (store : StoreRow) (wr : Writer) (target_table : String)
    (batches : List (List Row)) : List Item :=
  batches.flatten.filterMap (fun r => (wr.item store target_table r).toOption)

variable {store : StoreRow} {wr : Writer} {target_table : String}

/-- A pass applies what the writer sends for all batches at once. -/
theorem pass_eq
    (s : Sink) (batches : List (List Row)) :
    pass store wr target_table s batches =
      (batches.mapM (wr.write store target_table)).map (fun sent => applyItems s sent.flatten) := by
  induction batches generalizing s with
  | nil =>
      rfl
  | cons rows batches ih =>
      rw [pass, List.mapM_cons]
      cases wr.write store target_table rows with
      | error exc =>
          rfl
      | ok items =>
          change pass store wr target_table (applyItems s items) batches = _
          rw [ih]
          cases batches.mapM (wr.write store target_table) with
          | error exc =>
              simp only [bind, Except.bind, Except.map]
          | ok rest =>
              simp only [bind, Except.bind, Except.map, pure, Except.pure,
                List.flatten_cons, applyItems_append]

/-- What the writer sends are the upserts of the rows. -/
theorem upserts_of_write
    {batches : List (List Row)} {sent : List (List Item)}
    (h : batches.mapM (wr.write store target_table) = .ok sent) :
    upserts store wr target_table batches = sent.flatten := by
  refine Library.filterMap_of_mapM ?_
  rw [Library.mapM_eq_ok_iff] at h ⊢
  exact List.rel_flatten (h.imp fun rows items hwrite =>
    Library.mapM_eq_ok_iff.mp (Writer.write_eq_ok_iff.mp hwrite))

/-- Several interrupted attempts do what one longer attempt does. -/
theorem foldl_applyItems
    (s : Sink) (attempts : List (List Item)) :
    attempts.foldl applyItems s = applyItems s attempts.flatten := by
  induction attempts generalizing s with
  | nil =>
      rfl
  | cons items attempts ih =>
      rw [List.foldl_cons, ih, List.flatten_cons, applyItems_append]

/--
**Replays converge.**  After any number of interrupted attempts, each of which
applied some of the upserts of the batches in order, a complete pass leaves the
sink as a single complete pass would have.
-/
theorem pass_after_interrupted_attempts
    (store : StoreRow) (wr : Writer) (target_table : String) (s : Sink)
    (batches : List (List Row)) (attempts : List (List Item))
    (h : ∀ items ∈ attempts, items.Sublist (upserts store wr target_table batches)) :
    pass store wr target_table (attempts.foldl applyItems s) batches =
      pass store wr target_table s batches := by
  rw [pass_eq, pass_eq, foldl_applyItems]
  cases hsent : batches.mapM (wr.write store target_table) with
  | error exc =>
      rfl
  | ok sent =>
      have hups : upserts store wr target_table batches = sent.flatten := upserts_of_write hsent
      refine congrArg Except.ok (applyItems_absorb s (fun item hitem => ?_))
      obtain ⟨attempt, hattempt, hmem⟩ := List.mem_flatten.mp hitem
      exact hups ▸ (h attempt hattempt).subset hmem

/-- A second version of `filmExample`, in the same batch. -/
def filmRevised : Row :=
  filmRow "f1" "Alien (1979)" (january 2 (by decide))

/-- An attempt that got as far as the first of two versions of a film, in either sink. -/
theorem pass_after_first_version_only :
    pass storeAsGiven .postgres "analytics.film_dim"
        ([upserts storeAsGiven .postgres "analytics.film_dim" [[filmExample]]].foldl applyItems
          (fun _ => none)) [[filmExample, filmRevised]] =
      pass storeAsGiven .postgres "analytics.film_dim" (fun _ => none)
        [[filmExample, filmRevised]] ∧
    pass storeAsGiven .elasticsearch "es:film_dim"
        ([upserts storeAsGiven .elasticsearch "es:film_dim" [[filmExample]]].foldl applyItems
          (fun _ => none)) [[filmExample, filmRevised]] =
      pass storeAsGiven .elasticsearch "es:film_dim" (fun _ => none)
        [[filmExample, filmRevised]] := by
  constructor
  · exact pass_after_interrupted_attempts _ _ _ _ _ _ (by decide)
  · exact pass_after_interrupted_attempts _ _ _ _ _ _ (by decide)

end Passes

end EtlPlatform
