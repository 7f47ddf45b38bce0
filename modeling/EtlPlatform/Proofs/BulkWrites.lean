import EtlPlatform.Model.SearchClient
import EtlPlatform.Proofs.AllowedTargets
import EtlPlatform.Proofs.TransformIsolation

/-!
# A bulk write is one statement

To a runner process the write of a batch is one statement, answered at once.  In
truth `ElasticsearchWriter.write` is a conversation with the cluster, and others
may write to it between any two calls.  Whatever the cluster answers, the
documents change in one moment, when the bulk request is served; what the writer
returns or raises is one of the answers the process model knows, and that moment
is its step.

Over its life a writer holds at most one client, creates an index at most once
and never without a mapping, and leaves no index to be made up by the cluster.
-/

namespace EtlPlatform
namespace SearchClient

open Library

/-! ## Rules for methods -/

section Rules

variable {others : Sink → Sink → Prop} {α β : Type} {x : WriterM α} {f : α → WriterM β}
variable {self : ESWriter} {c : Cluster}

/-- Whatever the cluster answers, the method ends as `post` says. -/
structure Ends (others : Sink → Sink → Prop) (x : WriterM α) (writer : ESWriter) (c : Cluster)
    (post : Except Exc α → ESWriter → Cluster → Prop) : Prop where
  always : Always (Serves others) (x.run.run writer) (fun r => post r.1 r.2) c

/-- The rest of a method, unless an exception has ended it. -/
def Rest (others : Sink → Sink → Prop) (f : α → WriterM β)
    (post : Except Exc β → ESWriter → Cluster → Prop) (res : Except Exc α) (self : ESWriter)
    (c : Cluster) : Prop :=
  (∀ a, res = .ok a → Ends others (f a) self c post) ∧
    ∀ exc, res = .error exc → post (.error exc) self c

variable {post : Except Exc β → ESWriter → Cluster → Prop}
variable {postα postα' : Except Exc α → ESWriter → Cluster → Prop}

theorem Ends.bind
    (h : Ends others x self c (Rest others f post)) :
    Ends others (x >>= f) self c post := by
  refine ⟨Always.bind (Always.mono h.always ?_)⟩
  rintro ⟨res, self'⟩ c' ⟨hok, herror⟩
  cases res with
  | ok a =>
      exact (hok a rfl).always
  | error exc =>
      exact herror exc rfl

theorem Ends.mono
    (h : Ends others x self c postα)
    (himp : ∀ res self' c', postα res self' c' → postα' res self' c') :
    Ends others x self c postα' :=
  ⟨Always.mono h.always fun r c' => himp r.1 r.2 c'⟩

theorem Ends.pure
    {a : α} (h : postα (.ok a) self c) :
    Ends others (pure a) self c postα :=
  ⟨h⟩

theorem Ends.throw
    {exc : Exc} (h : postα (.error exc) self c) :
    Ends others (throw exc) self c postα :=
  ⟨h⟩

theorem Ends.ite
    {q : Prop} [Decidable q] {y : WriterM α} (hpos : q → Ends others x self c postα)
    (hneg : ¬ q → Ends others y self c postα) :
    Ends others (if q then x else y) self c postα := by
  by_cases hq : q
  · rw [if_pos hq]
    exact hpos hq
  · rw [if_neg hq]
    exact hneg hq

theorem Ends.liftExcept
    {e : Except Exc α} (h : postα e self c) :
    Ends others (liftExcept e) self c postα := by
  cases e <;> exact ⟨h⟩

theorem Ends.get
    {g : ESWriter → WriterM β} (h : Ends others (g self) self c post) :
    Ends others (get >>= g) self c post :=
  ⟨h.always⟩

theorem Ends.modify
    {g : ESWriter → ESWriter} {post : Except Exc Unit → ESWriter → Cluster → Prop}
    (h : post (.ok ()) (g self) c) :
    Ends others (modify g) self c post :=
  ⟨h⟩

/-- A call ends as it is served. -/
theorem Ends.call
    {req : Request} {post : req.Answer → ESWriter → Cluster → Prop}
    (h : ∀ ans c', Serves others c req ans c' → post ans self c') :
    Ends others (call req) self c post :=
  ⟨h⟩

/-- The rest of a method after a statement that cannot fail. -/
theorem Rest.ok
    {a : α} (h : Ends others (f a) self c post) :
    Rest others f post (.ok a) self c := by
  refine ⟨fun a' ha => ?_, by rintro exc ⟨⟩⟩
  obtain rfl := Except.ok.inj ha
  exact h

theorem Rest.error
    {exc : Exc} (h : post (.error exc) self c) :
    Rest others f post (.error exc) self c := by
  refine ⟨by rintro a ⟨⟩, fun exc' he => ?_⟩
  obtain rfl := Except.error.inj he
  exact h

end Rules

/-! ## The operations of a bulk request -/

section Encoding

theorem lookup_normalize_row
    (r : Row) (name : String) :
    (_normalize_row r).lookup name = (r.get? name).map _jsonify := by
  rw [_normalize_row, Row.get?]
  induction r.cells with
  | nil =>
      rfl
  | cons cell cells ih =>
      rw [List.map_cons, List.lookup_cons, List.lookup_cons, ih]
      cases name == cell.1 <;> rfl

/-- The operations of a row say what its item says, and fail as it does. -/
theorem operations_cases
    (index : String) (r : Row) :
    (∃ exc, operations index (ElasticsearchWriter._id_field_for_index index) r = .error exc ∧
        ElasticsearchWriter.item index r = .error exc) ∨
      ∃ _id, operations index (ElasticsearchWriter._id_field_for_index index) r =
          .ok [.update index _id, .doc (_normalize_row r) true] ∧
        ElasticsearchWriter.item index r =
          .ok ((_normalize_row r).map fun c => (.field index _id c.1, .json c.2)) := by
  have hkeys : (_normalize_row r).map (fun c => "'" ++ c.1 ++ "'") =
      r.keys.map (fun k => "'" ++ k ++ "'") := by
    simp [_normalize_row, Row.keys]
  unfold operations ElasticsearchWriter.item
  dsimp only
  rw [lookup_normalize_row]
  cases r.get? (ElasticsearchWriter._id_field_for_index index) with
  | none =>
      refine Or.inl ⟨_, rfl, ?_⟩
      rw [hkeys]
  | some v =>
      exact Or.inr ⟨_, rfl, rfl⟩

/-- **What is sent is what is meant**: the operations of the rows are decoded to their items. -/
theorem decodeBulk_operations
    {index : String} {rows : List Row} {ops : List (List Operation)}
    (h : rows.mapM (operations index (ElasticsearchWriter._id_field_for_index index)) = .ok ops) :
    ∃ items, rows.mapM (ElasticsearchWriter.item index) = .ok items ∧
      decodeBulk ops.flatten = some (items.map fun item => (index, item)) ∧
      items.length = rows.length := by
  induction rows generalizing ops with
  | nil =>
      obtain rfl := Except.ok.inj h
      exact ⟨[], rfl, rfl, rfl⟩
  | cons r rows ih =>
      obtain ⟨op, hop, rest, hrest, rfl⟩ := mapM_cons_eq_ok_iff.mp h
      obtain ⟨items, hitems, hdecode, hlength⟩ := ih hrest
      rcases operations_cases index r with ⟨exc, herror, -⟩ | ⟨_id, hops, hitem⟩
      · rw [herror] at hop
        cases hop
      · obtain rfl := Except.ok.inj (hops.symm.trans hop)
        refine ⟨_ :: items, mapM_cons_eq_ok_iff.mpr ⟨_, hitem, items, hitems, rfl⟩, ?_, ?_⟩
        · simp [decodeBulk, hdecode]
        · simp [hlength]

/-- The updates that are marked are the items that are marked. -/
theorem updates_marked
    (index : String) (items : List Item) (marks : List Bool) :
    ((((items.map fun item => (index, item)).zip marks).filter Prod.snd).map fun u => u.1.2) =
      maskItems marks items := by
  induction marks generalizing items with
  | nil =>
      simp [maskItems]
  | cons mark marks ih =>
      cases items with
      | nil =>
          cases mark <;> rfl
      | cons item items =>
          cases mark <;> simp [maskItems, ih]

theorem maskItems_all
    {marks : List Bool} {items : List Item} (hlength : marks.length = items.length)
    (hall : ∀ mark ∈ marks, mark = true) :
    maskItems marks items = items := by
  induction marks generalizing items with
  | nil =>
      rw [List.length_nil, eq_comm, List.length_eq_zero_iff] at hlength
      rw [hlength]
      rfl
  | cons mark marks ih =>
      cases items with
      | nil =>
          cases hlength
      | cons item items =>
          obtain ⟨rfl, hrest⟩ := List.forall_mem_cons.mp hall
          rw [maskItems, ih (Nat.succ.inj hlength) hrest]

/-- The index of an allowed target is on the allowlist. -/
theorem index_of_allowed
    {target_table index : String} (hallowed : is_allowed_target (PyText.strip target_table) = true)
    (hindex : ElasticsearchWriter._index_from_target (PyText.strip target_table) = .ok index) :
    index ∈ ALLOWED_ES_INDEXES := by
  rw [is_allowed_target_strip, is_allowed_target_iff, destinationOf] at hallowed
  unfold ElasticsearchWriter._index_from_target at hindex
  generalize PyText.strip target_table = target at hallowed hindex
  by_cases hpre : PyText.startswith target ES_TARGET_PREFIX = true
  · rw [if_pos hpre] at hallowed hindex
    dsimp only at hindex
    generalize PyText.strip (PyText.removeprefix target ES_TARGET_PREFIX) = name at hallowed hindex
    by_cases hempty : name = ""
    · rw [if_pos hempty] at hindex
      cases hindex
    · rw [if_neg hempty] at hindex
      obtain rfl := Except.ok.inj hindex
      exact hallowed
  · rw [if_neg hpre] at hindex
    cases hindex

/-- No index of the allowlist is left to the fallback. -/
theorem mappings_explicit :
    ∀ index ∈ ALLOWED_ES_INDEXES, _mappings_for_index index ≠ .dynamic := by
  decide

end Encoding

/-! ## A cluster that answers -/

/-- A cluster that serves every request it can, and carries out the updates it takes. -/
def Cluster.respond (takes : Item → Bool) (c : Cluster) : (req : Request) → req.Answer × Cluster
  | .connect _ _ _ =>
      (.ok c.nextClient,
        { c with connected := c.nextClient :: c.connected, nextClient := c.nextClient + 1 })
  | .indexExists _ index => (.ok (c.indices index).isSome, c)
  | .createIndex _ index mappings =>
      if c.indices index = none then
        (.ok (), { c with
          indices := Function.update c.indices index (some mappings)
          created := c.created ++ [(index, mappings)] })
      else
        (.error { cls := .other, name := "BadRequestError", msg := "index exists" }, c)
  | .bulk _ ops _ =>
      match decodeBulk ops with
      | none => (.error { cls := .other, name := "BadRequestError", msg := "malformed" }, c)
      | some updates =>
          let results := updates.map (fun u => ⟨"", !takes u.2⟩)
          (.ok { errors := results.any OperationResult.error
                 items := results.map (fun r => [("update", r)]) },
            c.update updates (results.map (fun r => !r.error)))
  | .close client => (.ok (), { c with connected := c.connected.erase client })

theorem meanwhile_refl
    (others : Sink → Sink → Prop) (c : Cluster) :
    Meanwhile others c c :=
  ⟨.refl, fun _ h => h, rfl, rfl, rfl, rfl⟩

theorem serves_respond
    (others : Sink → Sink → Prop) (takes : Item → Bool) (c : Cluster) (req : Request) :
    Serves others c req (c.respond takes req).1 (c.respond takes req).2 := by
  have hsame := meanwhile_refl others c
  cases req with
  | connect hosts auth timeout =>
      exact .served hsame .connect
  | indexExists client index =>
      exact .served hsame .indexExists
  | createIndex client index mappings =>
      simp only [Cluster.respond]
      split_ifs with hmissing
      · exact .served hsame (.createIndex hmissing)
      · exact .failed _ hsame
  | bulk client ops refresh =>
      simp only [Cluster.respond]
      cases hdecode : decodeBulk ops with
      | none =>
          exact .failed _ hsame
      | some updates =>
          exact .served hsame (.bulk hdecode (by simp))
  | close client =>
      exact .served hsame .close

/-- An empty cluster. -/
def Cluster.fresh : Cluster where
  sink _ := none
  indices _ := none
  connected := []
  nextClient := 0
  created := []
  automatic := []

def localConfig : ESConfig where
  url := "http://localhost:9200"
  user := none
  password := none
  timeout := 10

/-! ## What a writer keeps -/

section Life

variable {others : Sink → Sink → Prop} {base c c' : Cluster} {self : ESWriter}

/-- What holds between two calls of a writer that was made when the cluster was `base`. -/
structure Kept (base : Cluster) (writer : ESWriter) (c : Cluster) : Prop where
  grown : ∀ index, (base.indices index).isSome → (c.indices index).isSome
  ensured : ∀ index ∈ writer._ensured, (c.indices index).isSome
  connected : c.connected = base.connected ∨
    ∃ client, writer._client = some client ∧ c.connected = client :: base.connected
  own : ∀ client, writer._client = some client → client ∉ base.connected
  numbers : ∀ client ∈ base.connected, client < c.nextClient
  automatic : c.automatic = base.automatic
  created : ∃ mine, c.created = base.created ++ mine ∧ (mine.map Prod.fst).Nodup ∧
    ∀ x ∈ mine, x.1 ∈ ALLOWED_ES_INDEXES ∧ x.2 = _mappings_for_index x.1 ∧
      base.indices x.1 = none ∧ (c.indices x.1).isSome

theorem kept_new
    (cfg : ESConfig) (hnumbers : ∀ client ∈ base.connected, client < base.nextClient) :
    Kept base (ESWriter.new cfg) base := by
  refine ⟨fun _ h => h, by rintro index ⟨⟩, Or.inl rfl, by rintro client ⟨⟩, hnumbers, rfl, [], ?_⟩
  simp

/-- Others do not disturb a writer. -/
theorem Kept.meanwhile
    (h : Kept base self c) (hothers : Meanwhile others c c') :
    Kept base self c' := by
  obtain ⟨mine, hcreated, hnodup, hmine⟩ := h.created
  refine ⟨fun index hindex => hothers.indices index (h.grown index hindex),
    fun index hindex => hothers.indices index (h.ensured index hindex), ?_, h.own, ?_, ?_,
    mine, ?_, hnodup, fun x hx => ?_⟩
  · rw [hothers.connected]
    exact h.connected
  · rw [hothers.nextClient]
    exact h.numbers
  · rw [hothers.automatic]
    exact h.automatic
  · rw [hothers.created]
    exact hcreated
  · obtain ⟨hallowed, hmapping, hnew, hthere⟩ := hmine x hx
    exact ⟨hallowed, hmapping, hnew, hothers.indices x.1 hthere⟩

/-- The first client. -/
theorem Kept.opened
    (h : Kept base self c) (hnone : self._client = none) :
    Kept base { self with _client := some c.nextClient }
      { c with connected := c.nextClient :: c.connected, nextClient := c.nextClient + 1 } := by
  refine ⟨h.grown, h.ensured, Or.inr ⟨c.nextClient, rfl, ?_⟩, fun client hclient hmem => ?_,
    fun client hclient => (h.numbers client hclient).trans (Nat.lt_succ_self _), h.automatic,
    h.created⟩
  · rcases h.connected with hsame | ⟨client, hclient, -⟩
    · change c.nextClient :: c.connected = _
      rw [hsame]
    · rw [hnone] at hclient
      cases hclient
  · obtain rfl := Option.some.inj hclient
    exact absurd (h.numbers _ hmem) (lt_irrefl _)

/-- The client is closed, whether the writer learns of it or not. -/
theorem Kept.closed
    (h : Kept base self c) {client : ℕ} (hclient : self._client = some client) :
    Kept base self { c with connected := c.connected.erase client } ∧
      Kept base { self with _client := none } { c with connected := c.connected.erase client } := by
  have hleft : c.connected.erase client = base.connected := by
    rcases h.connected with hsame | ⟨client', hclient', hopen⟩
    · rw [hsame]
      exact List.erase_of_not_mem (h.own client hclient)
    · obtain rfl := Option.some.inj (hclient.symm.trans hclient')
      rw [hopen, List.erase_cons_head]
  refine ⟨⟨h.grown, h.ensured, Or.inl hleft, h.own, h.numbers, h.automatic, h.created⟩,
    ⟨h.grown, h.ensured, Or.inl hleft, by rintro _ ⟨⟩, h.numbers, h.automatic, h.created⟩⟩

/-- A missing index is created. -/
theorem Kept.indexed
    (h : Kept base self c) {index : String} (hallowed : index ∈ ALLOWED_ES_INDEXES)
    (hmissing : c.indices index = none) :
    Kept base self { c with
      indices := Function.update c.indices index (some (_mappings_for_index index))
      created := c.created ++ [(index, _mappings_for_index index)] } := by
  have hgrows : ∀ i, (c.indices i).isSome →
      (Function.update c.indices index (some (_mappings_for_index index)) i).isSome := by
    intro i hi
    by_cases heq : i = index
    · rw [heq, Function.update_self]
      rfl
    · rw [Function.update_of_ne heq]
      exact hi
  obtain ⟨mine, hcreated, hnodup, hmine⟩ := h.created
  refine ⟨fun i hi => hgrows i (h.grown i hi), fun i hi => hgrows i (h.ensured i hi), h.connected,
    h.own, h.numbers, h.automatic, mine ++ [(index, _mappings_for_index index)], ?_, ?_, ?_⟩
  · change c.created ++ _ = _
    rw [hcreated, List.append_assoc]
  · rw [List.map_append, List.nodup_append]
    refine ⟨hnodup, List.nodup_singleton _, ?_⟩
    rintro i hi _ hlast rfl
    obtain ⟨x, hx, rfl⟩ := List.mem_map.mp hi
    have hthere := (hmine x hx).2.2.2
    rw [List.mem_singleton.mp hlast, hmissing] at hthere
    cases hthere
  · intro x hx
    rcases List.mem_append.mp hx with hx | hx
    · obtain ⟨hin, hmapping, hnew, hthere⟩ := hmine x hx
      exact ⟨hin, hmapping, hnew, hgrows _ hthere⟩
    · obtain rfl := List.mem_singleton.mp hx
      refine ⟨hallowed, rfl, ?_, ?_⟩
      · by_contra hold
        have hthere := h.grown index (Option.isSome_iff_ne_none.mpr hold)
        rw [hmissing] at hthere
        cases hthere
      · change (Function.update c.indices index _ index).isSome = true
        rw [Function.update_self]
        rfl

/-- A bulk request for indexes that exist creates none. -/
theorem Kept.updated
    (h : Kept base self c) {updates : List (String × Item)}
    (hthere : ∀ u ∈ updates, (c.indices u.1).isSome) (marks : List Bool) :
    Kept base self (c.update updates marks) := by
  have hsame : (c.update updates marks).indices = c.indices := by
    funext index
    change (if _ then _ else _) = _
    split_ifs with hmem
    · obtain ⟨u, hu, rfl⟩ := List.mem_map.mp hmem
      obtain ⟨m, hm⟩ := Option.isSome_iff_exists.mp (hthere u hu)
      rw [hm]
      rfl
    · rfl
  have hnone : (c.update updates marks).automatic = c.automatic := by
    change c.automatic ++ (updates.map Prod.fst).filter _ = _
    rw [List.filter_eq_nil_iff.mpr, List.append_nil]
    intro index hindex
    obtain ⟨u, hu, rfl⟩ := List.mem_map.mp hindex
    have hu' := hthere u hu
    cases hi : c.indices u.1 with
    | none =>
        rw [hi] at hu'
        cases hu'
    | some m =>
        simp
  refine ⟨?_, ?_, h.connected, h.own, h.numbers, hnone.trans h.automatic, ?_⟩
  · rw [hsame]
    exact h.grown
  · rw [hsame]
    exact h.ensured
  · rw [hsame]
    exact h.created

/-! ## What each method does -/

/-- A call is not served, or it is served and its answer arrives or is lost. -/
theorem serves_cases
    {req : Request} {ans : req.Answer} (h : Serves others c req ans c') :
    ∃ c₁, Meanwhile others c c₁ ∧
      ((∃ exc, ans = .error exc) ∧ c' = c₁ ∨
        ∃ res, Served c₁ req res c' ∧ (ans = .ok res ∨ req.remote ∧ ∃ exc, ans = .error exc)) := by
  cases h with
  | failed exc hothers =>
      exact ⟨c', hothers, Or.inl ⟨⟨exc, rfl⟩, rfl⟩⟩
  | served hothers hserved =>
      exact ⟨_, hothers, Or.inr ⟨_, hserved, Or.inl rfl⟩⟩
  | lost exc hremote hothers hserved =>
      exact ⟨_, hothers, Or.inr ⟨_, hserved, Or.inr ⟨hremote, exc, rfl⟩⟩⟩

/-- What a method other than `write` leaves: the writer is in order, and only others have written
documents. -/
structure Aside (others : Sink → Sink → Prop) (base c : Cluster) (writer : ESWriter)
    (c' : Cluster) : Prop where
  kept : Kept base writer c'
  sink : Relation.ReflTransGen others c.sink c'.sink

theorem get_client_ends
    (h : Kept base self c) :
    Ends others _get_client self c (fun _ self' c' => Aside others base c self' c') := by
  refine Ends.get ?_
  cases hclient : self._client with
  | some client =>
      exact Ends.pure ⟨h, .refl⟩
  | none =>
      refine Ends.bind (Ends.call fun ans c' hserves => ?_)
      obtain ⟨c₁, hothers, ⟨⟨exc, rfl⟩, rfl⟩ | ⟨res, hserved, hans⟩⟩ := serves_cases hserves
      · exact Rest.error ⟨h.meanwhile hothers, hothers.sink⟩
      · cases hserved
        rcases hans with rfl | ⟨hremote, -⟩
        · exact Rest.ok ⟨(h.meanwhile hothers).opened hclient, hothers.sink⟩
        · exact hremote.elim

theorem close_ends
    (h : Kept base self c) :
    Ends others close self c (fun res self' c' => Aside others base c self' c' ∧
      (res = .ok () → self'._client = none)) := by
  refine Ends.get ?_
  cases hclient : self._client with
  | none =>
      exact Ends.pure ⟨⟨h, .refl⟩, fun _ => hclient⟩
  | some client =>
      refine Ends.bind (Ends.call fun ans c' hserves => ?_)
      obtain ⟨c₁, hothers, ⟨⟨exc, rfl⟩, rfl⟩ | ⟨res, hserved, hans⟩⟩ := serves_cases hserves
      · exact Rest.error ⟨⟨h.meanwhile hothers, hothers.sink⟩, by rintro ⟨⟩⟩
      · cases hserved
        obtain ⟨hlost, hclosed⟩ := (h.meanwhile hothers).closed hclient
        rcases hans with rfl | ⟨-, exc, rfl⟩
        · exact Rest.ok ⟨⟨hclosed, hothers.sink⟩, fun _ => rfl⟩
        · exact Rest.error ⟨⟨hlost, hothers.sink⟩, by rintro ⟨⟩⟩

/-- After `_ensure_index` the index is there. -/
theorem ensure_index_ends
    (h : Kept base self c) {client : ℕ} {index : String} (hallowed : index ∈ ALLOWED_ES_INDEXES) :
    Ends others (_ensure_index client index) self c (fun res self' c' =>
      self' = self ∧ Aside others base c self' c' ∧
        (res = .ok () → (c'.indices index).isSome)) := by
  refine Ends.bind (Ends.call fun ans c' hserves => ?_)
  obtain ⟨c₁, hothers, ⟨⟨exc, rfl⟩, rfl⟩ | ⟨res, hserved, hans⟩⟩ := serves_cases hserves
  · exact Rest.error ⟨rfl, ⟨h.meanwhile hothers, hothers.sink⟩, by rintro ⟨⟩⟩
  · cases hserved
    have hkept := h.meanwhile hothers
    rcases hans with rfl | ⟨-, exc, rfl⟩
    · refine Rest.ok ?_
      cases hfound : (c'.indices index).isSome with
      | true =>
          exact Ends.pure ⟨rfl, ⟨hkept, hothers.sink⟩, fun _ => hfound⟩
      | false =>
          refine Ends.call fun ans c'' hserves => ?_
          obtain ⟨c₂, hothers₂, hcases⟩ := serves_cases hserves
          have hkept₂ := hkept.meanwhile hothers₂
          have hsink := hothers.sink.trans hothers₂.sink
          rcases hcases with ⟨⟨exc, rfl⟩, rfl⟩ | ⟨res, hserved, -⟩
          · exact ⟨rfl, ⟨hkept₂, hsink⟩, by rintro ⟨⟩⟩
          · cases hserved with
            | createIndex hmissing =>
                refine ⟨rfl, ⟨hkept₂.indexed hallowed hmissing, hsink⟩, fun _ => ?_⟩
                change (Function.update c₂.indices index _ index).isSome = true
                rw [Function.update_self]
                rfl
    · exact Rest.error ⟨rfl, ⟨hkept, hothers.sink⟩, by rintro ⟨⟩⟩

/-- What a write has done to the documents, in one moment, and what it returns or raises. -/
inductive Wrote (target_table : String) (rows : List Row) : Except Exc ℕ → Sink → Sink → Prop
  | not (exc : Exc) (sink : Sink) :
      Wrote target_table rows (.error exc) sink sink
  | all {items : List Item} (sink : Sink) :
      ElasticsearchWriter.write target_table rows = .ok items →
      items.length = rows.length →
      Wrote target_table rows (.ok rows.length) sink (applyItems sink items)
  | some {items : List Item} (exc : Exc) (marks : List Bool) (sink : Sink) :
      ElasticsearchWriter.write target_table rows = .ok items →
      Wrote target_table rows (.error exc) sink (applyItems sink (maskItems marks items))

/-- What a write leaves: the writer is in order, and besides others it has written once. -/
structure Written (others : Sink → Sink → Prop) (base c : Cluster) (target_table : String)
    (rows : List Row) (res : Except Exc ℕ) (writer : ESWriter) (c' : Cluster) : Prop where
  kept : Kept base writer c'
  wrote : ∃ sink, Relation.ReflTransGen others c.sink sink ∧
    Wrote target_table rows res sink c'.sink

theorem Aside.written
    {c'' : Cluster} {target_table : String} {rows : List Row} {exc : Exc}
    (hsink : Relation.ReflTransGen others c.sink c'.sink) (h : Aside others base c' self c'') :
    Written others base c target_table rows (.error exc) self c'' :=
  ⟨h.kept, c''.sink, hsink.trans h.sink, .not exc _⟩

/-- **The bulk request** is the moment of the write. -/
theorem bulk_ends
    (h : Kept base self c) {target_table index : String} {rows : List Row} {client : ℕ}
    {ops : List (List Operation)} (hthere : (c.indices index).isSome)
    (hops : rows.mapM (operations index (ElasticsearchWriter._id_field_for_index index)) = .ok ops)
    (hwrite : ElasticsearchWriter.write target_table rows =
      rows.mapM (ElasticsearchWriter.item index)) :
    Ends others (do
        let resp : BulkResponse ← call (.bulk client ops.flatten false)
        if resp.errors then throw (bulkError resp)
        return rows.length) self c
      (Written others base c target_table rows) := by
  obtain ⟨items, hitems, hdecode, hlength⟩ := decodeBulk_operations hops
  rw [hitems] at hwrite
  refine Ends.bind (Ends.call fun ans c' hserves => ?_)
  obtain ⟨c₁, hothers, ⟨⟨exc, rfl⟩, rfl⟩ | ⟨res, hserved, hans⟩⟩ := serves_cases hserves
  · exact Rest.error ⟨h.meanwhile hothers, _, hothers.sink, .not exc _⟩
  · cases hserved with
    | @bulk _ _ _ updates results hdecode' hresults =>
        obtain rfl := Option.some.inj (hdecode.symm.trans hdecode')
        rw [List.length_map] at hresults
        have hkept : Kept base self (c₁.update (items.map fun item => (index, item))
            (results.map fun r => !r.error)) := by
          refine (h.meanwhile hothers).updated (fun u hu => ?_) _
          obtain ⟨item, -, rfl⟩ := List.mem_map.mp hu
          exact hothers.indices index hthere
        have hsink : (c₁.update (items.map fun item => (index, item))
            (results.map fun r => !r.error)).sink =
            applyItems c₁.sink (maskItems (results.map fun r => !r.error) items) := by
          rw [← updates_marked index]
          rfl
        rcases hans with rfl | ⟨-, exc, rfl⟩
        · refine Rest.ok ?_
          dsimp only
          by_cases herrors : results.any OperationResult.error = true
          · rw [if_pos herrors]
            refine Ends.bind (Ends.throw (Rest.error ⟨hkept, c₁.sink, hothers.sink, ?_⟩))
            rw [hsink]
            exact .some _ _ _ hwrite
          · rw [if_neg herrors]
            refine Ends.pure ⟨hkept, c₁.sink, hothers.sink, ?_⟩
            rw [hsink, maskItems_all]
            · exact .all _ hwrite hlength
            · rw [List.length_map, hresults]
            · intro mark hmark
              obtain ⟨r, hr, rfl⟩ := List.mem_map.mp hmark
              have hnone := List.any_eq_false.mp (Bool.eq_false_iff.mpr herrors) r hr
              simpa using hnone
        · refine Rest.error ⟨hkept, c₁.sink, hothers.sink, ?_⟩
          rw [hsink]
          exact .some _ _ _ hwrite

theorem Written.after
    {c₁ : Cluster} {target_table : String} {rows : List Row} {res : Except Exc ℕ}
    (h : Written others base c₁ target_table rows res self c')
    (hsink : Relation.ReflTransGen others c.sink c₁.sink) :
    Written others base c target_table rows res self c' := by
  obtain ⟨sink, hothers, hwrote⟩ := h.wrote
  exact ⟨h.kept, sink, hsink.trans hothers, hwrote⟩

/-- The rows are encoded and sent to an index that is there. -/
theorem send_ends
    (h : Kept base self c) {target_table index : String} {rows : List Row} (client : ℕ)
    (hthere : (c.indices index).isSome)
    (hwrite : ElasticsearchWriter.write target_table rows =
      rows.mapM (ElasticsearchWriter.item index)) :
    Ends others (do
        let ops ← liftExcept
          (rows.mapM (operations index (ElasticsearchWriter._id_field_for_index index)))
        let resp : BulkResponse ← call (.bulk client ops.flatten false)
        if resp.errors then throw (bulkError resp)
        return rows.length) self c
      (Written others base c target_table rows) := by
  refine Ends.bind (Ends.liftExcept ?_)
  cases hops : rows.mapM (operations index (ElasticsearchWriter._id_field_for_index index)) with
  | error exc =>
      exact Rest.error ⟨h, c.sink, .refl, .not exc _⟩
  | ok ops =>
      exact Rest.ok (bulk_ends h hthere hops hwrite)

/-- No rows, no items. -/
theorem wrote_of_nil
    {rows : List Row} (hnil : rows = []) (target_table : String) (sink : Sink) :
    Wrote target_table rows (.ok 0) sink sink := by
  have hwrite : ElasticsearchWriter.write target_table rows = .ok [] := by
    rw [ElasticsearchWriter.write, if_pos hnil]
  have hlength : rows.length = 0 := by
    rw [hnil, List.length_nil]
  have hwrote := Wrote.all sink hwrite hlength.symm
  rw [hlength, applyItems_nil] at hwrote
  exact hwrote

/-- What the items of an allowed target are. -/
theorem write_eq_mapM
    {target_table index : String} {rows : List Row} (hne : rows ≠ [])
    (hallowed : is_allowed_target (PyText.strip target_table) = true)
    (hindex : ElasticsearchWriter._index_from_target (PyText.strip target_table) = .ok index) :
    ElasticsearchWriter.write target_table rows = rows.mapM (ElasticsearchWriter.item index) := by
  rw [ElasticsearchWriter.write, if_neg hne]
  dsimp only
  rw [if_pos hallowed, hindex]
  rfl

/-- **One write**, with whatever clients and indexes the writer already has. -/
theorem write_ends
    (h : Kept base self c) (target_table : String) (rows : List Row) :
    Ends others (write target_table rows) self c (Written others base c target_table rows) := by
  unfold write
  dsimp only
  refine Ends.ite (fun hnil => ?_) (fun hne => Ends.ite (fun hrefused => ?_) (fun hpassed => ?_))
  · exact Ends.pure ⟨h, c.sink, .refl, wrote_of_nil hnil target_table c.sink⟩
  · exact Ends.bind (Ends.throw (Rest.error ⟨h, c.sink, .refl, .not _ _⟩))
  · have hallowed : is_allowed_target (PyText.strip target_table) = true := by
      simpa using hpassed
    refine Ends.bind (Ends.liftExcept ?_)
    cases hindex : ElasticsearchWriter._index_from_target (PyText.strip target_table) with
    | error exc =>
        exact Rest.error ⟨h, c.sink, .refl, .not exc _⟩
    | ok index =>
        have hwrite := write_eq_mapM hne hallowed hindex
        refine Rest.ok (Ends.bind ((get_client_ends h).mono fun res self₁ c₁ hclient => ?_))
        cases res with
        | error exc =>
            exact Rest.error (hclient.written .refl)
        | ok client =>
            refine Rest.ok (Ends.get (Ends.ite (fun hnew => ?_) (fun hold => ?_)))
            · refine Ends.bind ((ensure_index_ends hclient.kept
                (index_of_allowed hallowed hindex)).mono fun res self₂ c₂ hindexed => ?_)
              obtain ⟨-, haside, hthere⟩ := hindexed
              cases res with
              | error exc =>
                  exact Rest.error (haside.written hclient.sink)
              | ok u =>
                  refine Rest.ok (Ends.bind (Ends.modify (Rest.ok ?_)))
                  have hkept : Kept base { self₂ with _ensured := index :: self₂._ensured } c₂ := by
                    refine { haside.kept with ensured := fun i hi => ?_ }
                    rcases List.mem_cons.mp hi with rfl | hi
                    · exact hthere rfl
                    · exact haside.kept.ensured i hi
                  exact (send_ends hkept client (hthere rfl) hwrite).mono
                    fun _ _ _ hwritten => hwritten.after (hclient.sink.trans haside.sink)
            · have hensured : index ∈ self₁._ensured := not_not.mp hold
              have hindex := hclient.kept.ensured index hensured
              exact (send_ends hclient.kept client hindex hwrite).mono
                fun _ _ _ hwritten => hwritten.after hclient.sink

/-- After any use the writer is in order. -/
theorem use_keeps
    {u : Use} {self' : ESWriter} (h : Kept base self c)
    (hruns : Runs (Serves others) (u.run self) c self' c') :
    Kept base self' c' := by
  cases u with
  | write target_table rows =>
      obtain ⟨r, c₁, hwrite, hrest⟩ := runs_bind_iff.mp hruns
      obtain ⟨rfl, rfl⟩ := runs_done_iff.mp hrest
      exact (always_iff.mp (write_ends h target_table rows).always r c' hwrite).kept
  | close =>
      obtain ⟨r, c₁, hclose, hrest⟩ := runs_bind_iff.mp hruns
      obtain ⟨rfl, rfl⟩ := runs_done_iff.mp hrest
      exact (always_iff.mp (close_ends h).always r c' hclose).1.kept

/-- By induction on the uses. -/
theorem uses_keep
    {us : List Use} {self' : ESWriter} (h : Kept base self c)
    (hruns : Runs (Serves others) (uses us self) c self' c') :
    Kept base self' c' := by
  induction us generalizing self c with
  | nil =>
      obtain ⟨rfl, rfl⟩ := runs_done_iff.mp hruns
      exact h
  | cons u us ih =>
      obtain ⟨self₁, c₁, huse, hrest⟩ := runs_bind_iff.mp hruns
      exact ih (use_keeps h huse) hrest

/-- **A writer's life.**  A writer that was made when the cluster was `base` has, after any uses and
whatever the cluster answered, at most one client open, its own; it has left no index to the
cluster to make up, and each index it has created was missing, is on the allowlist, has its
explicit mapping and was created once.  Closed, it has no client open. -/
theorem writer_life
    (cfg : ESConfig) (us : List Use) {final : ESWriter}
    (hnumbers : ∀ client ∈ base.connected, client < base.nextClient)
    (hruns : Runs (Serves others) (uses us (ESWriter.new cfg)) base final c) :
    (c.connected = base.connected ∨
        ∃ client, final._client = some client ∧ client ∉ base.connected ∧
          c.connected = client :: base.connected) ∧
      c.automatic = base.automatic ∧
      (∃ mine, c.created = base.created ++ mine ∧ (mine.map Prod.fst).Nodup ∧
        ∀ x ∈ mine, x.1 ∈ ALLOWED_ES_INDEXES ∧ base.indices x.1 = none ∧
          x.2 = _mappings_for_index x.1 ∧ x.2 ≠ .dynamic) ∧
      ∀ (after : Cluster) (closed : ESWriter) (res : Except Exc Unit),
        Runs (Serves others) (close.run.run final) c (res, closed) after → res = .ok () →
          after.connected = base.connected := by
  have hkept := uses_keep (kept_new cfg hnumbers) hruns
  refine ⟨?_, hkept.automatic, ?_, fun after closed res hclose hok => ?_⟩
  · rcases hkept.connected with hsame | ⟨client, hclient, hopen⟩
    · exact Or.inl hsame
    · exact Or.inr ⟨client, hclient, hkept.own client hclient, hopen⟩
  · obtain ⟨mine, hcreated, hnodup, hmine⟩ := hkept.created
    refine ⟨mine, hcreated, hnodup, fun x hx => ?_⟩
    obtain ⟨hallowed, hmapping, hnew, -⟩ := hmine x hx
    refine ⟨hallowed, hnew, hmapping, ?_⟩
    rw [hmapping]
    exact mappings_explicit x.1 hallowed
  · obtain ⟨haside, hnone⟩ := always_iff.mp (close_ends hkept).always _ after hclose
    rcases haside.kept.connected with hsame | ⟨client, hclient, -⟩
    · exact hsame
    · rw [hnone hok] at hclient
      cases hclient

/-- One batch of films is written, and the writer is closed, while somebody else has a client. -/
theorem writer_life_two_films :
    ∃ (final closed : ESWriter) (c c' : Cluster), final._client = some 1 ∧ c.connected = [1, 0] ∧
      c.created = [("film_dim", _mappings_for_index "film_dim")] ∧ c.automatic = [] ∧
      c'.connected = [0] ∧
      c'.sink (.field "film_dim" "f2" "title") = some (.json (.string "Brazil")) ∧
      Runs (Serves Eq) (close.run.run final) c (.ok (), closed) c' := by
  let base : Cluster := { Cluster.fresh with connected := [0], nextClient := 1 }
  let takesAll := serves_respond Eq fun _ => true
  let used := (uses [.write "es:film_dim" twoFilms] (ESWriter.new localConfig)).against
    (Cluster.respond fun _ => true) base
  let ended := (close.run.run used.1).against (Cluster.respond fun _ => true) used.2
  have hnumbers : ∀ client ∈ base.connected, client < base.nextClient := by
    decide
  have hlife := writer_life localConfig [.write "es:film_dim" twoFilms] hnumbers
    (runs_against takesAll _ _)
  have hclose := runs_against takesAll (close.run.run used.1) used.2
  refine ⟨used.1, ended.1.2, used.2, ended.2, rfl, by decide +kernel, by decide +kernel, ?_,
    hlife.2.2.2 _ _ _ hclose rfl, by decide +kernel, hclose⟩
  exact hlife.2.1

end Life

/-! ## The step of a runner -/

section Steps

variable {others : Sink → Sink → Prop} {base c c' : Cluster}
variable {P : Type} [DecidableEq P] {w : World} {p : P} {snap : PipelineSnapshot} {bl : BatchLoop P}

omit [DecidableEq P] in
theorem transactional_loop
    (w : World) (p : P) (plan : IncrementalPlan) :
    (plan.loop w p).transactional = true ↔ plan.writer = .postgres := by
  simp only [IncrementalPlan.loop, decide_eq_true_eq]

/-- Which writer a loop uses shows in how it writes. -/
theorem writer_of_loop
    (h : RunnerLoop w p snap bl) :
    ∃ target, bl.write = (resolve_writer target).write w.storeRow target ∧
      (bl.transactional = true ↔ resolve_writer target = .postgres) := by
  rcases h with h | h | h | h
  · simp only [run_sql_full_pipeline, check_eq_ok_iff, bind_eq_ok_iff, pure_eq_ok_iff] at h
    obtain ⟨-, -, tr, -, rfl⟩ := h
    exact ⟨snap.target_table, by dsimp only, by simp only [decide_eq_true_eq]⟩
  · obtain ⟨tr, -, rfl⟩ := run_sql_incremental_pipeline_eq_ok h
    refine ⟨snap.target_table, by simp only [IncrementalPlan.loop, sqlPlan], ?_⟩
    exact (transactional_loop w p (sqlPlan snap (tr.transform w.modules))).trans
      (by simp only [sqlPlan])
  · cases htasks : snap.tasks with
    | nil =>
        simp only [run_tasks_full, htasks] at h
        cases h
    | cons reader rest =>
        simp only [run_tasks_full, htasks, check_eq_ok_iff, bind_eq_ok_iff, pure_eq_ok_iff] at h
        obtain ⟨-, fns, -, rfl⟩ := h
        exact ⟨finalTarget snap, by dsimp only, by simp only [decide_eq_true_eq]⟩
  · obtain ⟨reader, rest, fns, -, -, rfl⟩ := run_tasks_incremental_eq_ok h
    refine ⟨finalTarget snap, by simp only [IncrementalPlan.loop, tasksPlan], ?_⟩
    exact (transactional_loop w p
      (tasksPlan snap reader fun rows => .ok (applyTransforms fns rows))).trans
        (by simp only [tasksPlan])

theorem target_of_bulk
    (hbody : _run_body w p snap = .ok bl) (hbulk : bl.transactional = false) :
    ∃ target, bl.write = ElasticsearchWriter.write target := by
  obtain ⟨snap', hloop⟩ := runnerLoop_of_run_body hbody
  obtain ⟨target, hwrite, htransactional⟩ := writer_of_loop hloop
  cases hwriter : resolve_writer target with
  | postgres =>
      have htrue := htransactional.mpr hwriter
      rw [hbulk] at htrue
      cases htrue
  | elasticsearch =>
      rw [hwriter] at hwrite
      exact ⟨target, hwrite⟩

/-- The answer that takes the step of the process model. -/
inductive Answers : Except Exc ℕ → Choice → Prop
  | ok (written : ℕ) :
      Answers (.ok written) .ok
  | raise (exc : Exc) :
      Answers (.error exc) (.raise exc)
  | partialBulk (exc : Exc) (marks : List Bool) :
      Answers (.error exc) (.partialBulk marks exc)

/-- What has been written is what one step writes. -/
theorem step_of_wrote
    {target : String} {res : Except Exc ℕ} {sink sink' : Sink} {tres : Transformed}
    (h : Wrote target tres.rows res sink sink')
    (hwrite : bl.write = ElasticsearchWriter.write target) (hbulk : bl.transactional = false)
    (hne : tres.rows ≠ []) (k r : ℕ) (v : LoopVars) (fetched : List Row) :
    ∃ choice, Answers res choice ∧
      ∀ (db : Db P) (pending : List (EtlPlatform.Write P)), db.store.sink = sink →
        loopStep w (db, pending) p k r bl (.write v fetched tres) choice =
          some ⟨{ db with store := { db.store with sink := sink' } }, pending,
            stageOf (onExecuteExc w k r)
              (fun written => .loop k r bl (.advance v fetched tres.left written)) res⟩ := by
  have hno : ¬ bl.transactional = true := by
    rw [hbulk]
    exact Bool.false_ne_true
  generalize hrows : tres.rows = rows at h hne
  cases h with
  | not exc =>
      refine ⟨.raise exc, .raise exc, ?_⟩
      rintro db pending rfl
      rw [loopStep, hrows, if_neg hne, hwrite]
      cases hitems : ElasticsearchWriter.write target rows with
      | error exc' =>
          rfl
      | ok items =>
          dsimp only [writeStep]
          rw [if_neg hno]
          rfl
  | @all items sink hitems hlength =>
      refine ⟨.ok, .ok _, ?_⟩
      rintro db pending rfl
      rw [loopStep, hrows, if_neg hne, hwrite, hitems]
      dsimp only [writeStep]
      rw [if_neg hno, hlength]
      rfl
  | some exc marks sink hitems =>
      refine ⟨.partialBulk marks exc, .partialBulk exc marks, ?_⟩
      rintro db pending rfl
      rw [loopStep, hrows, if_neg hne, hwrite, hitems]
      dsimp only [writeStep]
      rw [if_neg hno]
      rfl

/-- **A bulk write is one step.**  A run that writes outside its session writes to an index, with a
writer it may have used before, in a cluster others write to as well.  However the conversation
goes, between what others do the documents change as in one step of the runner process, answered
with what the writer returns or raises, and the process goes on with this answer. -/
theorem bulk_write_is_one_step
    (hbody : _run_body w p snap = .ok bl) (hbulk : bl.transactional = false) (k r : ℕ) :
    (∃ target, bl.write = ElasticsearchWriter.write target) ∧
      ∀ (target : String) (cfg : ESConfig) (us : List Use) (base c c' : Cluster)
        (used final : ESWriter) (v : LoopVars) (fetched : List Row) (tres : Transformed)
        (res : Except Exc ℕ),
        bl.write = ElasticsearchWriter.write target →
        (∀ client ∈ base.connected, client < base.nextClient) →
        Runs (Serves others) (uses us (ESWriter.new cfg)) base used c →
        tres.rows ≠ [] →
        Runs (Serves others) ((write target tres.rows).run.run used) c (res, final) c' →
        ∃ sink choice, Relation.ReflTransGen others c.sink sink ∧ Answers res choice ∧
          ∀ (db : Db P) (pending : List (EtlPlatform.Write P)), db.store.sink = sink →
            loopStep w (db, pending) p k r bl (.write v fetched tres) choice =
              some ⟨{ db with store := { db.store with sink := c'.sink } }, pending,
                stageOf (onExecuteExc w k r)
                  (fun written => .loop k r bl (.advance v fetched tres.left written)) res⟩ := by
  refine ⟨target_of_bulk hbody hbulk, ?_⟩
  intro target cfg us base c c' used final v fetched tres res hwrite hnumbers hused hne hruns
  have hkept := uses_keep (kept_new cfg hnumbers) hused
  obtain ⟨sink, hothers, hwrote⟩ :=
    (always_iff.mp (write_ends hkept target tres.rows).always _ c' hruns).wrote
  obtain ⟨choice, hanswers, hstep⟩ := step_of_wrote hwrote hwrite hbulk hne k r v fetched
  exact ⟨sink, choice, hothers, hanswers, hstep⟩

/-- The film pipeline, with an index as its target. -/
def filmIndexed : PipelineSnapshot :=
  { snapshot_pipeline (filmPipeline .full 2 .RUN_REQUESTED) with target_table := "es:film_dim" }

theorem filmIndexed_loop :
    ∃ bl, _run_body World.plain () filmIndexed = .ok bl ∧ bl.transactional = false ∧
      bl.write = ElasticsearchWriter.write "es:film_dim" := by
  have hwriter : resolve_writer "es:film_dim" = .elasticsearch := by
    decide +kernel
  refine ⟨_, rfl, ?_, ?_⟩
  · decide +kernel
  · change (resolve_writer "es:film_dim").write World.plain.storeRow "es:film_dim" = _
    rw [hwriter]
    rfl

/-- Two films are sent to a cluster that takes the first. -/
def halfWritten : (Except Exc ℕ × ESWriter) × Cluster :=
  ((write "es:film_dim" twoFilms).run.run (ESWriter.new localConfig)).against
    (Cluster.respond fun item => item.any fun a => a.1 = .field "film_dim" "f1" "film_id")
    Cluster.fresh

/-- The step of the process is one that applies a part of the batch. -/
theorem bulk_write_is_one_step_half_a_batch :
    ∃ (bl : BatchLoop Unit) (choice : Choice) (exc : Exc) (db : Db Unit),
      halfWritten.1.1 = .error exc ∧ Answers (.error exc) choice ∧
      loopStep World.plain (Db.single (filmPipeline .full 2 .RUNNING) twoFilms, []) () 1 0 bl
        (.write (LoopVars.initial none) twoFilms ⟨twoFilms, twoFilms⟩) choice =
          some ⟨db, [], onExecuteExc World.plain 1 0 exc⟩ ∧
      db.store.sink (.field "film_dim" "f1" "title") = some (.json (.string "Alien")) ∧
      db.store.sink (.field "film_dim" "f2" "title") = none := by
  obtain ⟨bl, hbody, hbulk, hwrite⟩ := filmIndexed_loop
  have hne : twoFilms ≠ [] := by
    rintro ⟨⟩
  obtain ⟨-, hstep⟩ :=
    @bulk_write_is_one_step Eq Unit _ World.plain () filmIndexed bl hbody hbulk 1 0
  obtain ⟨sink, choice, hothers, hanswers, hstep⟩ := hstep "es:film_dim" localConfig []
    Cluster.fresh Cluster.fresh halfWritten.2 (ESWriter.new localConfig) halfWritten.1.2
    (LoopVars.initial none) twoFilms ⟨twoFilms, twoFilms⟩ halfWritten.1.1 hwrite
    (by rintro client ⟨⟩) (.done _ _) hne (runs_against (serves_respond _ _) _ _)
  have hsink : Cluster.fresh.sink = sink := by
    rwa [Relation.reflTransGen_eq_self] at hothers
  obtain ⟨exc, hraised⟩ : ∃ exc, halfWritten.1.1 = .error exc := ⟨_, rfl⟩
  rw [hraised] at hanswers hstep
  exact ⟨bl, choice, exc, _, hraised, hanswers, hstep _ [] hsink, by decide +kernel,
    by decide +kernel⟩

end Steps

end SearchClient
end EtlPlatform
