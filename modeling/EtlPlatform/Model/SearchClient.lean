import EtlPlatform.Library.ServiceCalls
import EtlPlatform.Model.Writers

/-!
# The writer and the search client

`ElasticsearchWriter` once more, call by call: the client it opens when it first
needs one, the index it looks for and creates, the operations of the bulk
request and what it makes of the response.  An instance keeps its client and the
indexes it has ensured from one write to the next, and over an exception.

The cluster answers every call.  A request may fail before it is served, and the
answer to a served request may be lost; a bulk request reports for each of its
operations whether it was carried out.  An index that a bulk request does not
find is created by the cluster, with a mapping of its own.
-/

namespace EtlPlatform
namespace SearchClient

open Library

/-! ## Requests -/

structure ESConfig where
  url : String
  user : Option String
  password : Option String
  timeout : ℤ

/-- The mapping of a field: its type, and the types of its sub-fields. -/
structure FieldMapping where
  type : String
  fields : List (String × String) := []
deriving DecidableEq

/-- The `mappings` of an index. -/
inductive Mappings where
  | properties (fields : List (String × FieldMapping))
  /-- `{"dynamic": True}` -/
  | dynamic
deriving DecidableEq

/-- An entry of the `operations` of a bulk request. -/
inductive Operation where
  /-- `{"update": {"_index": ..., "_id": ...}}` -/
  | update (_index _id : String)
  /-- `{"doc": ..., "doc_as_upsert": ...}` -/
  | doc (doc : List (String × Json)) (doc_as_upsert : Bool)
deriving DecidableEq

/-- What a bulk response says about one operation: `repr`, and whether it has an `error`. -/
structure OperationResult where
  repr : String
  error : Bool
deriving DecidableEq

/-- A bulk response.  An item holds the result under the name of the action. -/
structure BulkResponse where
  errors : Bool
  items : List (List (String × OperationResult))
deriving DecidableEq

/-- The calls of the client.  An open client is known by its number. -/
inductive Request where
  /-- `AsyncElasticsearch(hosts=..., basic_auth=..., request_timeout=...)` -/
  | connect (hosts : List String) (basic_auth : Option (String × String)) (request_timeout : ℤ)
  /-- `client.indices.exists` -/
  | indexExists (client : ℕ) (index : String)
  /-- `client.indices.create` -/
  | createIndex (client : ℕ) (index : String) (mappings : Mappings)
  /-- `client.bulk` -/
  | bulk (client : ℕ) (operations : List Operation) (refresh : Bool)
  /-- `client.close` -/
  | close (client : ℕ)

/-- What a call returns. -/
def Request.Response : Request → Type
  | .connect _ _ _ => ℕ
  | .indexExists _ _ => Bool
  | .createIndex _ _ _ => Unit
  | .bulk _ _ _ => BulkResponse
  | .close _ => Unit

/-- A call returns or raises. -/
abbrev Request.Answer (req : Request) : Type :=
  Except Exc req.Response

/-! ## The writer -/

/-- An instance of `ElasticsearchWriter`. -/
structure ESWriter where
  _cfg : ESConfig
  _client : Option ℕ
  _ensured : List String

/-- `ElasticsearchWriter(cfg)` -/
def ESWriter.new (cfg : ESConfig) : ESWriter where
  _cfg := cfg
  _client := none
  _ensured := []

/-- A method of the writer. -/
abbrev WriterM := ExceptT Exc (StateT ESWriter (Calls Request Request.Answer))

/-- `await` of a call -/
def call (req : Request) : WriterM req.Response :=
  ExceptT.mk (StateT.lift (Calls.perform req))

section Methods

/-- `_auth()` -/
def _auth (cfg : ESConfig) : Option (String × String) :=
  if PyText.truthy cfg.user then some (cfg.user.getD "", cfg.password.getD "") else none

/-- `_get_client()` -/
def _get_client : WriterM ℕ := do
  let self ← get
  match self._client with
  | some client => return client
  | none =>
      let client : ℕ ← call (.connect [self._cfg.url] (_auth self._cfg) self._cfg.timeout)
      modify (fun self => { self with _client := some client })
      return client

/-- `close()` -/
def close : WriterM Unit := do
  let self ← get
  match self._client with
  | none => return ()
  | some client =>
      let _ : Unit ← call (.close client)
      modify (fun self => { self with _client := none })

/-- `_mappings_for_index(index)` -/
def _mappings_for_index (index : String) : Mappings :=
  if index = "film_dim" then
    .properties [("film_id", { type := "keyword" }),
      ("title", { type := "text", fields := [("raw", "keyword")] }),
      ("rating", { type := "float" })]
  else if index = "film_rating_agg" then
    .properties [("film_id", { type := "keyword" }), ("avg_rating", { type := "float" }),
      ("rating_count", { type := "integer" })]
  else .dynamic

/-- `_ensure_index(client, index)` -/
def _ensure_index (client : ℕ) (index : String) : WriterM Unit := do
  let found : Bool ← call (.indexExists client index)
  if found then return ()
  else call (.createIndex client index (_mappings_for_index index))

/-- The two operations of one row. -/
def operations (index id_field : String) (raw : Row) : Except Exc (List Operation) :=
  let r := _normalize_row raw
  match r.lookup id_field with
  | none =>
      .error (valueError ("ES writer expects field '" ++ id_field ++ "' in row. Row keys=[" ++
        ", ".intercalate (r.map (fun c => "'" ++ c.1 ++ "'")) ++ "]"))
  | some v => .ok [.update index v.str, .doc r true]

/-- `it.get("update") or it.get("index") or it.get("create") or it.get("delete")` -/
def resultOf (it : List (String × OperationResult)) : Option OperationResult :=
  (it.lookup "update").or ((it.lookup "index").or ((it.lookup "create").or (it.lookup "delete")))

/-- The first result with an error. -/
def firstError (items : List (List (String × OperationResult))) : Option OperationResult :=
  items.findSome? (fun it => (resultOf it).filter OperationResult.error)

/-- `raise RuntimeError(...)` for a bulk response with errors -/
def bulkError (resp : BulkResponse) : Exc :=
  { cls := .other, name := "RuntimeError"
    msg := "Elasticsearch bulk errors=True. first_error=" ++
      ((firstError resp.items).elim "None" OperationResult.repr) }

/-- `write(session, pipeline, rows)` -/
def write (target_table : String) (rows : List Row) : WriterM ℕ := do
  if rows = [] then return 0
  let target := PyText.strip target_table
  if !is_allowed_target target then
    throw (valueError ("target_table '" ++ target ++ "' is not allowed"))
  let index ← liftExcept (ElasticsearchWriter._index_from_target target)
  let id_field := ElasticsearchWriter._id_field_for_index index
  let client ← _get_client
  if index ∉ (← get)._ensured then
    _ensure_index client index
    modify (fun self => { self with _ensured := index :: self._ensured })
  let ops ← liftExcept (rows.mapM (operations index id_field))
  let resp : BulkResponse ← call (.bulk client ops.flatten false)
  if resp.errors then throw (bulkError resp)
  return rows.length

end Methods

/-! ## The cluster -/

/-- What the writers of a cluster can see of it. -/
structure Cluster where
  /-- the documents, field by field -/
  sink : Sink
  indices : String → Option Mappings
  /-- the clients that are open -/
  connected : List ℕ
  /-- the number of the next client -/
  nextClient : ℕ
  /-- the indexes that were created on request -/
  created : List (String × Mappings)
  /-- the indexes the cluster has created by itself, for a bulk request -/
  automatic : List String

/-- The updates of a bulk request, each with the index it is for. -/
def decodeBulk : List Operation → Option (List (String × Item))
  | [] => some []
  | .update index _id :: .doc doc true :: ops =>
      (decodeBulk ops).map (fun updates =>
        (index, doc.map (fun c => (Cell.field index _id c.1, Datum.json c.2))) :: updates)
  | _ => none

/-- Carry out the updates whose mark is `true`, in order. -/
def Cluster.update (c : Cluster) (updates : List (String × Item)) (marks : List Bool) : Cluster :=
  { c with
    sink := applyItems c.sink (((updates.zip marks).filter Prod.snd).map (fun u => u.1.2))
    indices := fun index =>
      if index ∈ updates.map Prod.fst then some ((c.indices index).getD .dynamic)
      else c.indices index
    automatic := c.automatic ++
      (updates.map Prod.fst).filter (fun index => (c.indices index).isNone) }

/-- A cluster serves a request: what it returns, and the cluster after it. -/
inductive Served : Cluster → (req : Request) → req.Response → Cluster → Prop
  | connect {c : Cluster} {hosts : List String} {auth : Option (String × String)} {timeout : ℤ} :
      Served c (.connect hosts auth timeout) c.nextClient
        { c with connected := c.nextClient :: c.connected, nextClient := c.nextClient + 1 }
  | indexExists {c : Cluster} {client : ℕ} {index : String} :
      Served c (.indexExists client index) (c.indices index).isSome c
  | createIndex {c : Cluster} {client : ℕ} {index : String} {mappings : Mappings} :
      c.indices index = none →
      Served c (.createIndex client index mappings) ()
        { c with
          indices := Function.update c.indices index (some mappings)
          created := c.created ++ [(index, mappings)] }
  /-- `errors` says whether some operation has failed, and each has its result -/
  | bulk {c : Cluster} {client : ℕ} {ops : List Operation} {refresh : Bool}
      {updates : List (String × Item)} {results : List OperationResult} :
      decodeBulk ops = some updates →
      results.length = updates.length →
      Served c (.bulk client ops refresh)
        { errors := results.any OperationResult.error
          items := results.map (fun r => [("update", r)]) }
        (c.update updates (results.map (fun r => !r.error)))
  | close {c : Cluster} {client : ℕ} :
      Served c (.close client) () { c with connected := c.connected.erase client }

/-- What others may do meanwhile: write documents as `others` allows, and create indexes. -/
structure Meanwhile (others : Sink → Sink → Prop) (c c' : Cluster) : Prop where
  sink : Relation.ReflTransGen others c.sink c'.sink
  indices : ∀ index, (c.indices index).isSome → (c'.indices index).isSome
  connected : c'.connected = c.connected
  nextClient : c'.nextClient = c.nextClient
  created : c'.created = c.created
  automatic : c'.automatic = c.automatic

/-- The request goes over the network, and its answer can be lost. -/
def Request.remote : Request → Prop
  | .connect _ _ _ => False
  | _ => True

/-- One call: after whatever others have done, the request fails, or it is served and its answer
arrives or is lost. -/
inductive Serves (others : Sink → Sink → Prop) :
    Cluster → (req : Request) → req.Answer → Cluster → Prop
  | failed {c c' : Cluster} {req : Request} (exc : Exc) :
      Meanwhile others c c' →
      Serves others c req (.error exc) c'
  | served {c c₁ c' : Cluster} {req : Request} {res : req.Response} :
      Meanwhile others c c₁ →
      Served c₁ req res c' →
      Serves others c req (.ok res) c'
  | lost {c c₁ c' : Cluster} {req : Request} {res : req.Response} (exc : Exc) :
      req.remote →
      Meanwhile others c c₁ →
      Served c₁ req res c' →
      Serves others c req (.error exc) c'

/-! ## The life of a writer -/

/-- What a caller does with a writer. -/
inductive Use where
  | write (target_table : String) (rows : List Row)
  | close

/-- One use, whatever it returns or raises. -/
def Use.run : Use → ESWriter → Calls Request Request.Answer ESWriter
  | .write target_table rows, self =>
      Prod.snd <$> (SearchClient.write target_table rows).run.run self
  | .close, self => Prod.snd <$> SearchClient.close.run.run self

/-- One use after the other. -/
def uses : List Use → ESWriter → Calls Request Request.Answer ESWriter
  | [], self => .done self
  | u :: us, self => u.run self >>= uses us

end SearchClient
end EtlPlatform
