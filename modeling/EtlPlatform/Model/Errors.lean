import EtlPlatform.Model.PyText

/-!
# Exceptions and their classification

An exception is kept as far as the platform looks at one: the class that the
`isinstance` tests of `is_db_disconnect` see, the class name and text that end
up in `etl_runs.error_message`, and the driver error a wrapper carries in
`orig`.
-/

namespace EtlPlatform

/-- What `isinstance` can tell about an exception. -/
inductive ExcClass where
  /-- `sqlalchemy.exc.OperationalError` -/
  | operational
  /-- `sqlalchemy.exc.InterfaceError` -/
  | interface
  /-- another `sqlalchemy.exc.DBAPIError` -/
  | dbapi (connection_invalidated : Bool)
  /-- `asyncpg.PostgresError`, not wrapped -/
  | postgres
  /-- `OSError` -/
  | os
  /-- anything else: `ValueError`, `KeyError`, `RuntimeError`, a client's own class -/
  | other
deriving DecidableEq

/-- A raised exception, of the kind `except Exception` catches. -/
structure Exc where
  cls : ExcClass
  name : String
  msg : String
  orig : Option (String × String) := none
deriving DecidableEq

/-- `raise ValueError(msg)` -/
def valueError (msg : String) : Exc :=
  { cls := .other, name := "ValueError", msg := msg }

/-- What `d[key]` raises on a missing key. -/
def keyError (key : String) : Exc :=
  { cls := .other, name := "KeyError", msg := "'" ++ key ++ "'" }

/-- What `xs[i]` raises out of range. -/
def indexError (what : String) : Exc :=
  { cls := .other, name := "IndexError", msg := what ++ " index out of range" }

/-- A statement the server or the driver refuses, wrapped by the session. -/
def statementError (name msg : String) : Exc :=
  { cls := .dbapi false, name := "DBAPIError", msg := "(" ++ name ++ ") " ++ msg,
    orig := some (name, msg) }

/-- What a statement raises when the connection to the database is lost. -/
def connectionLost : Exc :=
  { cls := .dbapi true, name := "DBAPIError",
    msg := "(ConnectionDoesNotExistError) connection was closed in the middle of operation",
    orig := some
      ("ConnectionDoesNotExistError", "connection was closed in the middle of operation") }

/-- The texts of a lost connection that `is_db_disconnect` looks for. -/
def disconnectTexts : List String :=
  ["connection is closed", "connection was closed", "connection does not exist",
    "connection refused", "connect call failed", "no address associated with hostname",
    "the database system is starting up", "closed in the middle of operation"]

/-- `is_db_disconnect(exc)` -/
def is_db_disconnect (exc : Exc) : Bool :=
  match exc.cls with
  | .operational => true
  | .interface => true
  | .dbapi true => true
  | .postgres => disconnectTexts.any (PyText.contains (PyText.lower exc.msg))
  | .os => disconnectTexts.any (PyText.contains (PyText.lower exc.msg))
  | _ => PyText.contains (PyText.lower exc.msg) "no address associated with hostname"

@[simp] theorem is_db_disconnect_connectionLost :
    is_db_disconnect connectionLost = true := by
  rfl

def ERROR_CAP : ℕ := 1000

/-- `_cap(s, limit)` -/
def _cap (s : String) (limit : ℕ) : String :=
  let t := PyText.strip s
  if t.toList.length ≤ limit then t else PyText.take limit t ++ "...(truncated)"

/-- `short_db_error(exc)` -/
def short_db_error (exc : Exc) : String :=
  match exc.orig with
  | some (name, msg) => name ++ ": " ++ msg
  | none => PyText.take 200 (PyText.strip (PyText.before "[SQL:" exc.msg))

/-- The text `PipelineExecutor.execute` hands to `finish_failed`. -/
def errText (exc : Exc) : String :=
  _cap (exc.name ++ ": " ++ short_db_error exc) ERROR_CAP

end EtlPlatform
