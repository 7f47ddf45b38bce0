import EtlPlatform.Model.Snapshot
import EtlPlatform.Model.Values

/-!
# User transforms

Python passes the batch by reference, so a transform is a function from the
rows it is handed to a pair: the rows it returns and the contents it leaves in
the list it was handed.  Both runners read the tail row from that same list
after the call.

The modules that can be imported are a parameter.
-/

namespace EtlPlatform

/-- The outcome of a transform on a list of rows. -/
structure Transformed where
  /-- the rows returned -/
  rows : List Row
  /-- the contents of the argument list after the call -/
  left : List Row

abbrev TransformFn := List Row → Transformed

/-- A transform that leaves its argument unchanged. -/
def TransformFn.Pure (f : TransformFn) : Prop :=
  ∀ rows, (f rows).left = rows

/-- `importlib.import_module(path)` followed by the lookup of `transform`. -/
abbrev Modules := String → Except Exc TransformFn

/-- `NoOpTransformer.transform` returns the very list it is handed. -/
def NoOpTransformer : TransformFn :=
  fun rows => { rows := rows, left := rows }

theorem NoOpTransformer_pure :
    TransformFn.Pure NoOpTransformer := by
  intro rows
  rfl

/-- The transformer a pipeline resolves to. -/
inductive Transformer where
  | noOp
  | pythonCallable (dotted_path : String)
deriving DecidableEq

/-- `resolve_transformer(pipeline)` -/
def resolve_transformer (p : PipelineSnapshot) : Except Exc Transformer :=
  if p.type ≠ .PYTHON then .ok .noOp
  else
    let module_path := PyText.stripOr p.python_module
    if module_path ≠ "" then .ok (.pythonCallable module_path)
    else
      let desc := PyText.stripOr p.description
      let legacy_path := PyText.strip (PyText.removeprefix desc "py:")
      if PyText.startswith desc "py:" && legacy_path ≠ "" then
        .ok (.pythonCallable legacy_path)
      else
        .error (valueError ("PYTHON pipeline requires python_module. " ++
          "Set pipeline.python_module='src.pipelines.python_tasks.demo_film_dim' " ++
          "or (legacy) description='py:...'"))

/-- `transformer.transform(pipeline, rows)`; the module is imported at the call. -/
def Transformer.transform (modules : Modules) : Transformer → List Row → Except Exc Transformed
  | .noOp, rows => .ok (NoOpTransformer rows)
  | .pythonCallable path, rows => do
      let fn ← modules path
      return fn rows

/--
The transform loop of the tasks runners.  `apply_transform` copies the rows a
function returns, so only the first function can reach the source list; the
loop stops at the first empty result.
-/
def applyTransforms : List TransformFn → TransformFn
  | [], rows => { rows := rows, left := rows }
  | fn :: fns, rows =>
      let res := fn rows
      { rows := if res.rows = [] then [] else (applyTransforms fns res.rows).rows
        left := res.left }

end EtlPlatform
