import EtlPlatform.Model.Datetime
import EtlPlatform.Model.PyText
import Mathlib.Algebra.Order.Field.Rat
import Mathlib.Data.Prod.Lex
import Mathlib.Tactic.FieldSimp
import Mathlib.Tactic.Linarith

/-!
# Column values and rows

A source row is the dictionary `dict(RowMapping)`: column names with the values
the database driver delivers.  Values carry two behaviours the runner relies
on: `str(v)`, which turns the id column of a checkpoint into text, and the
order in which the database sorts and compares a column.

The text collation of the database is a parameter, an injective sort key, as
every deterministic collation has one.
-/

namespace EtlPlatform

/-- A deterministic text collation. -/
structure Collation where
  sortKey : String → List ℤ
  injective : Function.Injective sortKey

/-- Code point order, the collation `"C"`. -/
def Collation.codepoint : Collation where
  sortKey s := s.toList.map (fun c => (c.toNat : ℤ))
  injective s t h := by
    have hnat : s.toList.map Char.toNat = t.toList.map Char.toNat := by
      have := congrArg (List.map Int.toNat) h
      simpa [List.map_map, Function.comp_def] using this
    exact String.toList_injective
      ((List.map_injective_iff.mpr (fun c d hcd => Char.toNat_inj.mp hcd)) hnat)

/--
A column value.  A `NUMERIC` is kept as unscaled integer and scale; a `UUID`
by its canonical text.
-/
inductive Value where
  | null
  | bool (b : Bool)
  | int (n : ℤ)
  | decimal (unscaled : ℤ) (scale : ℕ)
  | text (s : String)
  | uuid (s : String)
  | date (year month day : ℕ)
  | datetime (d : Datetime)
deriving DecidableEq

namespace Value

/-- Text of a decimal number with the given scale. -/
def decimalText (unscaled : ℤ) (scale : ℕ) : String :=
  let ds := Nat.toDigits 10 unscaled.natAbs
  let padded := List.replicate (scale + 1 - ds.length) '0' ++ ds
  let whole := padded.take (padded.length - scale)
  let frac := padded.drop (padded.length - scale)
  String.ofList ((if unscaled < 0 then ['-'] else []) ++ whole ++
    (if scale = 0 then [] else '.' :: frac))

/-- Drop the zeros at the end of the fraction. -/
def dropZeros : ℤ → ℕ → ℤ × ℕ
  | unscaled, 0 => (unscaled, 0)
  | unscaled, scale + 1 =>
      if unscaled % 10 = 0 then dropZeros (unscaled / 10) scale else (unscaled, scale + 1)

/-- Text of `float(v)` for a decimal `v`: `7` and `7.00` are both `7.0`.  It is that of Python
where `float` keeps the digits (up to fifteen) and `repr` writes no exponent (from `0.0001` on,
below `10 ^ 16`). -/
def floatText (unscaled : ℤ) (scale : ℕ) : String :=
  match dropZeros unscaled scale with
  | (whole, 0) => decimalText (10 * whole) 1
  | (digits, scale) => decimalText digits scale

example : floatText 700 2 = floatText 7 0 ∧ floatText (-725) 2 = "-7.25" := by
  decide +kernel

/-- `date.isoformat()` -/
def dateText (year month day : ℕ) : String :=
  String.ofList (Datetime.digits 4 year ++ '-' :: Datetime.digits 2 month ++
    '-' :: Datetime.digits 2 day)

/-- `str(v)` -/
def str : Value → String
  | null => "None"
  | bool true => "True"
  | bool false => "False"
  | int n => toString n
  | decimal u s => decimalText u s
  | text s => s
  | uuid s => s
  | date y m d => dateText y m d
  | datetime d => String.ofList (Datetime.isoformatWith ' ' d)

/-- `repr(type(v))` -/
def typeRepr : Value → String
  | null => "<class 'NoneType'>"
  | bool _ => "<class 'bool'>"
  | int _ => "<class 'int'>"
  | decimal _ _ => "<class 'decimal.Decimal'>"
  | text _ => "<class 'str'>"
  | uuid _ => "<class 'asyncpg.pgproto.pgproto.UUID'>"
  | date _ _ _ => "<class 'datetime.date'>"
  | datetime _ => "<class 'datetime.datetime'>"

/-- Sort key of the values of one column; `NULL` comes last. -/
def key (C : Collation) : Value → List ℤ
  | bool b => [0, if b then 1 else 0]
  | int n => [1, n]
  | decimal _ _ => [2]
  | text s => 3 :: C.sortKey s
  | uuid s => 4 :: Collation.codepoint.sortKey s
  | date y m d => [5, y, m, d]
  | datetime d => 6 :: d.fields
  | null => [7]

/-- The order `ORDER BY` sorts by. -/
def le (C : Collation) : Value → Value → Bool
  | decimal u s, decimal u' s' => u * 10 ^ s' ≤ u' * 10 ^ s
  | a, b => a.key C ≤ b.key C

/-- The rational a decimal stands for; `0` on other values. -/
def quantity : Value → ℚ
  | decimal u s => u / 10 ^ s
  | _ => 0

/-- `le` compares by key, and decimals, which share a key, by quantity. -/
theorem le_iff
    (C : Collation) (a b : Value) :
    le C a b = true ↔
      toLex (a.key C, a.quantity) ≤ toLex (b.key C, b.quantity) := by
  rw [Prod.Lex.toLex_le_toLex]
  cases a <;> cases b
  case decimal.decimal u s u' s' =>
    have hs : (0 : ℚ) < 10 ^ s := by positivity
    have hs' : (0 : ℚ) < 10 ^ s' := by positivity
    simp only [le, key, quantity, decide_eq_true_eq, lt_self_iff_false, true_and, false_or]
    rw [div_le_div_iff₀ hs hs']
    exact_mod_cast Iff.rfl
  all_goals simp [le, key, quantity, le_iff_lt_or_eq]

/-- SQL `a > b` in a `WHERE` clause: a comparison with `NULL` is not satisfied. -/
def sqlGt (C : Collation) (a b : Value) : Bool :=
  a ≠ null ∧ b ≠ null ∧ le C a b = false

/-- SQL `a = b` in a `WHERE` clause. -/
def sqlEq (C : Collation) (a b : Value) : Bool :=
  a ≠ null ∧ b ≠ null ∧ le C a b = true ∧ le C b a = true

/--
The value a text parameter takes when the driver binds it against the column
`v` comes from.  Text and UUID columns accept text; other columns refuse it.
-/
def bindLike (s : String) : Value → Option Value
  | null => some null
  | text _ => some (text s)
  | uuid _ => some (uuid s)
  | _ => none

end Value

/-- A row as the runner sees it: a dictionary from column names to values. -/
structure Row where
  cells : List (String × Value)
  nodup : (cells.map Prod.fst).Nodup
deriving DecidableEq

namespace Row

/-- `row.get(name)`, and `name in row` when it is `some`. -/
def get? (r : Row) (name : String) : Option Value :=
  r.cells.lookup name

/-- `list(row.keys())` -/
def keys (r : Row) : List String :=
  r.cells.map Prod.fst

/-- The column of a row in SQL, where an absent column reads as `NULL`. -/
def column (r : Row) (name : String) : Value :=
  (r.get? name).getD .null

end Row

/-- A JSON scalar.  A float keeps the text Python prints for it. -/
inductive Json where
  | null
  | bool (b : Bool)
  | int (n : ℤ)
  | float (text : String)
  | string (s : String)
deriving DecidableEq

/-- `str(v)` of a normalized value -/
def Json.str : Json → String
  | null => "None"
  | bool true => "True"
  | bool false => "False"
  | int n => toString n
  | float text => text
  | string s => s

/-- `_jsonify(v)`, followed by the client's JSON encoding of what it leaves alone. -/
def _jsonify : Value → Json
  | .null => .null
  | .uuid s => .string s
  | .decimal u s => .float (Value.floatText u s)
  | .date y m d => .string (Value.dateText y m d)
  | .datetime d => .string d.isoformat
  | .bool b => .bool b
  | .int n => .int n
  | .text s => .string s

/-- `_normalize_row(row)` -/
def _normalize_row (r : Row) : List (String × Json) :=
  r.cells.map (fun c => (c.1, _jsonify c.2))

theorem _normalize_row_keys_nodup
    (r : Row) :
    ((_normalize_row r).map Prod.fst).Nodup := by
  have hkeys : (_normalize_row r).map Prod.fst = r.cells.map Prod.fst := by
    simp [_normalize_row, Function.comp_def]
  rw [hkeys]
  exact r.nodup

end EtlPlatform
