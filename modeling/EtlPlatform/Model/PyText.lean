import Mathlib.Data.List.DropRight
import Mathlib.Data.List.Infix

/-!
# Text operations of the source

The string methods the platform calls (`strip`, `rstrip`, `startswith`,
`removeprefix`, `lower`, `in`, slicing), on Lean's strings read as lists of
code points.
-/

namespace EtlPlatform
namespace PyText

/-- The code points `str.strip()` removes. -/
def isSpace (c : Char) : Bool :=
  c.toNat ∈ [0x09, 0x0A, 0x0B, 0x0C, 0x0D, 0x1C, 0x1D, 0x1E, 0x1F, 0x20, 0x85,
    0xA0, 0x1680, 0x2000, 0x2001, 0x2002, 0x2003, 0x2004, 0x2005, 0x2006,
    0x2007, 0x2008, 0x2009, 0x200A, 0x2028, 0x2029, 0x202F, 0x205F, 0x3000]

/-- Drop a run of matching code points from the right end. -/
def dropRight (p : Char → Bool) (cs : List Char) : List Char :=
  (cs.reverse.dropWhile p).reverse

/-- `s.strip()` -/
def strip (s : String) : String :=
  String.ofList (dropRight isSpace (s.toList.dropWhile isSpace))

/-- A text without white space is not changed by `strip`. -/
theorem strip_eq_self
    {s : String} (h : ∀ c ∈ s.toList, isSpace c = false) :
    strip s = s := by
  have hleft : s.toList.dropWhile isSpace = s.toList :=
    List.dropWhile_eq_self_iff.mpr (fun _ => by simp [h _ (List.getElem_mem _)])
  have hright : s.toList.rdropWhile isSpace = s.toList :=
    List.rdropWhile_eq_self_iff.mpr (fun _ => by simp [h _ (List.getLast_mem _)])
  calc
    strip s = String.ofList (s.toList.rdropWhile isSpace) := by rw [strip, hleft]; rfl
    _ = s := by rw [hright, String.ofList_toList]

/-- Stripping twice is stripping once. -/
@[simp] theorem strip_strip
    (s : String) :
    strip (strip s) = strip s := by
  set l := s.toList.dropWhile isSpace with hl
  have hstrip : (strip s).toList = l.rdropWhile isSpace := by
    rw [strip, String.toList_ofList]
    rfl
  -- what is left on the right is a prefix, so it starts where `l` starts
  have hleft : (l.rdropWhile isSpace).dropWhile isSpace = l.rdropWhile isSpace := by
    refine List.dropWhile_eq_self_iff.mpr (fun hpos => ?_)
    have hlen := hpos.trans_le (List.rdropWhile_prefix isSpace l).length_le
    rw [(List.rdropWhile_prefix isSpace l).getElem hpos]
    exact List.dropWhile_eq_self_iff.mp (List.dropWhile_idempotent isSpace s.toList) hlen
  calc
    strip (strip s) = String.ofList ((l.rdropWhile isSpace).rdropWhile isSpace) := by
        rw [strip, hstrip, hleft]; rfl
    _ = strip s := by rw [List.rdropWhile_idempotent, ← hstrip, String.ofList_toList]

/-- `s.rstrip(c)` for a single character. -/
def rstrip (c : Char) (s : String) : String :=
  String.ofList (dropRight (fun d => d == c) s.toList)

/-- `s.startswith(pre)` -/
def startswith (s pre : String) : Bool :=
  pre.toList.isPrefixOf s.toList

/-- `s.removeprefix(pre)` -/
def removeprefix (s pre : String) : String :=
  if startswith s pre then String.ofList (s.toList.drop pre.toList.length) else s

/--
One code point under `str.lower()`, as far as ASCII text can tell: the Kelvin
sign and the dotted capital I are the only code points outside ASCII whose
lower case contains an ASCII letter.
-/
def lowerChar (c : Char) : List Char :=
  if c.toNat = 0x212A then ['k']
  else if c.toNat = 0x130 then ['i', Char.ofNat 0x307]
  else [c.toLower]

/-- `s.lower()` -/
def lower (s : String) : String :=
  String.ofList (s.toList.flatMap lowerChar)

/-- `needle in s` -/
def contains (s needle : String) : Bool :=
  decide (needle.toList <:+: s.toList)

/-- `s[:n]` -/
def take (n : ℕ) (s : String) : String :=
  String.ofList (s.toList.take n)

/-- The part of a text before the first occurrence of a separator. -/
def beforeAux (sep : List Char) : List Char → List Char
  | [] => []
  | c :: cs =>
      if sep.isPrefixOf (c :: cs) then [] else c :: beforeAux sep cs

/-- `s.split(sep, 1)[0]` -/
def before (sep s : String) : String :=
  String.ofList (beforeAux sep.toList s.toList)

/-- Python's truth value of an optional text: neither `None` nor `""`. -/
def truthy : Option String → Bool
  | none => false
  | some s => s ≠ ""

theorem truthy_some_iff
    {s : String} :
    truthy (some s) = true ↔ s ≠ "" := by
  simp only [truthy, ne_eq, decide_not, Bool.not_eq_true', decide_eq_false_iff_not]

/-- `(s or "").strip()` -/
def stripOr (s : Option String) : String :=
  strip (s.getD "")

end PyText
end EtlPlatform
