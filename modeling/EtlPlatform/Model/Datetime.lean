import Mathlib.Data.List.Lex
import Mathlib.Data.Nat.Basic
import Mathlib.Order.Basic
import Mathlib.Tactic.IntervalCases
import Mathlib.Tactic.Common

/-!
# Timestamps and their ISO text

The checkpoint of an incremental pipeline is stored as text: `isoformat` writes
it and `fromisoformat` reads it back at the start of the next attempt.  The
module models both on the timestamps the database driver delivers, which are
naive or in UTC, and proves that reading inverts writing.
-/

namespace EtlPlatform

/-- Length of a month. -/
def daysIn (year month : ℕ) : ℕ :=
  if month = 2 then
    if year % 4 = 0 ∧ (year % 100 ≠ 0 ∨ year % 400 = 0) then 29 else 28
  else if month ∈ [4, 6, 9, 11] then 30
  else 31

/-- Field ranges of a `datetime`. -/
def ValidFields (year month day hour minute second microsecond : ℕ) : Prop :=
  (1 ≤ year ∧ year ≤ 9999) ∧ (1 ≤ month ∧ month ≤ 12) ∧
    (1 ≤ day ∧ day ≤ daysIn year month) ∧
    hour < 24 ∧ minute < 60 ∧ second < 60 ∧ microsecond < 1000000

instance (y mo d h mi s us : ℕ) : Decidable (ValidFields y mo d h mi s us) :=
  inferInstanceAs (Decidable (_ ∧ _))

/-- A timestamp as the driver delivers it: naive, or aware and then in UTC. -/
structure Datetime where
  year : ℕ
  month : ℕ
  day : ℕ
  hour : ℕ
  minute : ℕ
  second : ℕ
  microsecond : ℕ
  utc : Bool
  valid : ValidFields year month day hour minute second microsecond
deriving DecidableEq

namespace Datetime

/-- Fields in order of significance. -/
def fields (d : Datetime) : List ℤ :=
  [d.year, d.month, d.day, d.hour, d.minute, d.second, d.microsecond,
    if d.utc then 1 else 0]

theorem fields_injective :
    Function.Injective fields := by
  rintro ⟨y, mo, d, h, mi, s, us, z, hv⟩ ⟨y', mo', d', h', mi', s', us', z', hv'⟩ heq
  simp only [fields, List.cons.injEq, Nat.cast_inj, and_true] at heq
  obtain ⟨rfl, rfl, rfl, rfl, rfl, rfl, rfl, hz⟩ := heq
  cases z <;> cases z' <;> simp_all

/-- Chronological order. -/
instance : LinearOrder Datetime :=
  LinearOrder.lift' fields fields_injective

/-- `width` decimal digits of `n`, most significant first. -/
def digits : (width n : ℕ) → List Char
  | 0, _ => []
  | width + 1, n => digits width (n / 10) ++ [Nat.digitChar (n % 10)]

/-- Value of one decimal digit. -/
def digitValue (c : Char) : Option ℕ :=
  if '0'.toNat ≤ c.toNat ∧ c.toNat ≤ '9'.toNat then some (c.toNat - '0'.toNat) else none

/-- Read decimal digits after a prefix with value `acc`. -/
def readDigits : (acc : ℕ) → List Char → Option ℕ
  | acc, [] => some acc
  | acc, c :: cs => (digitValue c).bind (fun k => readDigits (acc * 10 + k) cs)

theorem digitValue_digitChar
    {k : ℕ} (hk : k < 10) :
    digitValue (Nat.digitChar k) = some k := by
  interval_cases k <;> decide

theorem readDigits_append
    (acc : ℕ) (cs ds : List Char) :
    readDigits acc (cs ++ ds) = (readDigits acc cs).bind (fun n => readDigits n ds) := by
  induction cs generalizing acc with
  | nil =>
      rfl
  | cons c cs ih =>
      cases hc : digitValue c with
      | none =>
          simp [readDigits, hc]
      | some k =>
          simp [readDigits, hc, ih]

/-- Reading a number's digits gives the number back. -/
theorem readDigits_digits
    (width n : ℕ)
    (hn : n < 10 ^ width) :
    readDigits 0 (digits width n) = some n := by
  induction width generalizing n with
  | zero =>
      simp only [pow_zero, Nat.lt_one_iff] at hn
      simp [digits, readDigits, hn]
  | succ width ih =>
      have hdiv : n / 10 < 10 ^ width := by
        rw [pow_succ] at hn
        omega
      rw [digits, readDigits_append, ih _ hdiv]
      simp only [Option.bind_some, readDigits,
        digitValue_digitChar (Nat.mod_lt n (by decide)), Option.some.injEq]
      omega

/-- `d.isoformat(sep)` -/
def isoformatWith (sep : Char) (d : Datetime) : List Char :=
  digits 4 d.year ++ '-' :: digits 2 d.month ++ '-' :: digits 2 d.day ++
    sep :: digits 2 d.hour ++ ':' :: digits 2 d.minute ++ ':' :: digits 2 d.second ++
    (if d.microsecond = 0 then [] else '.' :: digits 6 d.microsecond) ++
    (if d.utc then ['+', '0', '0', ':', '0', '0'] else [])

/-- `d.isoformat()` -/
def isoformat (d : Datetime) : String :=
  String.ofList (isoformatWith 'T' d)

/-- The fractional seconds at the head of a text, and what follows them. -/
def readMicros : List Char → Option (ℕ × List Char)
  | '.' :: a :: b :: c :: d :: e :: f :: rest =>
      (readDigits 0 [a, b, c, d, e, f]).map (fun us => (us, rest))
  | rest => some (0, rest)

/-- The offset at the end of a text: absent, or the one UTC prints. -/
def readOffset : List Char → Option Bool
  | [] => some false
  | ['+', '0', '0', ':', '0', '0'] => some true
  | _ => none

/-- Assemble a timestamp, if the fields are in range. -/
def ofFields? (y mo d h mi s us : ℕ) (utc : Bool) : Option Datetime :=
  if hv : ValidFields y mo d h mi s us then some ⟨y, mo, d, h, mi, s, us, utc, hv⟩ else none

/-- `datetime.fromisoformat(text)` on the forms `isoformat` writes, which are all that
`etl_state` ever holds.  The other ISO forms that Python reads are refused. -/
def fromisoformat (text : String) : Option Datetime :=
  match text.toList with
  | y₁ :: y₂ :: y₃ :: y₄ :: '-' :: mo₁ :: mo₂ :: '-' :: d₁ :: d₂ :: 'T' ::
      h₁ :: h₂ :: ':' :: mi₁ :: mi₂ :: ':' :: s₁ :: s₂ :: rest => do
      let y ← readDigits 0 [y₁, y₂, y₃, y₄]
      let mo ← readDigits 0 [mo₁, mo₂]
      let d ← readDigits 0 [d₁, d₂]
      let h ← readDigits 0 [h₁, h₂]
      let mi ← readDigits 0 [mi₁, mi₂]
      let s ← readDigits 0 [s₁, s₂]
      let (us, rest) ← readMicros rest
      let utc ← readOffset rest
      ofFields? y mo d h mi s us utc
  | _ => none

theorem readMicros_isoformat
    (d : Datetime) (rest : List Char)
    (hrest : ∀ cs, rest ≠ '.' :: cs) :
    readMicros ((if d.microsecond = 0 then [] else '.' :: digits 6 d.microsecond) ++ rest) =
      some (d.microsecond, rest) := by
  by_cases h0 : d.microsecond = 0
  · rw [if_pos h0, List.nil_append, h0]
    unfold readMicros
    split
    · exact absurd rfl (hrest _)
    · rfl
  · have hread := readDigits_digits 6 d.microsecond d.valid.2.2.2.2.2.2
    rw [if_neg h0]
    simp only [digits, List.nil_append, List.cons_append] at hread ⊢
    simp only [readMicros, hread, Option.map_some]

/-- **Round trip.**  `fromisoformat` inverts `isoformat`. -/
theorem fromisoformat_isoformat
    (d : Datetime) :
    fromisoformat (isoformat d) = some d := by
  obtain ⟨hy, hmo, hd, hh, hmi, hs, hus⟩ := d.valid
  have hday : d.day ≤ 31 := by
    have : daysIn d.year d.month ≤ 31 := by
      unfold daysIn
      split_ifs <;> omega
    omega
  have ry := readDigits_digits 4 d.year (by omega)
  have rmo := readDigits_digits 2 d.month (by omega)
  have rd := readDigits_digits 2 d.day (by omega)
  have rh := readDigits_digits 2 d.hour (by omega)
  have rmi := readDigits_digits 2 d.minute (by omega)
  have rs := readDigits_digits 2 d.second (by omega)
  have rus := readMicros_isoformat d
    (if d.utc then ['+', '0', '0', ':', '0', '0'] else []) (by cases d.utc <;> simp)
  have roff : readOffset (if d.utc then ['+', '0', '0', ':', '0', '0'] else []) = some d.utc := by
    cases d.utc <;> rfl
  rw [fromisoformat, isoformat, String.toList_ofList, isoformatWith]
  simp only [digits, List.nil_append, List.cons_append] at ry rmo rd rh rmi rs ⊢
  simp only [digits, List.nil_append, List.cons_append] at rus
  simp only [ry, rmo, rd, rh, rmi, rs, rus, roff, Option.bind_eq_bind, Option.bind_some]
  simp [ofFields?, d.valid]

theorem isoformat_ne_empty
    (d : Datetime) :
    isoformat d ≠ "" := by
  intro h
  have hread := fromisoformat_isoformat d
  rw [h] at hread
  exact absurd hread (by simp [fromisoformat])

end Datetime

end EtlPlatform
