import BrowserMesh.Js.Dict
import BrowserMesh.Js.Number

/-! # JSON values

* **Values.**  What `JSON.parse` gives, and what arithmetic makes of its numbers (`NaN` among them).
* **Numbers.**  `Number(v)`, with the numeric literals of strings; `none` when the conversion throws.
* **Copies.**  `JSON.parse(JSON.stringify(v))`. -/

namespace BrowserMesh.Js

inductive Json where
  | null
  | bool (b : Bool)
  | number (n : JsNumber)
  | string (s : JsString)
  | array (items : List Json)
  | object (fields : List (JsString × Json))

/-! ### Numeric literals -/

def trim (s : JsString) : JsString :=
  ((s.dropWhile fun c => decide (IsSpace c)).reverse.dropWhile fun c => decide (IsSpace c)).reverse

/-- The value of a digit below `base`. -/
def digitIn (base : ℕ) (c : CodeUnit) : Option ℕ :=
  let d := if IsDigit c then digitValue c else if 97 ≤ c.val then c.val - 87 else if 65 ≤ c.val then c.val - 55 else base
  if d < base then some d else none

def digitsIn (base : ℕ) (s : JsString) : Option ℕ :=
  if s = [] then none else s.foldlM (fun acc c => (digitIn base c).map (base * acc + ·)) 0

/-- A sign, and whether it is a minus. -/
def sign : JsString → Bool × JsString
  | 43 :: t => (false, t)
  | 45 :: t => (true, t)
  | t => (false, t)

/-- `e` and a whole number, or nothing. -/
def exponentPart : JsString → Option ℤ
  | [] => some 0
  | c :: t =>
      if c = 101 ∨ c = 69 then
        let (negative, digits) := sign t
        (digitsIn 10 digits).map fun n => if negative then -n else n
      else none

/-- The double nearest to `m * 10 ^ e`. -/
def scaled (m : ℕ) (e : ℤ) : JsNumber :=
  if 0 ≤ e then .ofUnits (m * 10 ^ e.toNat * oneUnits : ℕ)
  else .ofUnits (JsNumber.roundQuotient (m * oneUnits) (10 ^ (-e).toNat))

def decimalLiteral (s : JsString) : Option JsNumber :=
  if s = js "Infinity" then some .posInf
  else
    let whole := s.takeWhile fun c => decide (IsDigit c)
    let (fraction, rest) := match s.drop whole.length with
      | 46 :: t => (t.takeWhile fun c => decide (IsDigit c), t.dropWhile fun c => decide (IsDigit c))
      | t => ([], t)
    if whole = [] ∧ fraction = [] then none
    else (exponentPart rest).map fun e => scaled (digitsValue (whole ++ fraction)) (e - fraction.length)

/-- `Number(s)` of a string. -/
def stringToNumber (s : JsString) : JsNumber :=
  let t := trim s
  let radix (base : ℕ) : JsNumber := ((digitsIn base (t.drop 2)).map JsNumber.ofNat).getD .nan
  if t = [] then 0
  else if t.take 2 = js "0x" ∨ t.take 2 = js "0X" then radix 16
  else if t.take 2 = js "0o" ∨ t.take 2 = js "0O" then radix 8
  else if t.take 2 = js "0b" ∨ t.take 2 = js "0B" then radix 2
  else
    let (negative, digits) := sign t
    match decimalLiteral digits with
    | some n => if negative then n.neg else n
    | none => .nan

namespace Json

/-! ### Conversions -/

mutual

/-- `String(v)` does not throw: no object has a `toString` of its own, which JSON makes no function. -/
def printable : Json → Bool
  | .array items => allPrintable items
  | .object fields => fields.all fun f => f.1 ≠ js "toString"
  | _ => true

def allPrintable : List Json → Bool
  | [] => true
  | v :: rest => printable v && allPrintable rest

end

mutual

/-- `Number(v)`. -/
def toNumber : Json → Option JsNumber
  | .null => some 0
  | .bool b => some (if b then .ofNat 1 else 0)
  | .number n => some n
  | .string s => some (stringToNumber s)
  | .array items => arrayToNumber items
  | .object fields => if fields.all fun f => f.1 ≠ js "toString" then some .nan else none

/-- The number that the joined elements of an array spell. -/
def arrayToNumber : List Json → Option JsNumber
  | [] => some 0
  | [.bool _] => some .nan
  | [v] => toNumber v
  | items => if allPrintable items then some .nan else none

end

/-- What counts as true in a condition. -/
def truthy : Json → Bool
  | .null => false
  | .bool b => b
  | .number n => n.truthy
  | .string s => s ≠ []
  | .array _ => true
  | .object _ => true

/-- The code points of a string, as strings. -/
def codePoints : JsString → List JsString
  | [] => []
  | [c] => [[c]]
  | c :: d :: rest =>
      if 0xD800 ≤ c.val ∧ c.val < 0xDC00 ∧ 0xDC00 ≤ d.val ∧ d.val < 0xE000 then [c, d] :: codePoints rest
      else [c] :: codePoints (d :: rest)

/-- `[...v]`; `none` when `v` is not iterable. -/
def spread : Json → Option (List Json)
  | .string s => some ((codePoints s).map .string)
  | .array items => some items
  | _ => none

/-- `v === s`. -/
def isString (s : JsString) : Option Json → Bool
  | some (.string t) => s = t
  | _ => false

/-! ### Objects -/

/-- `v[key]`, for a key that is no method. -/
def field (key : JsString) : Json → Option Json
  | .object fields => assoc key fields
  | _ => none

/-- `{ ...fields, key: v }`. -/
def setField (key : JsString) (v : Json) (fields : List (JsString × Json)) : List (JsString × Json) :=
  if key ∈ fields.map Prod.fst then replace key v fields else fields ++ [(key, v)]

/-! ### Copies -/

mutual

/-- `JSON.parse(JSON.stringify(v))`. -/
def copy : Json → Json
  | .number n => if n.isFinite then .number n else .null
  | .array items => .array (copyItems items)
  | .object fields => .object (copyFields fields)
  | v => v

def copyItems : List Json → List Json
  | [] => []
  | v :: rest => copy v :: copyItems rest

def copyFields : List (JsString × Json) → List (JsString × Json)
  | [] => []
  | (key, v) :: rest => (key, copy v) :: copyFields rest

end

theorem assoc_setField (key : JsString) (v : Json) (fields : List (JsString × Json)) (key' : JsString) :
    assoc key' (setField key v fields) = if key' = key then some v else assoc key' fields := by
  unfold setField
  split_ifs with hkey heq heq
  · rw [assoc_replace, if_pos heq]
    cases hassoc : assoc key fields with
    | none => exact absurd hkey (assoc_eq_none_iff.mp hassoc)
    | some _ => rfl
  · rw [assoc_replace, if_neg heq]
  · rw [assoc_append, heq, assoc_eq_none_iff.mpr hkey]
    simp [assoc]
  · have hsingle : assoc key' [(key, v)] = none := if_neg fun h => heq h.symm
    rw [assoc_append, hsingle, Option.or_none]

theorem assoc_copyFields (key : JsString) (fields : List (JsString × Json)) :
    assoc key (copyFields fields) = (assoc key fields).map copy := by
  induction fields with
  | nil => rfl
  | cons f rest ih =>
      obtain ⟨key', v⟩ := f
      simp only [copyFields, assoc]
      split_ifs
      · rfl
      · exact ih

end Json

example : stringToNumber (js " 0x1F ") = .ofNat 31 ∧ stringToNumber (js "-1.5e1") = (JsNumber.ofNat 15).neg ∧
    stringToNumber (js "1e") = .nan := by decide +kernel

end BrowserMesh.Js
