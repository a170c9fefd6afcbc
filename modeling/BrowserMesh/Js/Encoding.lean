import BrowserMesh.Js.Json

/-! # Text and bytes

* **Text.**  `String(v)` of a JSON value; it throws on an object that has a `toString` of its own, which JSON makes no
  function.  Numbers other than natural ones are written by a parameter.
* **Bytes.**  `new TextEncoder().encode(s)`, where a lone surrogate becomes U+FFFD.
* **Content.**  How many bytes a JSON value holds, its keys not counted. -/

namespace BrowserMesh.Js

abbrev Bytes : Type := List (Fin 256)

/-! ### Text -/

namespace JsNumber

/-- `String(n)`: natural numbers up to `2 ** 53` are written in decimal, the others by `otherText`. -/
def toText (otherText : JsNumber → JsString) (n : JsNumber) : JsString :=
  match n.units? with
  | some k => if 0 ≤ k ∧ (oneUnits : ℤ) ∣ k ∧ k ≤ 2 ^ 53 * oneUnits then decimal (k.toNat / oneUnits) else otherText n
  | none => otherText n

theorem toText_ofNat {otherText : JsNumber → JsString} {n : ℕ} (h : n ≤ 2 ^ 53) :
    (ofNat n).toText otherText = decimal n := by
  have hunits : (ofNat n).units? = some ((n * oneUnits : ℕ) : ℤ) := by
    rw [ofNat, ofUnits_of_isDouble (isDouble_mul_oneUnits h)]
    rfl
  have hpos : 0 < oneUnits := by decide +kernel
  have hle : ((n * oneUnits : ℕ) : ℤ) ≤ 2 ^ 53 * oneUnits := by exact_mod_cast Nat.mul_le_mul_right _ h
  have hdvd : (oneUnits : ℤ) ∣ (n * oneUnits : ℕ) := ⟨n, by rw [mul_comm, Nat.cast_mul]⟩
  rw [toText, hunits]
  simp only [Int.natCast_nonneg, hdvd, hle, and_self, if_true, Int.toNat_natCast]
  rw [Nat.mul_div_cancel _ hpos]

end JsNumber

namespace Json

variable (numberText : JsNumber → JsString)

mutual

/-- `String(v)`; `none` when it throws. -/
def toText : Json → Option JsString
  | .null => some (js "null")
  | .bool true => some (js "true")
  | .bool false => some (js "false")
  | .number n => some (numberText n)
  | .string s => some s
  | .array items => joined items
  | .object fields => if fields.all fun f => f.1 ≠ js "toString" then some (js "[object Object]") else none

/-- `items.join(',')`: `null` leaves its place empty. -/
def joined : List Json → Option JsString
  | [] => some []
  | [.null] => some []
  | [v] => toText v
  | .null :: rest => (joined rest).map (js "," ++ ·)
  | v :: rest => do
      let t ← toText v
      some (t ++ js "," ++ (← joined rest))

end

end Json

/-! ### Bytes -/

/-- The bytes of a Unicode scalar value. -/
def utf8Bytes (n : ℕ) : Bytes :=
  if n < 0x80 then [Fin.ofNat _ n]
  else if n < 0x800 then [Fin.ofNat _ (0xC0 + n / 0x40), Fin.ofNat _ (0x80 + n % 0x40)]
  else if n < 0x10000 then
    [Fin.ofNat _ (0xE0 + n / 0x1000), Fin.ofNat _ (0x80 + n / 0x40 % 0x40), Fin.ofNat _ (0x80 + n % 0x40)]
  else
    [Fin.ofNat _ (0xF0 + n / 0x40000), Fin.ofNat _ (0x80 + n / 0x1000 % 0x40), Fin.ofNat _ (0x80 + n / 0x40 % 0x40),
      Fin.ofNat _ (0x80 + n % 0x40)]

/-- The scalar value of one element of `codePoints`. -/
def scalarValue : JsString → ℕ
  | [c] => if 0xD800 ≤ c.val ∧ c.val < 0xE000 then 0xFFFD else c.val
  | [c, d] => 0x10000 + (c.val - 0xD800) * 0x400 + (d.val - 0xDC00)
  | _ => 0xFFFD

/-- `new TextEncoder().encode(s)`. -/
def encodeUtf8 (s : JsString) : Bytes := (Json.codePoints s).flatMap fun p => utf8Bytes (scalarValue p)

example : encodeUtf8 (js "aé€😀" ++ [0xD800]) =
    [97, 0xC3, 0xA9, 0xE2, 0x82, 0xAC, 0xF0, 0x9F, 0x98, 0x80, 0xEF, 0xBF, 0xBD] := by decide +kernel

/-! ### Content -/

namespace Json

mutual

/-- The bytes of the strings in a value, and one for every other value. -/
def contentSize : Json → ℕ
  | .string s => (encodeUtf8 s).length
  | .array items => contentSizes items
  | .object fields => fieldSizes fields
  | _ => 1

def contentSizes : List Json → ℕ
  | [] => 0
  | v :: rest => contentSize v + contentSizes rest

def fieldSizes : List (JsString × Json) → ℕ
  | [] => 0
  | (_, v) :: rest => contentSize v + fieldSizes rest

end

end Json

end BrowserMesh.Js
