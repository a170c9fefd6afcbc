import Mathlib

/-! # Strings as sequences of UTF-16 code units

A string of the modelled language is a finite sequence of 16-bit code units, lone surrogates
included; `<` compares two strings unit by unit, which is the lexicographic order of
`List`.  This file has the literal embedding `js`, the decimal rendering of a natural
number, `split` on one unit, and `parseInt` in base ten.

The two facts used elsewhere are about names of the form `prefix ‖ sep ‖ decimal n`, where
`decimal n` does not contain `sep`: such a name determines both the prefix and the number
(`tagged_inj`), and the number is read back by parsing the part after the last separator,
whatever the prefix contains (`parseInt_lastPart_tagged`). -/

namespace BrowserMesh.Js

/-- A UTF-16 code unit. -/
abbrev CodeUnit := Fin 65536

instance neZero_codeUnits : NeZero 65536 := ⟨by decide⟩

instance neZero_bytes : NeZero 256 := ⟨by decide⟩

instance lawfulBEq_codeUnits : LawfulBEq CodeUnit := inferInstance

instance lawfulBEq_strings : LawfulBEq (List CodeUnit) := inferInstance

/-- A string: a sequence of code units, ordered lexicographically. -/
abbrev JsString := List CodeUnit

/-- A string that passed the check `!s || typeof s !== 'string'`. -/
abbrev NonEmptyString := {s : JsString // s ≠ []}

/-- The code units of a Unicode scalar value: one, or a surrogate pair. -/
def utf16 (c : Char) : List CodeUnit :=
  if c.toNat < 0x10000 then [Fin.ofNat _ c.toNat]
  else [Fin.ofNat _ (0xD800 + (c.toNat - 0x10000) / 0x400),
    Fin.ofNat _ (0xDC00 + (c.toNat - 0x10000) % 0x400)]

def js (s : String) : JsString := s.toList.flatMap utf16

/-- The unit `:`. -/
def colon : CodeUnit := 58

/-! ### Decimal rendering -/

/-- The code unit of a decimal digit. -/
def digitUnit (d : ℕ) : CodeUnit := Fin.ofNat _ (48 + d)

/-- `String(n)` for a natural number. -/
def decimal (n : ℕ) : JsString :=
  if n = 0 then [digitUnit 0] else ((Nat.digits 10 n).map digitUnit).reverse

/-- The value of a decimal digit unit. -/
def digitValue (c : CodeUnit) : ℕ := c.val - 48

/-- The unit is one of `0 … 9`. -/
def IsDigit (c : CodeUnit) : Prop := 48 ≤ c.val ∧ c.val ≤ 57

instance (c : CodeUnit) : Decidable (IsDigit c) := inferInstanceAs (Decidable (_ ∧ _))

theorem digitUnit_val {d : ℕ} (h : d < 10) : (digitUnit d).val = 48 + d := by
  simp only [digitUnit, Fin.val_ofNat]
  omega

theorem isDigit_digitUnit {d : ℕ} (h : d < 10) : IsDigit (digitUnit d) := by
  simp only [IsDigit, digitUnit_val h]
  omega

theorem digitValue_digitUnit {d : ℕ} (h : d < 10) : digitValue (digitUnit d) = d := by
  simp only [digitValue, digitUnit_val h]
  omega

theorem isDigit_of_mem_decimal {n : ℕ} {c : CodeUnit} (h : c ∈ decimal n) : IsDigit c := by
  unfold decimal at h
  split_ifs at h
  · rw [List.mem_singleton.mp h]
    exact isDigit_digitUnit (by norm_num)
  · rw [List.mem_reverse] at h
    obtain ⟨d, hd, rfl⟩ := List.mem_map.mp h
    exact isDigit_digitUnit (Nat.digits_lt_base (by norm_num) hd)

theorem decimal_ne_nil (n : ℕ) : decimal n ≠ [] := by
  unfold decimal
  split_ifs with h
  · simp
  · simpa [Nat.digits_ne_nil_iff_ne_zero] using h

theorem colon_not_mem_decimal (n : ℕ) : colon ∉ decimal n := by
  intro h
  have := isDigit_of_mem_decimal h
  simp [IsDigit, colon] at this

/-! ### `parseInt` in base ten -/

/-- The positional value of a list of digit units, most significant first. -/
def digitsValue (s : JsString) : ℕ := s.foldl (fun acc c => 10 * acc + digitValue c) 0

/-- The white space and line terminators that `parseInt` skips. -/
def IsSpace (c : CodeUnit) : Prop :=
  (9 ≤ c.val ∧ c.val ≤ 13) ∨ c.val ∈ [32, 160, 0x1680, 0x2028, 0x2029, 0x202F, 0x205F, 0x3000, 0xFEFF] ∨
    (0x2000 ≤ c.val ∧ c.val ≤ 0x200A)

instance (c : CodeUnit) : Decidable (IsSpace c) := inferInstanceAs (Decidable (_ ∨ _ ∨ _))

/-- The unsigned part of `parseInt(s, 10)`: the longest prefix of digits, `none` for `NaN`. -/
def parseDigits (s : JsString) : Option ℕ :=
  let ds := s.takeWhile (fun c => decide (IsDigit c))
  if ds = [] then none else some (digitsValue ds)

/-- `parseInt(s, 10)`; `none` for `NaN`. -/
def parseInt (s : JsString) : Option ℤ :=
  match s.dropWhile (fun c => decide (IsSpace c)) with
  | 43 :: t => (parseDigits t).map Int.ofNat
  | 45 :: t => (parseDigits t).map (fun n => -Int.ofNat n)
  | t => (parseDigits t).map Int.ofNat

theorem digitsValue_append (s : JsString) (c : CodeUnit) :
    digitsValue (s ++ [c]) = 10 * digitsValue s + digitValue c := by
  simp [digitsValue]

theorem digitsValue_reverse (ds : List ℕ) (h : ∀ d ∈ ds, d < 10) :
    digitsValue ((ds.map digitUnit).reverse) = Nat.ofDigits 10 ds := by
  induction ds with
  | nil => rfl
  | cons d ds ih =>
      have hd := h d List.mem_cons_self
      have ih := ih (fun e he => h e (List.mem_cons_of_mem d he))
      rw [List.map_cons, List.reverse_cons, digitsValue_append, ih, digitValue_digitUnit hd,
        Nat.ofDigits_cons]
      omega

theorem digitsValue_decimal (n : ℕ) : digitsValue (decimal n) = n := by
  unfold decimal
  split_ifs with h
  · rw [h]; rfl
  · rw [digitsValue_reverse _ (fun d hd => Nat.digits_lt_base (by norm_num) hd),
      Nat.ofDigits_digits]

theorem decimal_injective : Function.Injective decimal := by
  intro m n h
  rw [← digitsValue_decimal m, h, digitsValue_decimal]

/-- `parseInt` reads a decimal rendering back. -/
theorem parseInt_decimal (n : ℕ) : parseInt (decimal n) = some (n : ℤ) := by
  have hall : ∀ c ∈ decimal n, IsDigit c := fun c hc => isDigit_of_mem_decimal hc
  have htake : (decimal n).takeWhile (fun c => decide (IsDigit c)) = decimal n := by
    rw [List.takeWhile_eq_self_iff]
    exact fun c hc => by simpa using hall c hc
  have hparse : parseDigits (decimal n) = some n := by
    simp only [parseDigits, htake, if_neg (decimal_ne_nil n), digitsValue_decimal]
  obtain ⟨c, t, hct⟩ := List.exists_cons_of_ne_nil (decimal_ne_nil n)
  have hc : IsDigit c := hall c (by rw [hct]; exact List.mem_cons_self)
  have hspace : ¬ IsSpace c := by
    simp only [IsSpace, IsDigit, List.mem_cons, List.not_mem_nil, or_false] at hc ⊢
    omega
  have hdrop : (decimal n).dropWhile (fun c => decide (IsSpace c)) = c :: t := by
    rw [hct, List.dropWhile_cons_of_neg (by simpa using hspace)]
  have h43 : c ≠ 43 := by rintro rfl; simp [IsDigit] at hc
  have h45 : c ≠ 45 := by rintro rfl; simp [IsDigit] at hc
  unfold parseInt
  rw [hdrop]
  split
  · rename_i heq; exact absurd (List.cons.inj heq).1 h43
  · rename_i heq; exact absurd (List.cons.inj heq).1 h45
  · rw [← hct, hparse]; rfl

/-! ### Numbered names -/

/-- The part of `s` after the last occurrence of `sep` (all of `s` when there is none): the
last element of `s.split(sep)`. -/
def lastPart (sep : CodeUnit) (s : JsString) : JsString := (s.splitOn sep).getLastD []

/-- The name `prefix ‖ ":" ‖ n`. -/
def tagged (p : JsString) (n : ℕ) : JsString := p ++ colon :: decimal n

theorem lastPart_append {sep : CodeUnit} (p s : JsString) (h : sep ∉ s) :
    lastPart sep (p ++ sep :: s) = s := by
  unfold lastPart
  rw [List.splitOn_append_cons_self, List.splitOn_eq_singleton h]
  simp

/-- The number of a numbered name is read back by parsing its last part, also when the
prefix contains the separator. -/
theorem parseInt_lastPart_tagged (p : JsString) (n : ℕ) :
    parseInt (lastPart colon (tagged p n)) = some (n : ℤ) := by
  rw [tagged, lastPart_append _ _ (colon_not_mem_decimal n), parseInt_decimal]

/-- A numbered name determines its number and its prefix. -/
theorem tagged_inj {p q : JsString} {m n : ℕ} (h : tagged p m = tagged q n) : p = q ∧ m = n := by
  have hmn : m = n := by
    have := congrArg (fun s => parseInt (lastPart colon s)) h
    simpa [parseInt_lastPart_tagged] using this
  subst hmn
  exact ⟨List.append_cancel_right h, rfl⟩

end BrowserMesh.Js
