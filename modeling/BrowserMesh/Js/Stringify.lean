import BrowserMesh.Js.Encoding

/-! # The text of a JSON value

* **Strings.**  `quote` escapes control characters, quotes, backslashes and lone surrogates, so the text of a string can be
  read back whatever follows it (`quote_append_inj`).
* **Values.**  `JSON.stringify` without spaces.  Two values with one text are the same, up to the numbers that JSON cannot
  write (`stringify_injective`).
* **Bytes.**  The text of a value has no lone surrogates, so its bytes determine it (`encodeUtf8_stringify_injective`). -/

namespace BrowserMesh.Js

def IsSurrogate (c : CodeUnit) : Prop := 0xD800 ≤ c.val ∧ c.val < 0xE000

instance (c : CodeUnit) : Decidable (IsSurrogate c) := inferInstanceAs (Decidable (_ ∧ _))

/-- A high surrogate with a low one after it. -/
def IsPair (c d : CodeUnit) : Prop := 0xD800 ≤ c.val ∧ c.val < 0xDC00 ∧ 0xDC00 ≤ d.val ∧ d.val < 0xE000

instance (c d : CodeUnit) : Decidable (IsPair c d) := inferInstanceAs (Decidable (_ ∧ _))

/-! ### Escapes -/

/-- A lower-case hexadecimal digit. -/
def hexUnit (d : ℕ) : CodeUnit := if d < 10 then digitUnit d else Fin.ofNat _ (87 + d)

def hexDigits (c : CodeUnit) : JsString :=
  [hexUnit (c.val / 4096), hexUnit (c.val / 256 % 16), hexUnit (c.val / 16 % 16), hexUnit (c.val % 16)]

/-- The escape of a unit that stands alone. -/
def escapeUnit (c : CodeUnit) : JsString :=
  if c = 8 then [92, 98] else if c = 9 then [92, 116] else if c = 10 then [92, 110] else if c = 12 then [92, 102]
  else if c = 13 then [92, 114] else if c = 34 then [92, 34] else if c = 92 then [92, 92]
  else if c.val < 32 ∨ IsSurrogate c then 92 :: 117 :: hexDigits c
  else [c]

def escape : JsString → JsString
  | [c] => escapeUnit c
  | p => p

/-- `JSON.stringify` of a string. -/
def quote (s : JsString) : JsString := 34 :: (Json.codePoints s).flatMap escape ++ [34]

/-! ### Reading escapes -/

def hexValue (c : CodeUnit) : ℕ := if IsDigit c then digitValue c else c.val - 87

/-- The unit behind `\` and a letter. -/
def unescapeUnit (c : CodeUnit) : CodeUnit :=
  if c = 98 then 8 else if c = 116 then 9 else if c = 110 then 10 else if c = 102 then 12 else if c = 114 then 13 else c

/-- The code point that an escaped text begins with, and what follows. -/
def readEscape : JsString → JsString × JsString
  | [] => ([], [])
  | [c] => ([c], [])
  | c :: d :: rest =>
      if c = 92 then
        if d = 117 then
          ([Fin.ofNat _ ((rest.take 4).foldl (fun acc h => 16 * acc + hexValue h) 0)], rest.drop 4)
        else ([unescapeUnit d], rest)
      else if IsPair c d then ([c, d], rest)
      else ([c], d :: rest)

theorem hexValue_hexUnit {d : ℕ} (h : d < 16) : hexValue (hexUnit d) = d := by
  interval_cases d <;> rfl

theorem foldl_hexDigits (c : CodeUnit) :
    (hexDigits c).foldl (fun acc h => 16 * acc + hexValue h) 0 = c.val := by
  have hc := c.isLt
  simp only [hexDigits, List.foldl_cons, List.foldl_nil]
  rw [hexValue_hexUnit (by omega), hexValue_hexUnit (by omega), hexValue_hexUnit (by omega),
    hexValue_hexUnit (by omega)]
  omega

theorem readEscape_escapeUnit (c : CodeUnit) (x : JsString) : readEscape (escapeUnit c ++ x) = ([c], x) := by
  unfold escapeUnit
  split_ifs with h8 h9 h10 h12 h13 h34 h92 hcode
  · rw [h8]; rfl
  · rw [h9]; rfl
  · rw [h10]; rfl
  · rw [h12]; rfl
  · rw [h13]; rfl
  · rw [h34]; rfl
  · rw [h92]; rfl
  · have htake : (hexDigits c ++ x).take 4 = hexDigits c := List.take_left' rfl
    have hdrop : (hexDigits c ++ x).drop 4 = x := List.drop_left' rfl
    simp only [List.cons_append, readEscape, if_true, htake, hdrop, foldl_hexDigits]
    exact congrArg (fun u => ([u], x)) (Fin.ofNat_val_eq_self c)
  · obtain ⟨-, hsurrogate⟩ := not_or.mp hcode
    cases x with
    | nil => rfl
    | cons d x =>
        have hpair : ¬ IsPair c d := fun h => hsurrogate ⟨h.1, by have := h.2.1; omega⟩
        simp only [List.cons_append, List.nil_append, readEscape, if_neg h92, if_neg hpair]

/-- What `codePoints` makes of a string: single units and surrogate pairs. -/
inductive IsPoint : JsString → Prop
  | unit (c : CodeUnit) : IsPoint [c]
  | pair {c d : CodeUnit} (h : IsPair c d) : IsPoint [c, d]

variable {s p : JsString}

theorem isPoint_of_mem_codePoints (h : p ∈ Json.codePoints s) : IsPoint p := by
  induction s using Json.codePoints.induct with
  | case1 => cases h
  | case2 c =>
      obtain rfl := List.mem_singleton.mp h
      exact .unit c
  | case3 c d rest hpair ih =>
      rw [Json.codePoints, if_pos hpair] at h
      rcases List.mem_cons.mp h with rfl | h
      · exact .pair hpair
      · exact ih h
  | case4 c d rest hpair ih =>
      rw [Json.codePoints, if_neg hpair] at h
      rcases List.mem_cons.mp h with rfl | h
      · exact .unit c
      · exact ih h

theorem flatten_codePoints (s : JsString) : (Json.codePoints s).flatten = s := by
  induction s using Json.codePoints.induct with
  | case1 => rfl
  | case2 c => rfl
  | case3 c d rest hpair ih => rw [Json.codePoints, if_pos hpair, List.flatten_cons, ih]; rfl
  | case4 c d rest hpair ih => rw [Json.codePoints, if_neg hpair, List.flatten_cons, ih]; rfl

theorem readEscape_escape (h : IsPoint p) (x : JsString) : readEscape (escape p ++ x) = (p, x) := by
  cases h with
  | unit c => exact readEscape_escapeUnit c x
  | @pair c d h =>
      have hne : c ≠ 92 := by
        rintro rfl
        exact absurd h.1 (by decide)
      simp only [escape, List.cons_append, List.nil_append, readEscape, if_neg hne, if_pos h]

theorem escape_ne_quote (h : IsPoint p) (x y : JsString) : escape p ++ x ≠ 34 :: y := by
  intro heq
  have hread := readEscape_escape h x
  cases h with
  | unit c =>
      rw [escape] at heq
      unfold escapeUnit at heq
      split_ifs at heq with _ _ _ _ _ h34
      all_goals simp_all
  | @pair c d h =>
      obtain rfl : c = 34 := (List.cons.inj heq).1
      exact absurd h.1 (by decide)

theorem escapes_append_inj {ps qs : List JsString} (hp : ∀ p ∈ ps, IsPoint p) (hq : ∀ q ∈ qs, IsPoint q)
    {x y : JsString} (h : ps.flatMap escape ++ 34 :: x = qs.flatMap escape ++ 34 :: y) : ps = qs ∧ x = y := by
  induction ps generalizing qs with
  | nil =>
      cases qs with
      | nil => exact ⟨rfl, (List.cons.inj h).2⟩
      | cons q qs =>
          rw [List.flatMap_cons, List.append_assoc] at h
          exact absurd h.symm (escape_ne_quote (hq q List.mem_cons_self) _ _)
  | cons p ps ih =>
      cases qs with
      | nil =>
          rw [List.flatMap_cons, List.append_assoc] at h
          exact absurd h (escape_ne_quote (hp p List.mem_cons_self) _ _)
      | cons q qs =>
          rw [List.flatMap_cons, List.append_assoc, List.flatMap_cons, List.append_assoc] at h
          have hread := congrArg readEscape h
          rw [readEscape_escape (hp p List.mem_cons_self), readEscape_escape (hq q List.mem_cons_self),
            Prod.mk.injEq] at hread
          obtain ⟨rfl, hrest⟩ := hread
          obtain ⟨rfl, hxy⟩ := ih (fun p hp' => hp p (List.mem_cons_of_mem _ hp'))
            (fun q hq' => hq q (List.mem_cons_of_mem _ hq')) hrest
          exact ⟨rfl, hxy⟩

/-- The text of a string can be read back, whatever follows. -/
theorem quote_append_inj {t x y : JsString} (h : quote s ++ x = quote t ++ y) : s = t ∧ x = y := by
  simp only [quote, List.cons_append, List.append_assoc, List.nil_append, List.cons.injEq, true_and] at h
  obtain ⟨hpoints, hxy⟩ := escapes_append_inj (fun p hp => isPoint_of_mem_codePoints hp)
    (fun q hq => isPoint_of_mem_codePoints hq) h
  refine ⟨?_, hxy⟩
  rw [← flatten_codePoints s, hpoints, flatten_codePoints]

/-! ### Values -/

/-- A unit that occurs in the text of a number: a digit, `-`, `+`, `.` or `e`. -/
def IsNumberUnit (c : CodeUnit) : Prop := IsDigit c ∨ c ∈ ([45, 43, 46, 101] : List CodeUnit)

instance (c : CodeUnit) : Decidable (IsNumberUnit c) := inferInstanceAs (Decidable (_ ∨ _))

/-- How numbers other than natural ones are written: no two finite numbers alike. -/
structure NumberText where
  otherText : JsNumber → JsString
  inj : ∀ {m n : JsNumber}, m.isFinite = true → n.isFinite = true → m.toText otherText = n.toText otherText → m = n
  ne_nil : ∀ {n : JsNumber}, n.isFinite = true → n.toText otherText ≠ []
  units : ∀ {n : JsNumber} {c : CodeUnit}, n.isFinite = true → c ∈ n.toText otherText → IsNumberUnit c

/-- An integer in decimal. -/
def signedDecimal (k : ℤ) : JsString := (if k < 0 then [45] else []) ++ decimal k.natAbs

variable {c : CodeUnit}

theorem isNumberUnit_of_mem_decimal {n : ℕ} (h : c ∈ decimal n) : IsNumberUnit c :=
  Or.inl (isDigit_of_mem_decimal h)

theorem isNumberUnit_of_mem_signedDecimal {k : ℤ} (h : c ∈ signedDecimal k) : IsNumberUnit c := by
  unfold signedDecimal at h
  rcases List.mem_append.mp h with h | h
  · split_ifs at h
    · rw [List.mem_singleton.mp h]
      decide
    · cases h
  · exact isNumberUnit_of_mem_decimal h

theorem signedDecimal_injective : Function.Injective signedDecimal := by
  intro k l h
  have hminus : ∀ (m : ℕ) (t : JsString), (45 :: t : JsString) ≠ decimal m := by
    intro m t heq
    exact absurd (isDigit_of_mem_decimal (heq ▸ List.mem_cons_self : (45 : CodeUnit) ∈ decimal m)) (by decide)
  unfold signedDecimal at h
  split_ifs at h with hk hl hl
  · have habs := decimal_injective (List.cons.inj h).2
    omega
  · exact absurd h (hminus _ _)
  · exact absurd h.symm (hminus _ _)
  · have habs := decimal_injective h
    omega

/-- A number by how many of the least positive numbers it is. -/
def unitText (n : JsNumber) : JsString := (n.units?.map fun k => signedDecimal k ++ [101]).getD []

/-- The number is written in decimal. -/
def Plain (k : ℤ) : Prop := 0 ≤ k ∧ (oneUnits : ℤ) ∣ k ∧ k ≤ 2 ^ 53 * oneUnits

instance (k : ℤ) : Decidable (Plain k) := inferInstanceAs (Decidable (_ ∧ _ ∧ _))

theorem toText_unitText {n : JsNumber} {k : ℤ} (h : n.units? = some k) :
    n.toText unitText = if Plain k then decimal (k.toNat / oneUnits) else signedDecimal k ++ [101] := by
  rw [JsNumber.toText, h]
  dsimp only
  rw [unitText, h]
  rfl

/-- Numbers written so are written differently. -/
def unitNumbers : NumberText where
  otherText := unitText
  inj := by
    intro m n hm hn h
    obtain ⟨k, hk⟩ := Option.isSome_iff_exists.mp hm
    obtain ⟨l, hl⟩ := Option.isSome_iff_exists.mp hn
    have hends : ∀ (q : ℕ) (t : JsString), t ++ [101] ≠ decimal q := by
      intro q t heq
      have hmem : (101 : CodeUnit) ∈ decimal q := heq ▸ List.mem_append_right t List.mem_cons_self
      exact absurd (isDigit_of_mem_decimal hmem) (by decide)
    have hsame : k = l := by
      rw [toText_unitText hk, toText_unitText hl] at h
      split_ifs at h with hplain hplain' hplain'
      · obtain ⟨hk0, ⟨q, rfl⟩, -⟩ := hplain
        obtain ⟨hl0, ⟨q', rfl⟩, -⟩ := hplain'
        have hpos : 0 < oneUnits := by decide +kernel
        have hquot : ∀ r : ℤ, 0 ≤ (oneUnits : ℤ) * r → ((oneUnits : ℤ) * r).toNat / oneUnits = r.toNat := by
          intro r hr
          have hr0 : 0 ≤ r := nonneg_of_mul_nonneg_right hr (by exact_mod_cast hpos)
          rw [Int.toNat_mul (Int.natCast_nonneg _) hr0, Int.toNat_natCast, Nat.mul_div_cancel_left _ hpos]
        have hdecimal := decimal_injective h
        rw [hquot q hk0, hquot q' hl0] at hdecimal
        have hq0 : 0 ≤ q := nonneg_of_mul_nonneg_right hk0 (by exact_mod_cast hpos)
        have hq0' : 0 ≤ q' := nonneg_of_mul_nonneg_right hl0 (by exact_mod_cast hpos)
        rw [show q = q' by omega]
      · exact absurd h.symm (hends _ _)
      · exact absurd h (hends _ _)
      · exact signedDecimal_injective (List.append_inj_left' h rfl)
    obtain ⟨_, rfl⟩ := JsNumber.units?_eq_some.mp hk
    obtain ⟨_, rfl⟩ := JsNumber.units?_eq_some.mp hl
    exact JsNumber.fin_congr hsame
  ne_nil := by
    intro n hn
    obtain ⟨k, hk⟩ := Option.isSome_iff_exists.mp hn
    rw [toText_unitText hk]
    split_ifs
    · exact decimal_ne_nil _
    · exact fun h => by cases (List.append_eq_nil_iff.mp h).2
  units := by
    intro n c hn hc
    obtain ⟨k, hk⟩ := Option.isSome_iff_exists.mp hn
    rw [toText_unitText hk] at hc
    split_ifs at hc
    · exact isNumberUnit_of_mem_decimal hc
    · rcases List.mem_append.mp hc with hc | hc
      · exact isNumberUnit_of_mem_signedDecimal hc
      · rw [List.mem_singleton.mp hc]
        decide

namespace Json
variable (numbers : NumberText)

mutual

/-- `JSON.stringify(v)`. -/
def stringify : Json → JsString
  | .null => js "null"
  | .bool true => js "true"
  | .bool false => js "false"
  | .number n => if n.isFinite then n.toText numbers.otherText else js "null"
  | .string s => quote s
  | .array items => 91 :: stringifyItems [] items
  | .object fields => 123 :: stringifyFields [] fields

/-- The items from one on, with what separates it from the one before. -/
def stringifyItems (separator : JsString) : List Json → JsString
  | [] => [93]
  | v :: rest => separator ++ stringify v ++ stringifyItems [44] rest

def stringifyFields (separator : JsString) : List (JsString × Json) → JsString
  | [] => [125]
  | (key, v) :: rest => separator ++ quote key ++ colon :: stringify v ++ stringifyFields [44] rest

end

/-- What may follow a value: nothing, or one of `,`, `]` and `}`. -/
def Stops : JsString → Prop
  | [] => True
  | c :: _ => c = 44 ∨ c = 93 ∨ c = 125

/-- What a value looks like from its first unit. -/
def kind : Json → ℕ
  | .null => 0
  | .bool true => 1
  | .bool false => 2
  | .number n => if n.isFinite then 3 else 0
  | .string _ => 4
  | .array _ => 5
  | .object _ => 6

def kindOfUnit (c : CodeUnit) : ℕ :=
  if c = 110 then 0 else if c = 116 then 1 else if c = 102 then 2 else if c = 34 then 4 else if c = 91 then 5
  else if c = 123 then 6 else if IsNumberUnit c then 3 else 7

variable {c : CodeUnit}

theorem kindOfUnit_of_isNumberUnit (h : IsNumberUnit c) : kindOfUnit c = 3 := by
  have hne : c ≠ 110 ∧ c ≠ 116 ∧ c ≠ 102 ∧ c ≠ 34 ∧ c ≠ 91 ∧ c ≠ 123 := by
    refine ⟨?_, ?_, ?_, ?_, ?_, ?_⟩ <;> (rintro rfl; exact absurd h (by decide))
  obtain ⟨h1, h2, h3, h4, h5, h6⟩ := hne
  rw [kindOfUnit, if_neg h1, if_neg h2, if_neg h3, if_neg h4, if_neg h5, if_neg h6, if_pos h]

theorem stringify_eq_cons (v : Json) : ∃ c t, stringify numbers v = c :: t ∧ kindOfUnit c = kind v := by
  cases v with
  | null => exact ⟨110, _, rfl, rfl⟩
  | bool b => cases b <;> exact ⟨_, _, rfl, rfl⟩
  | number n =>
      rw [stringify, kind]
      split_ifs with hfinite
      · cases htext : n.toText numbers.otherText with
        | nil => exact absurd htext (numbers.ne_nil hfinite)
        | cons c t =>
            refine ⟨c, t, rfl, kindOfUnit_of_isNumberUnit (numbers.units hfinite ?_)⟩
            rw [htext]
            exact List.mem_cons_self
      · exact ⟨110, _, rfl, rfl⟩
  | string s => exact ⟨34, _, rfl, rfl⟩
  | array items => exact ⟨91, _, rfl, rfl⟩
  | object fields => exact ⟨123, _, rfl, rfl⟩

variable {numbers}

theorem kind_eq_of_append {v w : Json} {x y : JsString} (h : stringify numbers v ++ x = stringify numbers w ++ y) :
    kind v = kind w := by
  obtain ⟨c, t, hv, hc⟩ := stringify_eq_cons numbers v
  obtain ⟨d, u, hw, hd⟩ := stringify_eq_cons numbers w
  rw [hv, hw] at h
  rw [← hc, ← hd, (List.cons.inj h).1]

theorem kind_lt (v : Json) : kind v < 7 := by
  cases v with
  | bool b => cases b <;> decide
  | number n =>
      rw [kind]
      split_ifs <;> decide
  | null => decide
  | string s => exact (by decide : 4 < 7)
  | array items => exact (by decide : 5 < 7)
  | object fields => exact (by decide : 6 < 7)

/-- No value begins with a unit that ends a list. -/
theorem stringify_append_ne {v : Json} (hc : kindOfUnit c = 7) (x y : JsString) :
    stringify numbers v ++ x ≠ c :: y := by
  intro h
  obtain ⟨d, t, hv, hd⟩ := stringify_eq_cons numbers v
  rw [hv] at h
  obtain rfl := (List.cons.inj h).1
  exact absurd (kind_lt v) (by rw [← hd, hc]; decide)

variable {s : JsString}

/-- The text of a number can be read back before what may follow a value. -/
theorem number_append_inj {t x y : JsString} (hs : ∀ c ∈ s, IsNumberUnit c) (ht : ∀ c ∈ t, IsNumberUnit c)
    (hx : Stops x) (hy : Stops y) (h : s ++ x = t ++ y) : s = t ∧ x = y := by
  have hstops : ∀ {c : CodeUnit} {l : JsString}, Stops (c :: l) → ¬ IsNumberUnit c := by
    rintro c l (rfl | rfl | rfl) <;> decide
  induction s generalizing t with
  | nil =>
      cases t with
      | nil => exact ⟨rfl, h⟩
      | cons c t =>
          rw [List.nil_append, List.cons_append] at h
          rw [h] at hx
          exact absurd (ht c List.mem_cons_self) (hstops hx)
  | cons c s ih =>
      cases t with
      | nil =>
          rw [List.nil_append, List.cons_append] at h
          rw [← h] at hy
          exact absurd (hs c List.mem_cons_self) (hstops hy)
      | cons d t =>
          obtain ⟨rfl, hrest⟩ := List.cons.inj h
          obtain ⟨rfl, hxy⟩ := ih (fun c hc => hs c (List.mem_cons_of_mem _ hc))
            (fun c hc => ht c (List.mem_cons_of_mem _ hc)) hrest
          exact ⟨rfl, hxy⟩

/-- Induction over a value, with the fact for all items of an array and all fields of an object. -/
@[elab_as_elim] theorem inductOn {P : Json → Prop} (null : P .null) (bool : ∀ b, P (.bool b))
    (number : ∀ n, P (.number n)) (string : ∀ s, P (.string s))
    (array : ∀ items, (∀ v ∈ items, P v) → P (.array items))
    (object : ∀ fields, (∀ f ∈ fields, P f.2) → P (.object fields)) (v : Json) : P v :=
  @Json.rec P (fun items => ∀ v ∈ items, P v) (fun fields => ∀ f ∈ fields, P f.2) (fun f => P f.2) null bool number
    string array object (fun _ h => absurd h List.not_mem_nil)
    (fun _ _ hv hrest _ h => (List.mem_cons.mp h).elim (fun e => e ▸ hv) (hrest _))
    (fun _ h => absurd h List.not_mem_nil)
    (fun _ _ hf hrest _ h => (List.mem_cons.mp h).elim (fun e => e ▸ hf) (hrest _))
    (fun _ _ hv => hv) v

section inj
variable (numbers)

/-- The text of the value can be read back, whatever may follow. -/
def Readable (v : Json) : Prop :=
  ∀ (w : Json) (x y : JsString), Stops x → Stops y → stringify numbers v ++ x = stringify numbers w ++ y →
    copy v = copy w ∧ x = y

variable {numbers}

theorem stringifyItems_append_inj {vs ws : List Json} (hvs : ∀ v ∈ vs, Readable numbers v) {separator : JsString}
    (hsep : separator = [] ∨ separator = [44]) {x y : JsString}
    (h : stringifyItems numbers separator vs ++ x = stringifyItems numbers separator ws ++ y) :
    copyItems vs = copyItems ws ∧ x = y := by
  have hstops : ∀ (l : List Json) (z : JsString), Stops (stringifyItems numbers [44] l ++ z) := by
    intro l z
    cases l with
    | nil => exact Or.inr (Or.inl rfl)
    | cons v l => exact Or.inl rfl
  have hends : ∀ (v : Json) (l : List Json) (y z : JsString),
      stringifyItems numbers separator (v :: l) ++ y ≠ 93 :: z := by
    intro v l y z heq
    rw [stringifyItems, List.append_assoc, List.append_assoc] at heq
    rcases hsep with rfl | rfl
    · exact stringify_append_ne (by decide) _ _ heq
    · exact absurd (List.cons.inj heq).1 (by decide)
  induction vs generalizing ws separator with
  | nil =>
      cases ws with
      | nil => exact ⟨rfl, (List.cons.inj h).2⟩
      | cons w ws => exact absurd h.symm (hends w ws y x)
  | cons v vs ih =>
      cases ws with
      | nil => exact absurd h (hends v vs x y)
      | cons w ws =>
          rw [stringifyItems, stringifyItems, List.append_assoc, List.append_assoc, List.append_assoc,
            List.append_assoc] at h
          obtain ⟨hv, hrest⟩ := hvs v List.mem_cons_self w _ _ (hstops vs x) (hstops ws y) (List.append_cancel_left h)
          obtain ⟨hitems, hxy⟩ := ih (fun v hv => hvs v (List.mem_cons_of_mem _ hv)) (Or.inr rfl) hrest
            (fun v l y z heq => absurd (List.cons.inj heq).1 (by decide))
          exact ⟨by rw [copyItems, copyItems, hv, hitems], hxy⟩

theorem stringifyFields_append_inj {vs ws : List (JsString × Json)} (hvs : ∀ f ∈ vs, Readable numbers f.2)
    {separator : JsString} (hsep : separator = [] ∨ separator = [44]) {x y : JsString}
    (h : stringifyFields numbers separator vs ++ x = stringifyFields numbers separator ws ++ y) :
    copyFields vs = copyFields ws ∧ x = y := by
  have hstops : ∀ (l : List (JsString × Json)) (z : JsString), Stops (stringifyFields numbers [44] l ++ z) := by
    intro l z
    cases l with
    | nil => exact Or.inr (Or.inr rfl)
    | cons f l => exact Or.inl rfl
  have hends : ∀ (f : JsString × Json) (l : List (JsString × Json)) (y z : JsString),
      stringifyFields numbers separator (f :: l) ++ y ≠ 125 :: z := by
    intro f l y z heq
    rw [stringifyFields] at heq
    rcases hsep with rfl | rfl
    · exact absurd (List.cons.inj heq).1 (by decide)
    · exact absurd (List.cons.inj heq).1 (by decide)
  induction vs generalizing ws separator with
  | nil =>
      cases ws with
      | nil => exact ⟨rfl, (List.cons.inj h).2⟩
      | cons f ws => exact absurd h.symm (hends f ws y x)
  | cons f vs ih =>
      obtain ⟨key, v⟩ := f
      cases ws with
      | nil => exact absurd h (hends (key, v) vs x y)
      | cons g ws =>
          obtain ⟨key', w⟩ := g
          rw [stringifyFields, stringifyFields] at h
          simp only [List.append_assoc, List.cons_append, List.append_cancel_left_eq] at h
          obtain ⟨rfl, hafter⟩ := quote_append_inj h
          obtain ⟨hv, hrest⟩ := hvs (key, v) List.mem_cons_self w _ _ (hstops vs x) (hstops ws y)
            (List.cons.inj hafter).2
          obtain ⟨hfields, hxy⟩ := ih (fun f hf => hvs f (List.mem_cons_of_mem _ hf)) (Or.inr rfl) hrest
            (fun f l y z heq => absurd (List.cons.inj heq).1 (by decide))
          exact ⟨by rw [copyFields, copyFields, hv, hfields], hxy⟩

theorem copy_number_of_not_finite {n : JsNumber} (h : ¬ n.isFinite = true) : copy (.number n) = .null := by
  rw [copy, if_neg h]

/-- The kind of a number is that of a value that is no other one. -/
theorem kind_number_of_ne {n : JsNumber} {k : ℕ} (h : kind (.number n) = k) : k = 3 ∨ k = 0 := by
  rw [kind] at h
  split_ifs at h
  · exact Or.inl h.symm
  · exact Or.inr h.symm

theorem readable (v : Json) : Readable numbers v := by
  induction v using inductOn with
  | null =>
      intro w x y _ _ h
      have hkind := kind_eq_of_append h
      cases w with
      | null => exact ⟨rfl, List.append_cancel_left h⟩
      | number n =>
          rw [kind, kind] at hkind
          split_ifs at hkind with hfinite
          rw [stringify, stringify, if_neg hfinite] at h
          exact ⟨(copy_number_of_not_finite hfinite).symm, List.append_cancel_left h⟩
      | bool b => cases b <;> cases hkind
      | string t => cases hkind
      | array items => cases hkind
      | object fields => cases hkind
  | bool b =>
      intro w x y _ _ h
      have hkind := kind_eq_of_append h
      cases w with
      | bool b' =>
          cases b <;> cases b'
          · exact ⟨rfl, List.append_cancel_left h⟩
          · cases hkind
          · cases hkind
          · exact ⟨rfl, List.append_cancel_left h⟩
      | number n => cases b <;> rcases kind_number_of_ne hkind.symm with h' | h' <;> cases h'
      | null => cases b <;> cases hkind
      | string t => cases b <;> cases hkind
      | array items => cases b <;> cases hkind
      | object fields => cases b <;> cases hkind
  | number n =>
      intro w x y hx hy h
      have hkind := kind_eq_of_append h
      cases w with
      | number m =>
          rw [kind, kind] at hkind
          rw [stringify, stringify] at h
          split_ifs at hkind with hn hm hm
          · rw [if_pos hn, if_pos hm] at h
            obtain ⟨htext, hxy⟩ := number_append_inj (fun c hc => numbers.units hn hc)
              (fun c hc => numbers.units hm hc) hx hy h
            obtain rfl := numbers.inj hn hm htext
            exact ⟨rfl, hxy⟩
          · rw [if_neg hn, if_neg hm] at h
            exact ⟨by rw [copy_number_of_not_finite hn, copy_number_of_not_finite hm], List.append_cancel_left h⟩
      | null =>
          rw [kind, kind] at hkind
          split_ifs at hkind with hfinite
          rw [stringify, stringify, if_neg hfinite] at h
          exact ⟨copy_number_of_not_finite hfinite, List.append_cancel_left h⟩
      | bool b => cases b <;> rcases kind_number_of_ne hkind with h' | h' <;> cases h'
      | string t => rcases kind_number_of_ne hkind with h' | h' <;> cases h'
      | array items => rcases kind_number_of_ne hkind with h' | h' <;> cases h'
      | object fields => rcases kind_number_of_ne hkind with h' | h' <;> cases h'
  | string s =>
      intro w x y _ _ h
      have hkind := kind_eq_of_append h
      cases w with
      | string t =>
          obtain ⟨rfl, hxy⟩ := quote_append_inj h
          exact ⟨rfl, hxy⟩
      | number n => rcases kind_number_of_ne hkind.symm with h' | h' <;> cases h'
      | bool b => cases b <;> cases hkind
      | null => cases hkind
      | array items => cases hkind
      | object fields => cases hkind
  | array items hitems =>
      intro w x y _ _ h
      have hkind := kind_eq_of_append h
      cases w with
      | array items' =>
          obtain ⟨hsame, hxy⟩ := stringifyItems_append_inj hitems (Or.inl rfl) (List.cons.inj h).2
          exact ⟨by rw [copy, copy, hsame], hxy⟩
      | number n => rcases kind_number_of_ne hkind.symm with h' | h' <;> cases h'
      | bool b => cases b <;> cases hkind
      | null => cases hkind
      | string t => cases hkind
      | object fields => cases hkind
  | object fields hfields =>
      intro w x y _ _ h
      have hkind := kind_eq_of_append h
      cases w with
      | object fields' =>
          obtain ⟨hsame, hxy⟩ := stringifyFields_append_inj hfields (Or.inl rfl) (List.cons.inj h).2
          exact ⟨by rw [copy, copy, hsame], hxy⟩
      | number n => rcases kind_number_of_ne hkind.symm with h' | h' <;> cases h'
      | bool b => cases b <;> cases hkind
      | null => cases hkind
      | string t => cases hkind
      | array items => cases hkind

/-- Values with one text are the same to a reader. -/
theorem stringify_injective {v w : Json} (h : stringify numbers v = stringify numbers w) : copy v = copy w := by
  have hread : stringify numbers v ++ [] = stringify numbers w ++ [] := by rw [h]
  exact (readable v w [] [] trivial trivial hread).1

end inj

/-! ### Bytes -/

/-- A code point that is a Unicode scalar value. -/
inductive IsScalar : JsString → Prop
  | unit {c : CodeUnit} (h : ¬ IsSurrogate c) : IsScalar [c]
  | pair {c d : CodeUnit} (h : IsPair c d) : IsScalar [c, d]

def WellFormed (s : JsString) : Prop := ∀ p ∈ codePoints s, IsScalar p

theorem codePoints_pair {d : CodeUnit} (h : IsPair c d) (rest : JsString) :
    codePoints (c :: d :: rest) = [c, d] :: codePoints rest := if_pos h

theorem codePoints_unit {d : CodeUnit} (h : ¬ IsPair c d) (rest : JsString) :
    codePoints (c :: d :: rest) = [c] :: codePoints (d :: rest) := if_neg h

theorem codePoints_append (hs : WellFormed s) (t : JsString) :
    codePoints (s ++ t) = codePoints s ++ codePoints t := by
  induction s using codePoints.induct with
  | case1 => rfl
  | case2 c =>
      cases t with
      | nil => rfl
      | cons d t =>
          have hpair : ¬ IsPair c d := by
            intro h
            cases hs [c] List.mem_cons_self with
            | unit hc => exact hc ⟨h.1, by have := h.2.1; omega⟩
          exact if_neg hpair
  | case3 c d rest hpair ih =>
      rw [WellFormed, codePoints_pair hpair] at hs
      rw [List.cons_append, List.cons_append, codePoints_pair hpair, codePoints_pair hpair,
        ih fun p hp => hs p (List.mem_cons_of_mem _ hp), List.cons_append]
  | case4 c d rest hpair ih =>
      rw [WellFormed, codePoints_unit hpair] at hs
      have hrest := ih fun p hp => hs p (List.mem_cons_of_mem _ hp)
      rw [List.cons_append] at hrest
      rw [List.cons_append, List.cons_append, codePoints_unit hpair, hrest, codePoints_unit hpair, List.cons_append]

theorem WellFormed.append {t : JsString} (hs : WellFormed s) (ht : WellFormed t) : WellFormed (s ++ t) := by
  intro p hp
  rw [codePoints_append hs] at hp
  rcases List.mem_append.mp hp with hp | hp
  · exact hs p hp
  · exact ht p hp

theorem wellFormed_of_not_surrogate (h : ∀ c ∈ s, ¬ IsSurrogate c) : WellFormed s := by
  intro p hp
  have hmem : ∀ c ∈ p, c ∈ s := by
    intro c hc
    rw [← flatten_codePoints s]
    exact List.mem_flatten.mpr ⟨p, hp, hc⟩
  cases isPoint_of_mem_codePoints hp with
  | unit c => exact .unit (h c (hmem c List.mem_cons_self))
  | pair hpair => exact .pair hpair

theorem wellFormed_of_all (h : s.all (fun c => decide (¬ IsSurrogate c)) = true) : WellFormed s :=
  wellFormed_of_not_surrogate fun c hc => of_decide_eq_true (List.all_eq_true.mp h c hc)

theorem WellFormed.cons (hc : ¬ IsSurrogate c) (hs : WellFormed s) :
    WellFormed (c :: s) := by
  have hunit : WellFormed [c] := wellFormed_of_not_surrogate fun d hd => by
    rw [List.mem_singleton.mp hd]
    exact hc
  exact hunit.append hs

theorem wellFormed_nil : WellFormed [] := fun _ h => absurd h List.not_mem_nil

theorem not_isSurrogate_hexUnit {d : ℕ} (h : d < 16) : ¬ IsSurrogate (hexUnit d) := by
  interval_cases d <;> decide

theorem wellFormed_hexDigits (c : CodeUnit) : WellFormed (hexDigits c) := by
  have hlt := c.isLt
  refine WellFormed.cons ?_ (WellFormed.cons ?_ (WellFormed.cons ?_ (WellFormed.cons ?_ wellFormed_nil)))
  · exact not_isSurrogate_hexUnit (by omega)
  · exact not_isSurrogate_hexUnit (by omega)
  · exact not_isSurrogate_hexUnit (by omega)
  · exact not_isSurrogate_hexUnit (by omega)

theorem wellFormed_escape {p : JsString} (h : IsPoint p) : WellFormed (escape p) := by
  cases h with
  | unit c =>
      rw [escape]
      unfold escapeUnit
      split_ifs with _ _ _ _ _ _ _ hcode
      · exact wellFormed_of_all (by decide)
      · exact wellFormed_of_all (by decide)
      · exact wellFormed_of_all (by decide)
      · exact wellFormed_of_all (by decide)
      · exact wellFormed_of_all (by decide)
      · exact wellFormed_of_all (by decide)
      · exact wellFormed_of_all (by decide)
      · exact WellFormed.cons (by decide) (WellFormed.cons (by decide) (wellFormed_hexDigits c))
      · exact WellFormed.cons (not_or.mp hcode).2 wellFormed_nil
  | @pair c d h =>
      intro p hp
      rw [show escape [c, d] = [c, d] from rfl, codePoints_pair h] at hp
      obtain rfl := List.mem_singleton.mp hp
      exact .pair h

theorem wellFormed_quote (s : JsString) : WellFormed (quote s) := by
  have hpoints : ∀ ps : List JsString, (∀ p ∈ ps, IsPoint p) → WellFormed (ps.flatMap escape) := by
    intro ps hps
    induction ps with
    | nil => exact wellFormed_nil
    | cons p ps ih =>
        rw [List.flatMap_cons]
        exact (wellFormed_escape (hps p List.mem_cons_self)).append (ih fun q hq => hps q (List.mem_cons_of_mem _ hq))
  refine WellFormed.append (WellFormed.cons (by decide) (hpoints _ fun p hp => isPoint_of_mem_codePoints hp)) ?_
  exact WellFormed.cons (by decide) wellFormed_nil

theorem not_isSurrogate_of_isNumberUnit (h : IsNumberUnit c) : ¬ IsSurrogate c := by
  rintro ⟨hlow, -⟩
  rcases h with ⟨-, hdigit⟩ | hmem
  · omega
  · simp only [List.mem_cons, List.not_mem_nil, or_false] at hmem
    rcases hmem with rfl | rfl | rfl | rfl <;> exact absurd hlow (by decide)

/-- A quoted string is at least as long as the string and two quotes. -/
theorem length_quote (s : JsString) : s.length + 2 ≤ (quote s).length := by
  have hescape : ∀ p, p.length ≤ (escape p).length := by
    intro p
    unfold escape
    split
    · unfold escapeUnit
      split_ifs <;> simp [hexDigits]
    · exact le_rfl
  have hpoints : ∀ ps : List JsString, ps.flatten.length ≤ (ps.flatMap escape).length := by
    intro ps
    induction ps with
    | nil => exact le_rfl
    | cons p ps ih =>
        rw [List.flatten_cons, List.flatMap_cons, List.length_append, List.length_append]
        exact Nat.add_le_add (hescape p) ih
  have h := hpoints (codePoints s)
  rw [flatten_codePoints] at h
  simp only [quote, List.cons_append, List.length_cons, List.length_append, List.length_nil]
  omega

theorem length_stringifyFields (numbers : NumberText) (fields : List (JsString × Json)) (separator : JsString) :
    (fields.map fun f => f.1.length + 3).sum ≤ (stringifyFields numbers separator fields).length := by
  induction fields generalizing separator with
  | nil => exact Nat.zero_le _
  | cons f fields ih =>
      obtain ⟨key, v⟩ := f
      have hkey := length_quote key
      have hrest := ih [44]
      simp only [List.map_cons, List.sum_cons, stringifyFields, List.length_append, List.length_cons]
      omega

theorem wellFormed_stringify (numbers : NumberText) (v : Json) : WellFormed (stringify numbers v) := by
  induction v using inductOn with
  | null => exact wellFormed_of_all (s := js "null") (by decide)
  | bool b =>
      cases b
      · exact wellFormed_of_all (s := js "false") (by decide)
      · exact wellFormed_of_all (s := js "true") (by decide)
  | number n =>
      rw [stringify]
      split_ifs with hfinite
      · exact wellFormed_of_not_surrogate fun c hc => not_isSurrogate_of_isNumberUnit (numbers.units hfinite hc)
      · exact wellFormed_of_all (by decide)
  | string s => exact wellFormed_quote s
  | array items hitems =>
      have hrest : ∀ (l : List Json) (separator : JsString), (∀ v ∈ l, WellFormed (stringify numbers v)) →
          WellFormed separator → WellFormed (stringifyItems numbers separator l) := by
        intro l
        induction l with
        | nil => exact fun _ _ _ => WellFormed.cons (by decide) wellFormed_nil
        | cons v l ih =>
            intro separator hl hsep
            refine (hsep.append (hl v List.mem_cons_self)).append ?_
            exact ih [44] (fun w hw => hl w (List.mem_cons_of_mem _ hw)) (WellFormed.cons (by decide) wellFormed_nil)
      exact WellFormed.cons (by decide) (hrest items [] hitems wellFormed_nil)
  | object fields hfields =>
      have hrest : ∀ (l : List (JsString × Json)) (separator : JsString),
          (∀ f ∈ l, WellFormed (stringify numbers f.2)) → WellFormed separator →
          WellFormed (stringifyFields numbers separator l) := by
        intro l
        induction l with
        | nil => exact fun _ _ _ => WellFormed.cons (by decide) wellFormed_nil
        | cons f l ih =>
            intro separator hl hsep
            obtain ⟨key, v⟩ := f
            rw [stringifyFields]
            refine WellFormed.append (WellFormed.append (hsep.append (wellFormed_quote key)) ?_) ?_
            · exact WellFormed.cons (by decide) (hl (key, v) List.mem_cons_self)
            · exact ih [44] (fun w hw => hl w (List.mem_cons_of_mem _ hw)) (WellFormed.cons (by decide) wellFormed_nil)
      exact WellFormed.cons (by decide) (hrest fields [] hfields wellFormed_nil)

end Json

/-- The scalar value that a sequence of bytes begins with, and what follows. -/
def readScalar : Bytes → ℕ × Bytes
  | [] => (0, [])
  | a :: rest =>
      if a.val < 0x80 then (a.val, rest)
      else
        let digit (i : ℕ) : ℕ := (rest.getD i 0).val - 0x80
        if a.val < 0xE0 then ((a.val - 0xC0) * 0x40 + digit 0, rest.drop 1)
        else if a.val < 0xF0 then ((a.val - 0xE0) * 0x1000 + digit 0 * 0x40 + digit 1, rest.drop 2)
        else ((a.val - 0xF0) * 0x40000 + digit 0 * 0x1000 + digit 1 * 0x40 + digit 2, rest.drop 3)

theorem readScalar_utf8Bytes {n : ℕ} (h : n < 0x110000) (x : Bytes) : readScalar (utf8Bytes n ++ x) = (n, x) := by
  unfold utf8Bytes
  split_ifs with h1 h2 h3
  · have hval : (Fin.ofNat 256 n).val = n := Nat.mod_eq_of_lt (by omega)
    simp only [List.cons_append, List.nil_append, readScalar, hval, if_pos h1]
  · have ha : (Fin.ofNat 256 (0xC0 + n / 0x40)).val = 0xC0 + n / 0x40 := Nat.mod_eq_of_lt (by omega)
    have hb : (Fin.ofNat 256 (0x80 + n % 0x40)).val = 0x80 + n % 0x40 := Nat.mod_eq_of_lt (by omega)
    simp only [List.cons_append, List.nil_append, readScalar, List.getD_cons_zero, List.drop_succ_cons, List.drop_zero,
      ha, hb]
    rw [if_neg (by omega), if_pos (by omega), Prod.mk.injEq]
    exact ⟨by omega, rfl⟩
  · have ha : (Fin.ofNat 256 (0xE0 + n / 0x1000)).val = 0xE0 + n / 0x1000 := Nat.mod_eq_of_lt (by omega)
    have hb : (Fin.ofNat 256 (0x80 + n / 0x40 % 0x40)).val = 0x80 + n / 0x40 % 0x40 := Nat.mod_eq_of_lt (by omega)
    have hc : (Fin.ofNat 256 (0x80 + n % 0x40)).val = 0x80 + n % 0x40 := Nat.mod_eq_of_lt (by omega)
    simp only [List.cons_append, List.nil_append, readScalar, List.getD_cons_zero, List.getD_cons_succ,
      List.drop_succ_cons, List.drop_zero, ha, hb, hc]
    rw [if_neg (by omega), if_neg (by omega), if_pos (by omega), Prod.mk.injEq]
    exact ⟨by omega, rfl⟩
  · have ha : (Fin.ofNat 256 (0xF0 + n / 0x40000)).val = 0xF0 + n / 0x40000 := Nat.mod_eq_of_lt (by omega)
    have hb : (Fin.ofNat 256 (0x80 + n / 0x1000 % 0x40)).val = 0x80 + n / 0x1000 % 0x40 := Nat.mod_eq_of_lt (by omega)
    have hc : (Fin.ofNat 256 (0x80 + n / 0x40 % 0x40)).val = 0x80 + n / 0x40 % 0x40 := Nat.mod_eq_of_lt (by omega)
    have hd : (Fin.ofNat 256 (0x80 + n % 0x40)).val = 0x80 + n % 0x40 := Nat.mod_eq_of_lt (by omega)
    simp only [List.cons_append, List.nil_append, readScalar, List.getD_cons_zero, List.getD_cons_succ,
      List.drop_succ_cons, List.drop_zero, ha, hb, hc, hd]
    rw [if_neg (by omega), if_neg (by omega), if_neg (by omega), Prod.mk.injEq]
    exact ⟨by omega, rfl⟩

theorem scalarValue_unit (h : ¬ IsSurrogate c) : scalarValue [c] = c.val := if_neg h

theorem scalarValue_pair (c d : CodeUnit) :
    scalarValue [c, d] = 0x10000 + (c.val - 0xD800) * 0x400 + (d.val - 0xDC00) := rfl

theorem scalarValue_lt (h : Json.IsScalar p) : scalarValue p < 0x110000 := by
  cases h with
  | @unit c h =>
      have hlt := c.isLt
      rw [scalarValue_unit h]
      omega
  | @pair c d h =>
      obtain ⟨h1, h2, h3, h4⟩ := h
      rw [scalarValue_pair]
      omega

theorem scalarValue_inj {q : JsString} (hp : Json.IsScalar p) (hq : Json.IsScalar q)
    (h : scalarValue p = scalarValue q) : p = q := by
  cases hp with
  | @unit c hc =>
      have hlt := c.isLt
      rw [scalarValue_unit hc] at h
      cases hq with
      | @unit d hd =>
          rw [scalarValue_unit hd] at h
          rw [Fin.ext h]
      | @pair d e hd =>
          rw [scalarValue_pair] at h
          omega
  | @pair c c' hc =>
      obtain ⟨h1, h2, h3, h4⟩ := hc
      rw [scalarValue_pair] at h
      cases hq with
      | @unit d hd =>
          have hlt := d.isLt
          rw [scalarValue_unit hd] at h
          omega
      | @pair d d' hd =>
          obtain ⟨g1, g2, g3, g4⟩ := hd
          rw [scalarValue_pair] at h
          have hhigh : c.val = d.val := by omega
          have hlow : c'.val = d'.val := by omega
          rw [Fin.ext hhigh, Fin.ext hlow]

theorem encodeUtf8_injective {t : JsString} (hs : Json.WellFormed s) (ht : Json.WellFormed t)
    (h : encodeUtf8 s = encodeUtf8 t) : s = t := by
  have hne : ∀ n, utf8Bytes n ≠ [] := by
    intro n
    unfold utf8Bytes
    split_ifs <;> exact List.cons_ne_nil _ _
  have key : ∀ ps qs : List JsString, (∀ p ∈ ps, Json.IsScalar p) → (∀ q ∈ qs, Json.IsScalar q) →
      ps.flatMap (fun p => utf8Bytes (scalarValue p)) = qs.flatMap (fun p => utf8Bytes (scalarValue p)) → ps = qs := by
    intro ps
    induction ps with
    | nil =>
        intro qs _ _ heq
        cases qs with
        | nil => rfl
        | cons q qs => exact absurd (List.append_eq_nil_iff.mp heq.symm).1 (hne _)
    | cons p ps ih =>
        intro qs hps hqs heq
        cases qs with
        | nil => exact absurd (List.append_eq_nil_iff.mp heq).1 (hne _)
        | cons q qs =>
            have hp := hps p List.mem_cons_self
            have hq := hqs q List.mem_cons_self
            rw [List.flatMap_cons, List.flatMap_cons] at heq
            have hread := congrArg readScalar heq
            rw [readScalar_utf8Bytes (scalarValue_lt hp), readScalar_utf8Bytes (scalarValue_lt hq),
              Prod.mk.injEq] at hread
            rw [scalarValue_inj hp hq hread.1, ih qs (fun p hp => hps p (List.mem_cons_of_mem _ hp))
              (fun q hq => hqs q (List.mem_cons_of_mem _ hq)) hread.2]
  rw [← flatten_codePoints s, key _ _ hs ht h, flatten_codePoints]

theorem encodeUtf8_stringify_injective {numbers : NumberText} {v w : Json}
    (h : encodeUtf8 (v.stringify numbers) = encodeUtf8 (w.stringify numbers)) : v.copy = w.copy :=
  Json.stringify_injective
    (encodeUtf8_injective (Json.wellFormed_stringify numbers v) (Json.wellFormed_stringify numbers w) h)

theorem length_le_encodeUtf8 (s : JsString) : s.length ≤ (encodeUtf8 s).length := by
  have hone : ∀ n, 1 ≤ (utf8Bytes n).length := by
    intro n
    unfold utf8Bytes
    split_ifs <;> simp
  induction s using Json.codePoints.induct with
  | case1 => exact Nat.zero_le _
  | case2 c =>
      have h := hone (scalarValue [c])
      show 1 ≤ (utf8Bytes (scalarValue [c]) ++ []).length
      rwa [List.append_nil]
  | case3 c d rest hpair ih =>
      have htwo : 2 ≤ (utf8Bytes (scalarValue [c, d])).length := by
        have hbig : ¬ scalarValue [c, d] < 0x10000 := by
          rw [scalarValue_pair]
          omega
        unfold utf8Bytes
        rw [if_neg (by omega), if_neg (by omega), if_neg hbig]
        exact (by simp : 2 ≤ [_, _, _, _].length)
      rw [encodeUtf8, Json.codePoints_pair hpair, List.flatMap_cons, List.length_append]
      rw [encodeUtf8] at ih
      simp only [List.length_cons]
      omega
  | case4 c d rest hpair ih =>
      have h := hone (scalarValue [c])
      rw [encodeUtf8, Json.codePoints_unit hpair, List.flatMap_cons, List.length_append]
      rw [encodeUtf8] at ih
      simp only [List.length_cons] at ih ⊢
      omega

/-! ### Lone surrogates and lines -/

/-- A code point, or U+FFFD for a lone surrogate. -/
def wellFormedPoint : JsString → JsString
  | [c] => if IsSurrogate c then [0xFFFD] else [c]
  | p => p

/-- `s.toWellFormed()`. -/
def toWellFormed (s : JsString) : JsString := (Json.codePoints s).flatMap wellFormedPoint

theorem isScalar_wellFormedPoint (h : IsPoint p) :
    Json.IsScalar (wellFormedPoint p) ∧ scalarValue (wellFormedPoint p) = scalarValue p := by
  cases h with
  | unit c =>
      rw [wellFormedPoint]
      split_ifs with hc
      · exact ⟨.unit (by decide), (if_pos hc).symm⟩
      · exact ⟨.unit hc, rfl⟩
  | pair h => exact ⟨.pair h, rfl⟩

theorem codePoints_flatten {ps : List JsString} (h : ∀ p ∈ ps, Json.IsScalar p) : Json.codePoints ps.flatten = ps := by
  have hone : ∀ {p}, Json.IsScalar p → Json.codePoints p = [p] := by
    intro p hp
    cases hp with
    | unit hc => rfl
    | pair hpair => exact if_pos hpair
  induction ps with
  | nil => rfl
  | cons p ps ih =>
      obtain ⟨hp, hps⟩ := List.forall_mem_cons.mp h
      have hwell : Json.WellFormed p := by
        intro q hq
        rw [hone hp, List.mem_singleton] at hq
        exact hq ▸ hp
      rw [List.flatten_cons, Json.codePoints_append hwell, hone hp, ih hps, List.singleton_append]

theorem codePoints_toWellFormed (s : JsString) :
    Json.codePoints (toWellFormed s) = (Json.codePoints s).map wellFormedPoint := by
  rw [toWellFormed, List.flatMap_def]
  exact codePoints_flatten (List.forall_mem_map.mpr fun p hp => (isScalar_wellFormedPoint (isPoint_of_mem_codePoints hp)).1)

theorem wellFormed_toWellFormed (s : JsString) : Json.WellFormed (toWellFormed s) := by
  rw [Json.WellFormed, codePoints_toWellFormed]
  exact List.forall_mem_map.mpr fun p hp => (isScalar_wellFormedPoint (isPoint_of_mem_codePoints hp)).1

theorem encodeUtf8_toWellFormed (s : JsString) : encodeUtf8 (toWellFormed s) = encodeUtf8 s := by
  rw [encodeUtf8, codePoints_toWellFormed, encodeUtf8, List.flatMap_map]
  exact List.flatMap_congr fun p hp => by rw [(isScalar_wellFormedPoint (isPoint_of_mem_codePoints hp)).2]

theorem toWellFormed_of_wellFormed (h : Json.WellFormed s) : toWellFormed s = s :=
  encodeUtf8_injective (wellFormed_toWellFormed s) h (encodeUtf8_toWellFormed s)

theorem codePoints_append_cons (s : JsString) (hc : ¬ IsSurrogate c) (t : JsString) :
    Json.codePoints (s ++ c :: t) = Json.codePoints s ++ Json.codePoints (c :: t) := by
  have hpair : ∀ d, ¬ IsPair d c := fun d h => hc ⟨by have := h.2.2.1; omega, h.2.2.2⟩
  induction s using Json.codePoints.induct with
  | case1 => rfl
  | case2 d => exact if_neg (hpair d)
  | case3 d e rest h ih =>
      rw [List.cons_append, List.cons_append, Json.codePoints_pair h, Json.codePoints_pair h, ih, List.cons_append]
  | case4 d e rest h ih =>
      rw [List.cons_append] at ih
      rw [List.cons_append, List.cons_append, Json.codePoints_unit h, ih, Json.codePoints_unit h, List.cons_append]

theorem encodeUtf8_line (line t : JsString) : encodeUtf8 (line ++ 10 :: t) = encodeUtf8 line ++ 10 :: encodeUtf8 t := by
  have hnewline : Json.codePoints (10 :: t) = [10] :: Json.codePoints t := by
    cases t with
    | nil => rfl
    | cons c t => exact Json.codePoints_unit (fun h => absurd h.1 (by decide)) t
  rw [encodeUtf8, codePoints_append_cons line (by decide), hnewline, List.flatMap_append]
  rfl

theorem eq_of_mem_utf8Bytes {n : ℕ} {b : Fin 256} (hn : n < 0x110000) (h : b ∈ utf8Bytes n) (hb : b.val < 0x80) :
    n = b.val := by
  unfold utf8Bytes at h
  split_ifs at h
  all_goals
    simp only [List.mem_cons, List.not_mem_nil, or_false, Fin.ext_iff, Fin.ofNat_eq_cast, Fin.val_natCast] at h
    omega

theorem newline_not_mem_encodeUtf8 {line : JsString} (h : (10 : CodeUnit) ∉ line) : (10 : Fin 256) ∉ encodeUtf8 line := by
  intro hmem
  obtain ⟨p, hp, hbyte⟩ := List.mem_flatMap.mp hmem
  have hpoint := isPoint_of_mem_codePoints hp
  have hvalue : scalarValue p = 10 := by
    obtain ⟨hscalar, heq⟩ := isScalar_wellFormedPoint hpoint
    exact eq_of_mem_utf8Bytes (heq ▸ scalarValue_lt hscalar) hbyte (by decide)
  cases hpoint with
  | unit c =>
      have hc : ¬ IsSurrogate c := by
        intro hc
        have hreplaced : scalarValue [c] = 0xFFFD := if_pos hc
        omega
      rw [scalarValue_unit hc] at hvalue
      have hten : c = 10 := Fin.val_injective hvalue
      refine h ?_
      rw [← flatten_codePoints line, ← hten]
      exact List.mem_flatten.mpr ⟨[c], hp, List.mem_singleton_self c⟩
  | @pair c d hpair =>
      have hlarge := scalarValue_pair c d
      omega

end BrowserMesh.Js
