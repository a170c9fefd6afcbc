import BrowserMesh.Js.Encoding

/-! # Scheme, host and port of a URL

The part of the URL parser that stops before the path, for strings without a base URL.  The host parser is a parameter;
the host of a `file` URL, which has no port, is left out.

* **Parsing.**  `clean`, `splitScheme`, `authorityText`, `parseAuthority` and `parse`.
* **Concatenation.**  What is appended to `scheme://host:port` decides what the whole is parsed as
  (`parse_base_append`). -/

namespace BrowserMesh.Js.Url

/-! ### Characters -/

def isAlpha (c : CodeUnit) : Bool := decide (65 ≤ c.val ∧ c.val ≤ 90 ∨ 97 ≤ c.val ∧ c.val ≤ 122)

def isSchemeChar (c : CodeUnit) : Bool := isAlpha c || decide (IsDigit c) || decide (c ∈ js "+-.")

def toLower (c : CodeUnit) : CodeUnit := if 65 ≤ c.val ∧ c.val ≤ 90 then Fin.ofNat _ (c.val + 32) else c

def isBlank (c : CodeUnit) : Bool := decide (c.val ≤ 32)

/-- Tab, line feed or carriage return. -/
def isTabOrNewline (c : CodeUnit) : Bool := decide (c.val = 9 ∨ c.val = 10 ∨ c.val = 13)

def isTerminator (special : Bool) (c : CodeUnit) : Bool := decide (c ∈ js "/?#") || special && decide (c ∈ js "\\")

/-! ### Parsing -/

/-- Without blanks at the end, and without tabs and newlines. -/
def cleanEnd (s : JsString) : JsString := ((s.reverse.dropWhile isBlank).reverse).filter fun c => !isTabOrNewline c

def clean (s : JsString) : JsString := cleanEnd (s.dropWhile isBlank)

/-- The special schemes but `file`, with their ports. -/
def defaultPort (scheme : JsString) : Option ℕ :=
  if scheme = js "http" ∨ scheme = js "ws" then some 80
  else if scheme = js "https" ∨ scheme = js "wss" then some 443
  else if scheme = js "ftp" then some 21
  else none

def isSpecial (scheme : JsString) : Bool := (defaultPort scheme).isSome

/-- The scheme in lower case, and what follows the colon. -/
def splitScheme (s : JsString) : Option (JsString × JsString) :=
  let name := s.takeWhile isSchemeChar
  if name.head?.any isAlpha = true ∧ (s.drop name.length).head? = some colon then
    some (name.map toLower, s.drop (name.length + 1))
  else none

def authorityText (special : Bool) (s : JsString) : JsString := s.takeWhile fun c => !isTerminator special c

/-- What stands before the first colon outside brackets. -/
def hostText : Bool → JsString → JsString
  | _, [] => []
  | inside, c :: t =>
      if c = colon ∧ inside = false then []
      else c :: hostText (if c = 91 then true else if c = 93 then false else inside) t

structure Location (H : Type) where
  scheme : JsString
  host : Option H
  /-- `none` for the default port of the scheme. -/
  port : Option ℕ
deriving DecidableEq

def portOf (scheme : JsString) (n : ℕ) : Option ℕ := if defaultPort scheme = some n then none else some n

/-- The text after the colon of a port. -/
def parsePort (scheme s : JsString) : Option (Option ℕ) :=
  if s.all fun c => decide (IsDigit c) then
    if s = [] then some none else if digitsValue s ≤ 65535 then some (portOf scheme (digitsValue s)) else none
  else none

section
variable {H : Type} (parseHost : Bool → JsString → Option H)

def parseHostPort (scheme s : JsString) : Option (Location H) :=
  let host := hostText false s
  if host = [] ∧ (isSpecial scheme ∨ s ≠ []) then none
  else
    (parseHost (isSpecial scheme) host).bind fun h =>
      (if s.drop host.length = [] then some none else parsePort scheme (s.drop (host.length + 1))).map fun port =>
        ⟨scheme, some h, port⟩

/-- The user information ends at the last `@`. -/
def parseAuthority (scheme s : JsString) : Option (Location H) :=
  if 64 ∈ s ∧ lastPart 64 s = [] then none else parseHostPort parseHost scheme (lastPart 64 s)

def parse (s : JsString) : Option (Location H) :=
  (splitScheme (clean s)).bind fun x =>
    if x.1 = js "file" then some ⟨x.1, none, none⟩
    else if isSpecial x.1 then
      parseAuthority parseHost x.1 (authorityText true (x.2.dropWhile fun c => decide (c ∈ js "/\\")))
    else if x.2.take 2 = js "//" then parseAuthority parseHost x.1 (authorityText false (x.2.drop 2))
    else some ⟨x.1, none, none⟩

end

/-- The host parser of the tests keeps its text. -/
example : (parse (fun _ s => some s) (js " hTTp:\\\\u:p@Host:8080\t0/x") : Option (Location JsString)) =
      none ∧
    parse (fun _ s => some s) (js " hTTp:\\\\u:p@[::1]:8\t0?x ") = some ⟨js "http", some (js "[::1]"), none⟩ ∧
    parse (fun _ s => some s) (js "git://a:9\\b") = none ∧
    parse (fun _ s => some s) (js "git://a:9/\\b") = some ⟨js "git", some (js "a"), some 9⟩ ∧
    parse (fun _ s => some s) (js "mailto:a@b") = some ⟨js "mailto", none, none⟩ := by decide +kernel

theorem isTerminator_iff {special : Bool} {c : CodeUnit} :
    isTerminator special c = true ↔ c = 47 ∨ c = 63 ∨ c = 35 ∨ special = true ∧ c = 92 := by
  have hmarks : js "/?#" = [47, 63, 35] := by decide
  have hback : js "\\" = [92] := by decide
  simp only [isTerminator, hmarks, hback, Bool.or_eq_true, Bool.and_eq_true, decide_eq_true_eq, List.mem_cons,
    List.not_mem_nil, or_false, or_assoc]

/-! ### Pieces of a concatenation -/

theorem clean_append {base : JsString} (t : JsString) (hhead : base.head?.any isBlank = false)
    (hlast : base.getLast?.any isBlank = false) (hne : base ≠ []) (htab : ∀ c ∈ base, isTabOrNewline c = false) :
    clean (base ++ t) = base ++ cleanEnd t := by
  have hfront : (base ++ t).dropWhile isBlank = base ++ t := by
    cases base with
    | nil => exact absurd rfl hne
    | cons c rest => exact List.dropWhile_cons_of_neg (ne_true_of_eq_false hhead)
  have hback : base.reverse.dropWhile isBlank = base.reverse := by
    cases hrev : base.reverse with
    | nil => rfl
    | cons c rest =>
        refine List.dropWhile_cons_of_neg (ne_true_of_eq_false ?_)
        rwa [← List.head?_reverse, hrev] at hlast
  have hfilter : base.filter (fun c => !isTabOrNewline c) = base :=
    List.filter_eq_self.mpr fun c hc => by rw [htab c hc, Bool.not_false]
  rw [clean, hfront, cleanEnd, List.reverse_append, List.dropWhile_append]
  split_ifs with hempty
  · rw [hback, List.reverse_reverse, hfilter, cleanEnd, List.isEmpty_iff.mp hempty]
    simp
  · rw [List.reverse_append, List.reverse_reverse, List.filter_append, hfilter]
    rfl

theorem splitScheme_append {protocol : JsString} (rest : JsString) (hall : protocol.all isSchemeChar = true)
    (halpha : protocol.head?.any isAlpha = true) :
    splitScheme (protocol ++ colon :: rest) = some (protocol.map toLower, rest) := by
  have htake : (protocol ++ colon :: rest).takeWhile isSchemeChar = protocol := by
    rw [List.takeWhile_append_of_pos (List.all_eq_true.mp hall), List.takeWhile_cons_of_neg (by decide),
      List.append_nil]
  have hdrop : (protocol ++ colon :: rest).drop (protocol.length + 1) = rest := by
    rw [← List.drop_drop, List.drop_left]
    rfl
  rw [splitScheme, htake, List.drop_left, hdrop, if_pos ⟨halpha, rfl⟩]

/-- A text that ends at its first colon outside brackets does so whatever follows. -/
theorem hostText_append {inside : Bool} {host : JsString} (rest : JsString)
    (h : hostText inside (host ++ [colon]) = host) : hostText inside (host ++ colon :: rest) = host := by
  induction host generalizing inside with
  | nil =>
      rw [List.nil_append, hostText] at h ⊢
      split_ifs at h ⊢ with hstop
      rfl
  | cons c host ih =>
      rw [List.cons_append, hostText] at h ⊢
      by_cases hstop : c = colon ∧ inside = false
      · rw [if_pos hstop] at h
        cases h
      · rw [if_neg hstop] at h ⊢
        rw [ih (List.cons.inj h).2]

theorem lastPart_of_not_mem {sep : CodeUnit} {s : JsString} (h : sep ∉ s) : lastPart sep s = s := by
  rw [lastPart, List.splitOn_eq_singleton h]
  rfl

/-- The last part begins after the last separator. -/
theorem lastPart_append_of_mem {sep : CodeUnit} (s : JsString) {t : JsString} (h : sep ∈ t) :
    lastPart sep (s ++ t) = lastPart sep t := by
  obtain ⟨q, p, heq, hq⟩ := List.eq_append_cons_of_mem (List.mem_reverse.mpr h)
  have ht : t = p.reverse ++ sep :: q.reverse := by
    rw [← List.reverse_reverse t, heq, List.reverse_append, List.reverse_cons, List.append_assoc,
      List.singleton_append]
  have hq' : sep ∉ q.reverse := fun hmem => hq (List.mem_reverse.mp hmem)
  rw [ht, lastPart_append _ _ hq', ← List.append_assoc, lastPart_append _ _ hq']

theorem le_digitsValue_append (s t : JsString) : digitsValue s ≤ digitsValue (s ++ t) := by
  induction t using List.reverseRecOn with
  | nil => rw [List.append_nil]
  | append_singleton t c ih =>
      rw [← List.append_assoc, digitsValue_append]
      omega

/-- A digit after a positive number makes another number. -/
theorem digitsValue_append_ne {s t : JsString} (hs : 0 < digitsValue s) (ht : t ≠ []) :
    digitsValue s < digitsValue (s ++ t) := by
  obtain ⟨c, rest, rfl⟩ := List.exists_cons_of_ne_nil ht
  have hle := le_digitsValue_append (s ++ [c]) rest
  rw [digitsValue_append, List.append_assoc, List.singleton_append] at hle
  omega

/-! ### What is appended to an origin -/

section
variable {H : Type} (parseHost : Bool → JsString → Option H)

/-- `protocol://hostname:port`. -/
def base (protocol hostname : JsString) (port : ℕ) : JsString :=
  protocol ++ js "://" ++ hostname ++ colon :: decimal port

/-- Protocol, hostname and port can be those of a URL. -/
structure Writable (protocol hostname : JsString) (port : ℕ) : Prop where
  scheme : protocol.all isSchemeChar = true ∧ protocol.head?.any isAlpha = true
  notFile : protocol.map toLower ≠ js "file"
  hostChars : hostname.all (fun c => !isTerminator true c && decide (c ≠ 64) && !isTabOrNewline c) = true
  hostColons : hostText false (hostname ++ [colon]) = hostname
  hostParses : hostname ≠ [] ∧ (parseHost (isSpecial (protocol.map toLower)) hostname).isSome = true
  portRange : 0 < port ∧ port ≤ 65535

/-- The scheme, the host and the port that they are. -/
def locationOf (protocol hostname : JsString) (port : ℕ) : Location H :=
  ⟨protocol.map toLower, parseHost (isSpecial (protocol.map toLower)) hostname, portOf (protocol.map toLower) port⟩

/-- What is appended before the first terminator. -/
def authorityEnd (protocol t : JsString) : JsString :=
  authorityText (isSpecial (protocol.map toLower)) (cleanEnd t)

/-- What is appended adds nothing to the authority, or makes it no authority, or names the same after an `@`. -/
def Harmless (protocol hostname : JsString) (port : ℕ) (t : JsString) : Prop :=
  if 64 ∈ authorityEnd protocol t then
    ∀ l, parseAuthority parseHost (protocol.map toLower) (authorityEnd protocol t) = some l →
      l = locationOf parseHost protocol hostname port
  else
    authorityEnd protocol t = [] ∨ (authorityEnd protocol t).all (fun c => decide (IsDigit c)) = false ∨
      65535 < digitsValue (decimal port ++ authorityEnd protocol t)

variable {parseHost} {protocol hostname : JsString} {port : ℕ}
variable {c : CodeUnit}

theorem isTabOrNewline_of_isDigit (h : IsDigit c) : isTabOrNewline c = false ∧ isBlank c = false := by
  simp only [IsDigit] at h
  simp only [isTabOrNewline, isBlank, decide_eq_false_iff_not]
  omega

theorem isBlank_of_isAlpha (h : isAlpha c = true) : isBlank c = false := by
  simp only [isAlpha, decide_eq_true_eq] at h
  simp only [isBlank, decide_eq_false_iff_not]
  omega

theorem isTabOrNewline_of_isSchemeChar (h : isSchemeChar c = true) : isTabOrNewline c = false := by
  simp only [isSchemeChar, isAlpha, Bool.or_eq_true, decide_eq_true_eq] at h
  simp only [isTabOrNewline, decide_eq_false_iff_not]
  rcases h with (halpha | hdigit) | hmark
  · omega
  · exact of_decide_eq_false (isTabOrNewline_of_isDigit hdigit).1
  · have hmarks : js "+-." = [43, 45, 46] := by decide
    rw [hmarks] at hmark
    rcases List.mem_cons.mp hmark with rfl | hmark
    · decide
    rcases List.mem_cons.mp hmark with rfl | hmark
    · decide
    rw [List.mem_singleton.mp hmark]
    decide

variable (h : Writable parseHost protocol hostname port)
include h

theorem Writable.hostChar (hc : c ∈ hostname) :
    isTerminator true c = false ∧ c ≠ 64 ∧ isTabOrNewline c = false := by
  have hall := List.all_eq_true.mp h.hostChars c hc
  simp only [Bool.and_eq_true, Bool.not_eq_true', decide_eq_true_eq] at hall
  exact ⟨hall.1.1, hall.1.2, hall.2⟩

theorem Writable.clean_base_append (t : JsString) :
    clean (base protocol hostname port ++ t) = base protocol hostname port ++ cleanEnd t := by
  have hscheme : ∃ c rest, protocol = c :: rest ∧ isAlpha c = true := by
    cases hp : protocol with
    | nil =>
        have halpha := h.scheme.2
        rw [hp] at halpha
        cases halpha
    | cons c rest =>
        have halpha := h.scheme.2
        rw [hp] at halpha
        exact ⟨c, rest, rfl, halpha⟩
  obtain ⟨c, rest, hprotocol, halpha⟩ := hscheme
  refine clean_append t ?_ ?_ ?_ ?_
  · rw [base, hprotocol]
    exact isBlank_of_isAlpha halpha
  · rw [base, List.getLast?_append, List.getLast?_cons, Option.some_or, Option.any_some]
    cases hlast : (decimal port).getLast? with
    | none => exact absurd (List.getLast?_eq_none_iff.mp hlast) (decimal_ne_nil port)
    | some c => exact (isTabOrNewline_of_isDigit (isDigit_of_mem_decimal (List.mem_of_getLast? hlast))).2
  · rw [base, hprotocol]
    exact List.cons_ne_nil _ _
  · intro c hc
    simp only [base, List.mem_append, List.mem_cons] at hc
    rcases hc with ((hc | hc) | hc) | hc | hc
    · exact isTabOrNewline_of_isSchemeChar (List.all_eq_true.mp h.scheme.1 c hc)
    · have hmarks : (js "://").all (fun d => decide (isTabOrNewline d = false)) = true := by decide
      exact of_decide_eq_true (List.all_eq_true.mp hmarks c hc)
    · exact (h.hostChar hc).2.2
    · rw [hc]
      decide
    · exact (isTabOrNewline_of_isDigit (isDigit_of_mem_decimal hc)).1

theorem Writable.isTerminator_hostPort (hc : c ∈ hostname ++ colon :: decimal port) (special : Bool) :
    isTerminator special c = false := by
  have hspecial : isTerminator true c = false := by
    rcases List.mem_append.mp hc with hc | hc
    · exact (h.hostChar hc).1
    · rcases List.mem_cons.mp hc with rfl | hc
      · decide
      · have hdigit := isDigit_of_mem_decimal hc
        refine Bool.eq_false_of_not_eq_true fun hmark => ?_
        rcases isTerminator_iff.mp hmark with rfl | rfl | rfl | ⟨_, rfl⟩ <;> exact absurd hdigit (by decide)
  refine Bool.eq_false_of_not_eq_true fun hmark => ne_true_of_eq_false hspecial ?_
  rw [isTerminator_iff] at hmark ⊢
  exact hmark.imp_right (Or.imp_right (Or.imp_right fun hback => ⟨rfl, hback.2⟩))

/-- What is appended reaches the parser of the authority up to the first terminator. -/
theorem Writable.parse_base_append (t : JsString) :
    parse parseHost (base protocol hostname port ++ t) = parseAuthority parseHost (protocol.map toLower)
      (hostname ++ colon :: decimal port ++ authorityEnd protocol t) := by
  have hsplit : splitScheme (clean (base protocol hostname port ++ t)) =
      some (protocol.map toLower, js "//" ++ hostname ++ colon :: decimal port ++ cleanEnd t) := by
    rw [h.clean_base_append]
    have hassoc : base protocol hostname port ++ cleanEnd t =
        protocol ++ colon :: (js "//" ++ hostname ++ colon :: decimal port ++ cleanEnd t) := by
      have hcolon : js "://" = colon :: js "//" := by decide +kernel
      simp [base, hcolon]
    rw [hassoc, splitScheme_append _ h.scheme.1 h.scheme.2]
  have hstart : ∀ special, authorityText special (hostname ++ colon :: decimal port ++ cleanEnd t) =
      hostname ++ colon :: decimal port ++ authorityText special (cleanEnd t) := by
    intro special
    refine List.takeWhile_append_of_pos fun c hc => ?_
    rw [Bool.not_eq_true']
    exact h.isTerminator_hostPort hc special
  rw [parse, hsplit, Option.bind_some, if_neg h.notFile]
  split_ifs with hspecial hslashes
  · have hdrop : (js "//" ++ hostname ++ colon :: decimal port ++ cleanEnd t).dropWhile
        (fun c => decide (c ∈ js "/\\")) = hostname ++ colon :: decimal port ++ cleanEnd t := by
      obtain ⟨c, rest, hhost⟩ := List.exists_cons_of_ne_nil h.hostParses.1
      have hc : isTerminator true c = false := (h.hostChar (by rw [hhost]; exact List.mem_cons_self)).1
      have hslash : c ∉ js "/\\" := by
        have hmarks : js "/\\" = [47, 92] := by decide
        rw [hmarks]
        intro hmem
        refine ne_true_of_eq_false hc (isTerminator_iff.mpr ?_)
        rcases List.mem_cons.mp hmem with rfl | hmem
        · exact Or.inl rfl
        · exact Or.inr (Or.inr (Or.inr ⟨rfl, List.mem_singleton.mp hmem⟩))
      rw [List.append_assoc, List.append_assoc, List.dropWhile_append_of_pos fun d hd => ?_, hhost, List.cons_append,
        List.dropWhile_cons_of_neg (by simpa using hslash)]
      · simp
      · have hmarks : js "//" = [47, 47] := by decide
        have hd' : d = 47 := by simpa [hmarks] using hd
        rw [hd']
        decide
    rw [hdrop, hstart, authorityEnd, hspecial]
  · have hdrop : (js "//" ++ hostname ++ colon :: decimal port ++ cleanEnd t).drop 2 =
        hostname ++ colon :: decimal port ++ cleanEnd t := by
      have hmarks : js "//" = [47, 47] := by decide
      rw [hmarks]
      rfl
    rw [hdrop, hstart, authorityEnd, Bool.eq_false_of_not_eq_true hspecial]
  · exact absurd (by simp [show js "//" = [47, 47] by decide]) hslashes

theorem Writable.at_not_mem : 64 ∉ hostname ++ colon :: decimal port := by
  intro hmem
  rcases List.mem_append.mp hmem with hmem | hmem
  · exact (h.hostChar hmem).2.1 rfl
  · rcases List.mem_cons.mp hmem with hcolon | hmem
    · exact absurd hcolon (by decide)
    · exact absurd (isDigit_of_mem_decimal hmem) (by decide)

/-- Without an `@`, what is appended belongs to the port. -/
theorem Writable.parseAuthority_append {a : JsString} (ha : 64 ∉ a) :
    parseAuthority parseHost (protocol.map toLower) (hostname ++ colon :: decimal port ++ a) =
      (parsePort (protocol.map toLower) (decimal port ++ a)).map fun p =>
        ⟨protocol.map toLower, parseHost (isSpecial (protocol.map toLower)) hostname, p⟩ := by
  have hat : 64 ∉ hostname ++ colon :: decimal port ++ a := by
    rw [List.mem_append, not_or]
    exact ⟨h.at_not_mem, ha⟩
  have hhost : hostText false (hostname ++ colon :: decimal port ++ a) = hostname := by
    rw [List.append_assoc, List.cons_append]
    exact hostText_append _ h.hostColons
  have hdrop : (hostname ++ colon :: decimal port ++ a).drop hostname.length = colon :: (decimal port ++ a) := by
    rw [List.append_assoc, List.drop_left, List.cons_append]
  have hport : (hostname ++ colon :: decimal port ++ a).drop (hostname.length + 1) = decimal port ++ a := by
    rw [← List.drop_drop, hdrop]
    rfl
  obtain ⟨host, hparse⟩ := Option.isSome_iff_exists.mp h.hostParses.2
  rw [parseAuthority, if_neg fun hempty => hat hempty.1, lastPart_of_not_mem hat, parseHostPort, hhost,
    if_neg fun hempty => h.hostParses.1 hempty.1, hdrop, hport, if_neg (List.cons_ne_nil _ _), hparse]
  rfl

omit h

/-- What stands before an `@` does not count. -/
theorem parseAuthority_of_at {a : JsString} (x scheme : JsString) (ha : 64 ∈ a) :
    parseAuthority parseHost scheme (x ++ a) = parseAuthority parseHost scheme a := by
  rw [parseAuthority, parseAuthority, lastPart_append_of_mem x ha]
  simp only [List.mem_append_right x ha, ha]

theorem portOf_injective (scheme : JsString) : Function.Injective (portOf scheme) := by
  intro m n hports
  unfold portOf at hports
  split_ifs at hports with hm hn hn
  · exact Option.some.inj (hm.symm.trans hn)
  · exact Option.some.inj hports

include h

/-- A URL that starts with an origin names it, or nothing, exactly when what is appended is harmless. -/
theorem Writable.names_iff (t : JsString) :
    (∀ l, parse parseHost (base protocol hostname port ++ t) = some l → l = locationOf parseHost protocol hostname port) ↔
      Harmless parseHost protocol hostname port t := by
  rw [h.parse_base_append t, Harmless]
  split_ifs with hat
  · rw [parseAuthority_of_at _ _ hat]
  rw [h.parseAuthority_append hat]
  have hvalue : digitsValue (decimal port) = port := digitsValue_decimal port
  have hne : decimal port ++ authorityEnd protocol t ≠ [] := fun hnil =>
    decimal_ne_nil port (List.append_eq_nil_iff.mp hnil).1
  by_cases hdigits : (authorityEnd protocol t).all (fun c => decide (IsDigit c)) = true
  · have hall : (decimal port ++ authorityEnd protocol t).all (fun c => decide (IsDigit c)) = true := by
      rw [List.all_append, hdigits, Bool.and_true, List.all_eq_true]
      exact fun c hc => decide_eq_true (isDigit_of_mem_decimal hc)
    rw [parsePort, if_pos hall, if_neg hne]
    split_ifs with hlow
    · constructor
      · intro hnames
        by_cases hnil : authorityEnd protocol t = []
        · exact Or.inl hnil
        · have hmore := digitsValue_append_ne (by rw [hvalue]; exact h.portRange.1) hnil
          have hsame := portOf_injective _ (congrArg Location.port (hnames _ rfl))
          omega
      · rintro (hnil | hfalse | hhigh) l hl
        · obtain rfl := Option.some.inj hl
          rw [hnil, List.append_nil, hvalue]
          rfl
        · exact absurd hdigits (ne_true_of_eq_false hfalse)
        · omega
    · exact ⟨fun _ => Or.inr (Or.inr (not_le.mp hlow)), fun _ l hl => by cases hl⟩
  · have hbad : (decimal port ++ authorityEnd protocol t).all (fun c => decide (IsDigit c)) ≠ true := by
      rw [List.all_append]
      exact fun hboth => hdigits (Bool.and_eq_true_iff.mp hboth).2
    rw [parsePort, if_neg hbad]
    exact ⟨fun _ => Or.inr (Or.inl (Bool.eq_false_of_not_eq_true hdigits)), fun _ l hl => by cases hl⟩

omit h

theorem harmless_of_slash (t : JsString) : Harmless parseHost protocol hostname port (47 :: t) := by
  have hslash : ∀ c ∈ ([47] : JsString), isTabOrNewline c = false := fun c hc => by
    rw [List.mem_singleton.mp hc]
    decide
  have hclean : clean ([47] ++ t) = [47] ++ cleanEnd t :=
    clean_append t (by decide) (by decide) (by decide) hslash
  have hend : authorityEnd protocol (47 :: t) = [] := by
    have hfront : cleanEnd (47 :: t) = 47 :: cleanEnd t := hclean
    rw [authorityEnd, hfront]
    exact List.takeWhile_cons_of_neg (by rw [isTerminator_iff.mpr (Or.inl rfl)]; decide)
  rw [Harmless, hend, if_neg List.not_mem_nil]
  exact Or.inl rfl

end

end BrowserMesh.Js.Url
