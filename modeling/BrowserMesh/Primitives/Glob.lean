import BrowserMesh.Library.Pattern
import BrowserMesh.Js.Text

/-! # Resource patterns

`matchResourcePattern` turns a glob into the source of a regular expression by five replacements and tests
the resource with it.  `regexSource` is that source, as a string; `readRegex` reads the part of the
syntax of regular expressions that can occur in it.

`readRegex_regexSource`: the source always reads back as the glob itself, part by part, whatever special
characters, braces and placeholders the pattern contains. -/

namespace BrowserMesh.Primitives

open Js Pattern

def slash : CodeUnit := 47
def asterisk : CodeUnit := 42
def questionMark : CodeUnit := 63
def backslash : CodeUnit := 92

/-! ### Replacements -/

/-- `s.replace(/needle/g, by)` for a literal needle, inside an occurrence that has `skip` units left. -/
def replaceFrom (needle replacement : JsString) : ℕ → JsString → JsString
  | _, [] => []
  | skip + 1, _ :: s => replaceFrom needle replacement skip s
  | 0, c :: s =>
      if needle.isPrefixOf (c :: s) then
        replacement ++ replaceFrom needle replacement (needle.length - 1) s
      else c :: replaceFrom needle replacement 0 s

def replaceAll (needle replacement s : JsString) : JsString := replaceFrom needle replacement 0 s

/-- `[.+^${}()|[\]\\]`. -/
def specialUnits : List CodeUnit := js ".+^$\x7b\x7d()|[]\\"

def placeholder : JsString := js "\x7b\x7bGLOBSTAR\x7d\x7d"

/-- `.replace(/[.+^${}()|[\]\\]/g, '\\$&')` on one unit. -/
def escapeUnit (c : CodeUnit) : JsString := if c ∈ specialUnits then [backslash, c] else [c]

/-- Replace every occurrence of a unit. -/
def replaceUnit (c : CodeUnit) (replacement s : JsString) : JsString :=
  s.flatMap fun d => if d = c then replacement else [d]

/-- The `regexStr` of `matchResourcePattern`. -/
def regexSource (pattern : JsString) : JsString :=
  let escaped := pattern.flatMap escapeUnit
  let held := replaceAll [asterisk, asterisk] placeholder escaped
  let starred := replaceUnit asterisk (js "[^/]*") held
  let single := replaceUnit questionMark (js "[^/]") starred
  replaceAll placeholder (js ".*") single

/-! ### Regular expressions -/

/-- The units that need a `\` to stand for themselves. -/
def syntaxUnits : List CodeUnit := js "^$\\.*+?()[]\x7b\x7d|"

def lineTerminators : List CodeUnit := [10, 13, 0x2028, 0x2029]

/-- `[^/]`. -/
def notSlash (c : CodeUnit) : Bool := decide (c ≠ slash)

/-- `.` without the flag `s`. -/
def notTerminator (c : CodeUnit) : Bool := decide (c ∉ lineTerminators)

/-- Read a regular expression made of literals, escaped literals, `[^/]`, `[^/]*` and `.*`. -/
def readRegex : JsString → Option (List (Item CodeUnit))
  | [] => some []
  | c :: s =>
      if c = backslash then
        match s with
        | [] => none
        | d :: s => if d ∈ syntaxUnits then (readRegex s).map (literal d :: ·) else none
      else if c = 91 then
        match s with
        | 94 :: 47 :: 93 :: 42 :: s => (readRegex s).map (.many notSlash :: ·)
        | 94 :: 47 :: 93 :: s => (readRegex s).map (.one notSlash :: ·)
        | _ => none
      else if c = 46 then
        match s with
        | 42 :: s => (readRegex s).map (.many notTerminator :: ·)
        | _ => none
      else if c ∈ syntaxUnits then none
      else (readRegex s).map (literal c :: ·)

/-- `new RegExp('^' + source + '$').test(s)`. -/
def regexTest (source s : JsString) : Bool :=
  match readRegex source with
  | none => false
  | some items => accepts items s

def matchResourcePattern (pattern resource : JsString) : Bool :=
  if pattern = [asterisk] then true
  else if pattern = resource then true
  else regexTest (regexSource pattern) resource

/-! ### Globs -/

inductive GlobPart where
  | literal (c : CodeUnit)
  | star
  | globstar
  | single
deriving DecidableEq

/-- The parts of a glob: `**` before `*`, from the left. -/
def globParts : JsString → List GlobPart
  | [] => []
  | 42 :: 42 :: s => .globstar :: globParts s
  | c :: s => (if c = asterisk then .star else if c = questionMark then .single else .literal c) :: globParts s

def GlobPart.item : GlobPart → Item CodeUnit
  | literal c => Pattern.literal c
  | star => .many notSlash
  | globstar => .many notTerminator
  | single => .one notSlash

/-- What a part is rendered as, between the replacements: literals escaped, the wildcards as given. -/
def GlobPart.render (starred held single : JsString) : GlobPart → JsString
  | .literal c => escapeUnit c
  | .star => starred
  | .globstar => held
  | .single => single

theorem ne_of_literal_mem {p : JsString} {c : CodeUnit} (h : GlobPart.literal c ∈ globParts p) :
    c ≠ asterisk ∧ c ≠ questionMark := by
  induction p using globParts.induct with
  | case1 => cases h
  | case2 s ih =>
      rw [globParts, List.mem_cons] at h
      exact ih (h.resolve_left (by simp))
  | case3 d s hd ih =>
      rw [globParts, List.mem_cons] at h
      · rcases h with h | h
        · split_ifs at h with h1 h2
          cases h
          exact ⟨h1, h2⟩
        · exact ih h
      · exact hd

/-! ### The replacements render the parts -/

theorem replaceFrom_skip (needle replacement u s : JsString) :
    replaceFrom needle replacement u.length (u ++ s) = replaceFrom needle replacement 0 s := by
  induction u with
  | nil => rfl
  | cons c u ih => exact ih

theorem replaceAll_append {needle : JsString} (hn : needle ≠ []) (replacement s : JsString) :
    replaceAll needle replacement (needle ++ s) = replacement ++ replaceAll needle replacement s := by
  obtain ⟨c, u, rfl⟩ := List.exists_cons_of_ne_nil hn
  have hpre : (c :: u).isPrefixOf (c :: (u ++ s)) = true :=
    List.isPrefixOf_iff_prefix.mpr (List.prefix_append (c :: u) s)
  rw [replaceAll, List.cons_append, replaceFrom, if_pos hpre, List.length_cons, Nat.add_sub_cancel,
    replaceFrom_skip, replaceAll]

theorem replaceAll_cons {needle : JsString} {c : CodeUnit} {s : JsString}
    (h : needle.isPrefixOf (c :: s) = false) (replacement : JsString) :
    replaceAll needle replacement (c :: s) = c :: replaceAll needle replacement s := by
  rw [replaceAll, replaceFrom, if_neg (by simp [h]), replaceAll]

/-- Units that differ from the first of the needle stay. -/
theorem replaceAll_append_of_ne {a : CodeUnit} {needle u : JsString} (hu : ∀ c ∈ u, c ≠ a)
    (replacement s : JsString) :
    replaceAll (a :: needle) replacement (u ++ s) = u ++ replaceAll (a :: needle) replacement s := by
  induction u with
  | nil => rfl
  | cons c u ih =>
      obtain ⟨hc, hu⟩ := List.forall_mem_cons.mp hu
      have hpre : (a :: needle).isPrefixOf (c :: (u ++ s)) = false := by
        simp [List.isPrefixOf, Ne.symm hc]
      rw [List.cons_append, replaceAll_cons hpre, ih hu, List.cons_append]

theorem forall_mem_of_all {q : CodeUnit → Prop} [DecidablePred q] {l : JsString}
    (h : l.all (fun c => decide (q c)) = true) : ∀ c ∈ l, q c :=
  fun c hc => of_decide_eq_true (List.all_eq_true.mp h c hc)

theorem mem_escapeUnit {c d : CodeUnit} (h : d ∈ escapeUnit c) : d = backslash ∨ d = c := by
  unfold escapeUnit at h
  split_ifs at h
  · simpa using h
  · exact Or.inr (by simpa using h)

/-- The escaped text never begins with a unit that is neither escaped nor a backslash, other than its own. -/
theorem escapeUnit_cons (c : CodeUnit) : ∃ d u, escapeUnit c = d :: u ∧ (d = backslash ∨ (d = c ∧ c ∉ specialUnits)) := by
  unfold escapeUnit
  split_ifs with h
  · exact ⟨backslash, [c], rfl, Or.inl rfl⟩
  · exact ⟨c, [], rfl, Or.inr ⟨rfl, h⟩⟩

theorem replaceAll_globstar (p : JsString) :
    replaceAll [asterisk, asterisk] placeholder (p.flatMap escapeUnit) =
      (globParts p).flatMap (GlobPart.render [asterisk] placeholder [questionMark]) := by
  induction p using globParts.induct with
  | case1 => rfl
  | case2 s ih =>
      have hesc : (42 :: 42 :: s : JsString).flatMap escapeUnit =
          [asterisk, asterisk] ++ s.flatMap escapeUnit := rfl
      rw [hesc, replaceAll_append (by simp), ih, globParts, List.flatMap_cons]
      rfl
  | case3 c s hs ih =>
      rw [globParts, List.flatMap_cons, List.flatMap_cons, ← ih]
      · by_cases hc : c = asterisk
        · -- a single star: the next unit is no star
          subst hc
          have hpre : [asterisk, asterisk].isPrefixOf (asterisk :: s.flatMap escapeUnit) = false := by
            cases s with
            | nil => rfl
            | cons d s =>
                obtain ⟨e, u, he, hd⟩ := escapeUnit_cons d
                have hne : asterisk ≠ e := by
                  rcases hd with rfl | ⟨rfl, -⟩
                  · decide
                  · rintro rfl
                    exact hs s rfl rfl
                simp [List.isPrefixOf, he, hne]
          exact replaceAll_cons hpre placeholder
        · have hstay : ∀ d ∈ escapeUnit c, d ≠ asterisk := by
            intro d hd
            rcases mem_escapeUnit hd with rfl | rfl
            · decide
            · exact hc
          rw [replaceAll_append_of_ne hstay]
          congr 1
          rw [if_neg hc]
          split_ifs with hq
          · subst hq
            rfl
          · rfl
      · exact hs

variable {parts : List GlobPart}

/-- Replacing a unit that no literal is renders the wildcards anew. -/
theorem replaceUnit_render {a : CodeUnit} (hb : a ≠ backslash)
    (hl : ∀ c, GlobPart.literal c ∈ parts → c ≠ a) (r s₁ s₂ s₃ : JsString) :
    replaceUnit a r (parts.flatMap (GlobPart.render s₁ s₂ s₃)) =
      parts.flatMap (GlobPart.render (replaceUnit a r s₁) (replaceUnit a r s₂) (replaceUnit a r s₃)) := by
  unfold replaceUnit
  rw [List.flatMap_assoc]
  refine List.flatMap_congr fun part hpart => ?_
  cases part with
  | literal c =>
      have hstay : ∀ d ∈ escapeUnit c, d ≠ a := by
        intro d hd
        rcases mem_escapeUnit hd with rfl | rfl
        · exact hb.symm
        · exact hl d hpart
      calc (escapeUnit c).flatMap (fun d => if d = a then r else [d])
          = (escapeUnit c).flatMap fun d => [d] := List.flatMap_congr fun d hd => if_neg (hstay d hd)
        _ = escapeUnit c := List.flatMap_singleton' _
  | star => rfl
  | globstar => rfl
  | single => rfl

/-- The text between the last two replacements. -/
def heldText (parts : List GlobPart) : JsString :=
  parts.flatMap (GlobPart.render (js "[^/]*") placeholder (js "[^/]"))

/-- After a literal `{` the placeholder does not begin. -/
theorem not_prefix_heldText (parts : List GlobPart) :
    (js "\x7bGLOBSTAR\x7d\x7d").isPrefixOf (heldText parts) = false := by
  cases parts with
  | nil => rfl
  | cons part parts =>
      cases part with
      | literal c =>
          obtain ⟨d, u, he, hd⟩ := escapeUnit_cons c
          have hne : (123 : CodeUnit) ≠ d := by
            rcases hd with rfl | ⟨rfl, hd⟩
            · decide
            · rintro rfl
              exact hd (by decide)
          have hhead : (js "\x7bGLOBSTAR\x7d\x7d").head? = some 123 := rfl
          obtain ⟨t, ht⟩ := List.head?_eq_some_iff.mp hhead
          simp [heldText, GlobPart.render, he, ht, List.isPrefixOf, hne]
      | star => rfl
      | globstar => rfl
      | single => rfl

theorem replaceAll_heldText (parts : List GlobPart) :
    replaceAll placeholder (js ".*") (heldText parts) =
      parts.flatMap (GlobPart.render (js "[^/]*") (js ".*") (js "[^/]")) := by
  have hplaceholder : placeholder = 123 :: js "\x7bGLOBSTAR\x7d\x7d" := rfl
  induction parts with
  | nil => rfl
  | cons part parts ih =>
      rw [List.flatMap_cons, ← ih, heldText, List.flatMap_cons, ← heldText]
      cases part with
      | literal c =>
          have hc : replaceAll placeholder (js ".*") (c :: heldText parts) =
              c :: replaceAll placeholder (js ".*") (heldText parts) := by
            refine replaceAll_cons ?_ _
            rw [hplaceholder, List.isPrefixOf, not_prefix_heldText, Bool.and_false]
          simp only [GlobPart.render]
          unfold escapeUnit
          split_ifs with hs
          · rw [List.cons_append, List.cons_append, List.nil_append, hplaceholder,
              replaceAll_cons (by rfl), ← hplaceholder, hc]
            rfl
          · exact hc
      | star =>
          rw [hplaceholder]
          exact replaceAll_append_of_ne (u := js "[^/]*") (forall_mem_of_all (by decide)) _ _
      | globstar => exact replaceAll_append (by decide) _ _
      | single =>
          rw [hplaceholder]
          exact replaceAll_append_of_ne (u := js "[^/]") (forall_mem_of_all (by decide)) _ _

theorem regexSource_eq (pattern : JsString) :
    regexSource pattern =
      (globParts pattern).flatMap (GlobPart.render (js "[^/]*") (js ".*") (js "[^/]")) := by
  simp only [regexSource]
  rw [replaceAll_globstar, replaceUnit_render (by decide) fun c hc => (ne_of_literal_mem hc).1,
    replaceUnit_render (by decide) fun c hc => (ne_of_literal_mem hc).2]
  exact replaceAll_heldText _

/-! ### The source reads back as the glob -/

/-- The source of some parts. -/
def partsSource (parts : List GlobPart) : JsString :=
  parts.flatMap (GlobPart.render (js "[^/]*") (js ".*") (js "[^/]"))

/-- No source begins with a `*`, which would extend what stands before it. -/
theorem head?_partsSource (h : ∀ c, GlobPart.literal c ∈ parts → c ≠ asterisk) :
    (partsSource parts).head? ≠ some asterisk := by
  cases parts with
  | nil => simp [partsSource]
  | cons part parts =>
      cases part with
      | literal c =>
          obtain ⟨d, u, he, hd⟩ := escapeUnit_cons c
          simp only [partsSource, List.flatMap_cons, GlobPart.render, he, List.cons_append,
            List.head?_cons, ne_eq, Option.some.injEq]
          rcases hd with rfl | ⟨rfl, -⟩
          · decide
          · exact h d List.mem_cons_self
      | star => exact fun h => absurd (Option.some.inj h) (by decide)
      | globstar => exact fun h => absurd (Option.some.inj h) (by decide)
      | single => exact fun h => absurd (Option.some.inj h) (by decide)

theorem readRegex_literal {c : CodeUnit} (hs : c ≠ asterisk) (hq : c ≠ questionMark) (s : JsString) :
    readRegex (escapeUnit c ++ s) = (readRegex s).map (literal c :: ·) := by
  unfold escapeUnit
  split_ifs with hc
  · have hspecial : ∀ d ∈ specialUnits, d ∈ syntaxUnits := forall_mem_of_all (by decide)
    rw [List.cons_append, List.cons_append, List.nil_append, readRegex, if_pos rfl]
    exact if_pos (hspecial c hc)
  · have hspecial : c ∉ syntaxUnits := by
      intro h
      have hall : ∀ d ∈ syntaxUnits, d = asterisk ∨ d = questionMark ∨ d ∈ specialUnits :=
        forall_mem_of_all (by decide)
      exact (hall c h).elim hs fun h => h.elim hq hc
    have hne : ∀ d ∈ specialUnits, c ≠ d := fun d hd h => hc (h ▸ hd)
    rw [List.cons_append, List.nil_append]
    conv_lhs => unfold readRegex
    rw [if_neg (hne backslash (by decide)), if_neg (hne 91 (by decide)), if_neg (hne 46 (by decide)),
      if_neg hspecial]

/-- Without a `*` behind it, `[^/]` is one unit. -/
theorem readRegex_single {s : JsString} (h : s.head? ≠ some asterisk) :
    readRegex (js "[^/]" ++ s) = (readRegex s).map (.one notSlash :: ·) := by
  have hcons : js "[^/]" ++ s = 91 :: 94 :: 47 :: 93 :: s := rfl
  rw [hcons]
  conv_lhs => unfold readRegex
  rw [if_neg (by decide), if_pos rfl]
  split
  · rename_i heq
    cases heq
    exact absurd rfl h
  · rename_i heq
    cases heq
    rfl
  · rename_i _ hno
    exact absurd rfl (hno s)

theorem readRegex_partsSource (h : ∀ c, GlobPart.literal c ∈ parts → c ≠ asterisk ∧ c ≠ questionMark) :
    readRegex (partsSource parts) = some (parts.map GlobPart.item) := by
  induction parts with
  | nil => rfl
  | cons part parts ih =>
      have hrest := ih fun c hc => h c (List.mem_cons_of_mem part hc)
      have hcons : partsSource (part :: parts) =
          part.render (js "[^/]*") (js ".*") (js "[^/]") ++ partsSource parts := List.flatMap_cons
      rw [hcons, List.map_cons]
      cases part with
      | literal c =>
          obtain ⟨hs, hq⟩ := h c List.mem_cons_self
          exact (readRegex_literal hs hq _).trans (by rw [hrest]; rfl)
      | star =>
          have hread : readRegex (js "[^/]*" ++ partsSource parts) =
              (readRegex (partsSource parts)).map (.many notSlash :: ·) := rfl
          exact hread.trans (by rw [hrest]; rfl)
      | globstar =>
          have hread : readRegex (js ".*" ++ partsSource parts) =
              (readRegex (partsSource parts)).map (.many notTerminator :: ·) := rfl
          exact hread.trans (by rw [hrest]; rfl)
      | single =>
          have hhead := head?_partsSource fun c hc => (h c (List.mem_cons_of_mem _ hc)).1
          exact (readRegex_single hhead).trans (by rw [hrest]; rfl)

/-- **The regular expression of a pattern is the glob**: literals for themselves, `*` for a run within a
segment, `**` for a run within a line, `?` for one unit of a segment. -/
theorem readRegex_regexSource (pattern : JsString) :
    readRegex (regexSource pattern) = some ((globParts pattern).map GlobPart.item) := by
  rw [regexSource_eq]
  exact readRegex_partsSource fun c hc => ne_of_literal_mem hc

theorem matchResourcePattern_iff {pattern resource : JsString} :
    matchResourcePattern pattern resource = true ↔
      pattern = [asterisk] ∨ pattern = resource ∨
        accepts ((globParts pattern).map GlobPart.item) resource = true := by
  unfold matchResourcePattern regexTest
  rw [readRegex_regexSource]
  by_cases h1 : pattern = [asterisk]
  · simp [h1]
  · by_cases h2 : pattern = resource
    · simp [h2]
    · simp [h1, h2]

/-! ### The documented wildcards -/

/-- What a part of a glob takes, with `**` for any characters. -/
def GlobPart.Takes : GlobPart → JsString → Prop
  | literal c, w => w = [c]
  | star, w => slash ∉ w
  | globstar, _ => True
  | single, w => ∃ c, w = [c] ∧ c ≠ slash

/-- The words, one for each part, make up the text. -/
def Reading (parts : List GlobPart) (text : JsString) (words : List JsString) : Prop :=
  List.Forall₂ GlobPart.Takes parts words ∧ words.flatten = text

/-- No `**` takes a line terminator. -/
def WithinLines (parts : List GlobPart) (words : List JsString) : Prop :=
  List.Forall₂ (fun part w => part = .globstar → ∀ c ∈ w, c ∉ lineTerminators) parts words

theorem word_item_iff (part : GlobPart) (w : JsString) :
    part.item.Word w ↔ part.Takes w ∧ (part = .globstar → ∀ c ∈ w, c ∉ lineTerminators) := by
  cases part with
  | literal c =>
      constructor
      · rintro ⟨d, rfl, hd⟩
        exact ⟨by rw [of_decide_eq_true hd]; rfl, fun h => by cases h⟩
      · rintro ⟨rfl, -⟩
        exact ⟨c, rfl, decide_eq_true rfl⟩
  | star =>
      constructor
      · exact fun h => ⟨fun hs => of_decide_eq_true (h slash hs) rfl, fun h => by cases h⟩
      · rintro ⟨hs, -⟩ c hc
        exact decide_eq_true fun heq => hs (heq ▸ hc)
  | globstar =>
      constructor
      · exact fun h => ⟨trivial, fun _ c hc => of_decide_eq_true (h c hc)⟩
      · rintro ⟨-, h⟩ c hc
        exact decide_eq_true (h rfl c hc)
  | single =>
      constructor
      · rintro ⟨c, rfl, hc⟩
        exact ⟨⟨c, rfl, of_decide_eq_true hc⟩, fun h => by cases h⟩
      · rintro ⟨⟨c, rfl, hc⟩, -⟩
        exact ⟨c, rfl, decide_eq_true hc⟩

/-- The regular expression takes the readings within lines. -/
theorem accepts_items_iff {text : JsString} :
    accepts (parts.map GlobPart.item) text = true ↔ ∃ words, Reading parts text words ∧ WithinLines parts words := by
  rw [accepts_iff_words]
  refine exists_congr fun words => ?_
  rw [Reading, and_right_comm, List.forall₂_map_left_iff]
  refine and_congr_left fun _ => ?_
  constructor
  · exact fun h => ⟨h.imp fun part w hw => ((word_item_iff part w).mp hw).1,
      h.imp fun part w hw => ((word_item_iff part w).mp hw).2⟩
  · rintro ⟨htakes, hlines⟩
    obtain ⟨hlength, htakes⟩ := List.forall₂_iff_zip.mp htakes
    obtain ⟨-, hlines⟩ := List.forall₂_iff_zip.mp hlines
    exact List.forall₂_iff_zip.mpr ⟨hlength, fun hmem => (word_item_iff _ _).mpr ⟨htakes hmem, hlines hmem⟩⟩

/-- A text of one line, and a pattern without `**`, have no other readings. -/
theorem Reading.withinLines {text : JsString} {words : List JsString}
    (h : Reading parts text words) (hline : (∀ c ∈ text, c ∉ lineTerminators) ∨ GlobPart.globstar ∉ parts) :
    WithinLines parts words := by
  obtain ⟨htakes, rfl⟩ := h
  induction htakes with
  | nil => exact .nil
  | @cons part w parts words hw htakes ih =>
      refine .cons ?_ (ih ?_)
      · rintro rfl c hc
        rcases hline with hline | hnone
        · exact hline c (List.mem_append_left _ hc)
        · exact absurd List.mem_cons_self hnone
      · rcases hline with hline | hnone
        · exact Or.inl fun c hc => hline c (List.mem_append_right w hc)
        · exact Or.inr fun hmem => hnone (List.mem_cons_of_mem part hmem)

/-- **The documented wildcards**: for a pattern other than a lone `*` the function tells whether the resource is the
pattern or has a reading, unless each reading has a `**` that takes a line terminator.  A resource of one line has no such
reading, nor has any resource if the pattern has no `**`. -/
theorem matchResourcePattern_reading_iff (pattern resource : JsString) :
    ((pattern ≠ [asterisk] → (matchResourcePattern pattern resource = true ↔
        pattern = resource ∨ ∃ words, Reading (globParts pattern) resource words)) ↔
      (pattern = [asterisk] ∨ pattern = resource ∨ ((∃ words, Reading (globParts pattern) resource words) →
        ∃ words, Reading (globParts pattern) resource words ∧ WithinLines (globParts pattern) words))) ∧
    (((∀ c ∈ resource, c ∉ lineTerminators) ∨ GlobPart.globstar ∉ globParts pattern) →
      ∀ words, Reading (globParts pattern) resource words → WithinLines (globParts pattern) words) := by
  refine ⟨?_, fun hline words h => h.withinLines hline⟩
  rw [matchResourcePattern_iff, accepts_items_iff]
  by_cases hlone : pattern = [asterisk]
  · exact ⟨fun _ => Or.inl hlone, fun _ hne => absurd hlone hne⟩
  · rw [or_iff_right hlone, or_iff_right hlone]
    by_cases heq : pattern = resource
    · exact ⟨fun _ => Or.inl heq, fun _ _ => ⟨fun _ => Or.inl heq, fun _ => Or.inl heq⟩⟩
    · rw [or_iff_right heq, or_iff_right heq, or_iff_right heq]
      constructor
      · exact fun h => (h hlone).mpr
      · exact fun h _ => ⟨fun ⟨words, hwords⟩ => ⟨words, hwords.1⟩, h⟩

/-- `**` does not match a line feed. -/
theorem matchResourcePattern_line_feed : ¬ (matchResourcePattern (js "**") [10] = true ↔
    js "**" = [10] ∨ ∃ words, Reading (globParts (js "**")) [10] words) := by
  have hread : Reading (globParts (js "**")) [10] [[10]] := ⟨.cons trivial .nil, rfl⟩
  intro h
  rcases matchResourcePattern_iff.mp (h.mpr (Or.inr ⟨_, hread⟩)) with hlone | heq | haccepts
  · exact absurd hlone (by decide)
  · exact absurd heq (by decide)
  · exact absurd haccepts (by decide)

end BrowserMesh.Primitives
