import BrowserMesh.Js.Rebuild

/-! # Canonical signing payloads

* **Text.**  `canonicalize` writes a value with the members of every object sorted and its undefined members left out.  What
  it accepts is what is written of a JSON value with its objects sorted (`canonicalize_ok`).
* **Bytes.**  The payload of a body begins with the bytes of the prefix, up to its newline (`encodeUtf8_line`).  A lone
  surrogate is encoded as U+FFFD. -/

namespace BrowserMesh.Core.Canonical
open Js

/-! ### The encoding -/

inductive Value where
  | null
  | undefined
  | bool (b : Bool)
  | number (n : JsNumber)
  | string (s : JsString)
  | array (items : List Value)
  /-- An object with the prototype of plain objects, or none. -/
  | object (fields : List (JsString × Value))
  /-- Another object. -/
  | exotic
  /-- A function, a symbol or a `bigint`. -/
  | other (type : JsString)

inductive CanonicalError where
  | nonFinite (n : JsNumber)
  | undefinedElement
  | notPlain
  | ofType (type : JsString)

namespace Value

def isUndefined : Value → Bool
  | undefined => true
  | _ => false

def present (fields : List (JsString × Value)) : List (JsString × Value) := fields.filter fun f => !f.2.isUndefined

def writeMember (m : JsString × Except CanonicalError JsString) : Except CanonicalError JsString :=
  m.2.map fun text => quote m.1 ++ colon :: text

section
variable (numbers : NumberText)

mutual

def canonicalize : Value → Except CanonicalError JsString
  | null => .ok (js "null")
  | bool b => .ok ((Json.bool b).stringify numbers)
  | string s => .ok (quote s)
  | number n => if n.isFinite then .ok (n.toText numbers.otherText) else .error (.nonFinite n)
  | array items => (canonicalizeItems items).map fun texts => 91 :: List.intercalate [44] texts ++ [93]
  | object fields =>
      (((canonicalizeFields fields).insertionSort (byRank Prod.fst)).mapM writeMember).map fun texts =>
        123 :: List.intercalate [44] texts ++ [125]
  | exotic => .error .notPlain
  | undefined => .error (.ofType (js "undefined"))
  | other type => .error (.ofType type)

def canonicalizeItems : List Value → Except CanonicalError (List JsString)
  | [] => .ok []
  | v :: rest =>
      if v.isUndefined then .error .undefinedElement
      else (canonicalize v).bind fun text => (canonicalizeItems rest).map (text :: ·)

/-- The keys whose members are not undefined, with what is written of these. -/
def canonicalizeFields : List (JsString × Value) → List (JsString × Except CanonicalError JsString)
  | [] => []
  | (key, v) :: rest =>
      if v.isUndefined then canonicalizeFields rest else (key, canonicalize v) :: canonicalizeFields rest

end

def domainPayload (pre : JsString) (body : Value) : Except CanonicalError Bytes :=
  (canonicalize numbers body).map fun text => encodeUtf8 (pre ++ text)

end

/-! ### Values as JSON -/

mutual

/-- The value without the undefined members of its objects; what cannot be written is a number that JSON has not. -/
def json : Value → Json
  | null => .null
  | bool b => .bool b
  | number n => .number n
  | string s => .string s
  | array items => .array (jsonItems items)
  | object fields => .object (jsonFields fields)
  | _ => .number .nan

def jsonItems : List Value → List Json
  | [] => []
  | v :: rest => json v :: jsonItems rest

def jsonFields : List (JsString × Value) → Json.Fields
  | [] => []
  | (key, v) :: rest => if v.isUndefined then jsonFields rest else (key, json v) :: jsonFields rest

def isKeyed : Value → Bool
  | array items => itemsAreKeyed items
  | object fields => decide (fields.map Prod.fst).Nodup && fieldsAreKeyed fields
  | _ => true

def itemsAreKeyed : List Value → Bool
  | [] => true
  | v :: rest => isKeyed v && itemsAreKeyed rest

def fieldsAreKeyed : List (JsString × Value) → Bool
  | [] => true
  | (_, v) :: rest => isKeyed v && fieldsAreKeyed rest

end

/-- A value whose objects are objects: their keys are distinct. -/
abbrev Proper : Type := {v : Value // isKeyed v = true}

/-- The values are equal up to the order of keys and undefined members. -/
def Alike (v w : Value) : Prop := Json.Same v.json w.json

@[elab_as_elim] theorem inductOn {P : Value → Prop} (null : P null) (undefined : P undefined) (bool : ∀ b, P (bool b))
    (number : ∀ n, P (number n)) (string : ∀ s, P (string s)) (array : ∀ items, (∀ v ∈ items, P v) → P (array items))
    (object : ∀ fields, (∀ f ∈ fields, P f.2) → P (object fields)) (exotic : P exotic) (other : ∀ t, P (other t))
    (v : Value) : P v :=
  @Value.rec P (fun items => ∀ v ∈ items, P v) (fun fields => ∀ f ∈ fields, P f.2) (fun f => P f.2) null undefined bool
    number string array object exotic other (fun _ h => absurd h List.not_mem_nil)
    (fun _ _ hv hrest _ h => (List.mem_cons.mp h).elim (fun e => e ▸ hv) (hrest _))
    (fun _ h => absurd h List.not_mem_nil)
    (fun _ _ hf hrest _ h => (List.mem_cons.mp h).elim (fun e => e ▸ hf) (hrest _))
    (fun _ _ hv => hv) v

theorem json_array (items : List Value) : json (array items) = .array (items.map json) := by
  have hitems : ∀ l, jsonItems l = l.map json := by
    intro l
    induction l with
    | nil => rfl
    | cons v l ih => rw [jsonItems, ih, List.map_cons]
  rw [json, hitems]

theorem json_object (fields : List (JsString × Value)) :
    json (object fields) = .object ((present fields).map fun f => (f.1, json f.2)) := by
  have hfields : ∀ l, jsonFields l = (present l).map fun f => (f.1, json f.2) := by
    intro l
    induction l with
    | nil => rfl
    | cons f l ih =>
        obtain ⟨key, v⟩ := f
        rw [jsonFields, present, List.filter_cons, ih]
        cases v.isUndefined <;> rfl
  rw [json, hfields]

theorem canonicalizeFields_eq (numbers : NumberText) (fields : List (JsString × Value)) :
    canonicalizeFields numbers fields = (present fields).map fun f => (f.1, canonicalize numbers f.2) := by
  induction fields with
  | nil => rfl
  | cons f l ih =>
      obtain ⟨key, v⟩ := f
      rw [canonicalizeFields, present, List.filter_cons, ih]
      cases v.isUndefined <;> rfl

theorem isKeyed_array {items : List Value} : isKeyed (array items) = true ↔ ∀ v ∈ items, isKeyed v = true := by
  have hitems : ∀ l, itemsAreKeyed l = true ↔ ∀ v ∈ l, isKeyed v = true := by
    intro l
    induction l with
    | nil => simp [itemsAreKeyed]
    | cons v l ih => rw [itemsAreKeyed, Bool.and_eq_true, ih, List.forall_mem_cons]
  rw [isKeyed, hitems]

theorem isKeyed_object {fields : List (JsString × Value)} :
    isKeyed (object fields) = true ↔ (fields.map Prod.fst).Nodup ∧ ∀ f ∈ fields, isKeyed f.2 = true := by
  have hfields : ∀ l, fieldsAreKeyed l = true ↔ ∀ f ∈ l, isKeyed f.2 = true := by
    intro l
    induction l with
    | nil => simp [fieldsAreKeyed]
    | cons f l ih =>
        obtain ⟨key, v⟩ := f
        rw [fieldsAreKeyed, Bool.and_eq_true, ih, List.forall_mem_cons]
  rw [isKeyed, Bool.and_eq_true, decide_eq_true_iff, hfields]

/-! ### What is written -/

variable {numbers : NumberText}

theorem intercalate_cons (separator t : JsString) (l : List JsString) :
    List.intercalate separator (t :: l) = t ++ (l.map (separator ++ ·)).flatten := by
  induction l generalizing t with
  | nil => simp [List.intercalate]
  | cons u l ih => rw [List.intercalate_cons_cons, ih, List.map_cons, List.flatten_cons, List.append_assoc, List.append_assoc]

theorem stringifyItems_eq (l : List Json) :
    Json.stringifyItems numbers [] l = List.intercalate [44] (l.map (Json.stringify numbers)) ++ [93] := by
  have hrest : ∀ l : List Json, Json.stringifyItems numbers [44] l =
      ((l.map (Json.stringify numbers)).map ([44] ++ ·)).flatten ++ [93] := by
    intro l
    induction l with
    | nil => rfl
    | cons v l ih =>
        rw [Json.stringifyItems, ih, List.map_cons, List.map_cons, List.flatten_cons]
        simp only [List.append_assoc]
  cases l with
  | nil => rfl
  | cons v l =>
      rw [Json.stringifyItems, hrest, List.map_cons, intercalate_cons, List.nil_append, List.append_assoc]

theorem stringifyFields_eq (l : Json.Fields) :
    Json.stringifyFields numbers [] l =
      List.intercalate [44] (l.map fun f => quote f.1 ++ colon :: Json.stringify numbers f.2) ++ [125] := by
  have hrest : ∀ l : Json.Fields, Json.stringifyFields numbers [44] l =
      ((l.map fun f => quote f.1 ++ colon :: Json.stringify numbers f.2).map ([44] ++ ·)).flatten ++ [125] := by
    intro l
    induction l with
    | nil => rfl
    | cons f l ih =>
        rw [Json.stringifyFields, ih, List.map_cons, List.map_cons, List.flatten_cons]
        simp only [List.append_assoc]
  cases l with
  | nil => rfl
  | cons f l =>
      rw [Json.stringifyFields, hrest, List.map_cons, intercalate_cons]
      simp only [List.nil_append, List.append_assoc]

theorem map_ok {α β ε : Type} {f : α → β} {r : Except ε α} {b : β} (h : r.map f = .ok b) :
    ∃ a, r = .ok a ∧ f a = b := by
  cases r with
  | error e => cases h
  | ok a => exact ⟨a, rfl, Except.ok.inj h⟩

theorem mapM_ok {α β ε : Type} {f : α → Except ε β} {g : α → β} {l : List α} {out : List β} (h : l.mapM f = .ok out)
    (hf : ∀ a ∈ l, ∀ b, f a = .ok b → b = g a) : out = l.map g ∧ ∀ a ∈ l, ∃ b, f a = .ok b := by
  induction l generalizing out with
  | nil => exact ⟨(Except.ok.inj h).symm, fun a ha => absurd ha List.not_mem_nil⟩
  | cons a l ih =>
      rw [List.mapM_cons] at h
      cases ha : f a with
      | error e =>
          rw [ha] at h
          cases h
      | ok b =>
          rw [ha] at h
          obtain ⟨rest, hrest, rfl⟩ := map_ok (f := (b :: ·)) h
          obtain ⟨rfl, hall⟩ := ih hrest fun a' ha' => hf a' (List.mem_cons_of_mem a ha')
          refine ⟨by rw [List.map_cons, hf a List.mem_cons_self b ha], ?_⟩
          rintro a' (- | ⟨-, ha'⟩)
          · exact ⟨b, ha⟩
          · exact hall a' ha'

/-- A text is what is written of the value's JSON with sorted objects. -/
theorem canonicalize_ok {v : Value} {text : JsString} (h : canonicalize numbers v = .ok text) (hv : isKeyed v = true) :
    Json.isData v.json = true ∧ text = (v.json.selected fun _ => true).stringify numbers := by
  induction v using inductOn generalizing text with
  | null => exact ⟨rfl, (Except.ok.inj h).symm⟩
  | undefined => cases h
  | bool b => exact ⟨rfl, (Except.ok.inj h).symm⟩
  | string s => exact ⟨rfl, (Except.ok.inj h).symm⟩
  | exotic => cases h
  | other t => cases h
  | number n =>
      rw [canonicalize] at h
      split_ifs at h with hfinite
      refine ⟨hfinite, (Except.ok.inj h).symm.trans ?_⟩
      exact (if_pos hfinite).symm
  | array items ih =>
      rw [isKeyed_array] at hv
      rw [canonicalize] at h
      obtain ⟨texts, htexts, rfl⟩ := map_ok h
      have hitems : ∀ (l : List Value) (texts : List JsString), (∀ v ∈ l, v ∈ items) →
          canonicalizeItems numbers l = .ok texts → (∀ v ∈ l, Json.isData v.json = true) ∧
            texts = l.map fun v => (v.json.selected fun _ => true).stringify numbers := by
        intro l
        induction l with
        | nil => exact fun texts _ h => ⟨fun v hv => absurd hv List.not_mem_nil, (Except.ok.inj h).symm⟩
        | cons v l ihl =>
            intro texts hmem h
            obtain ⟨hv', hl⟩ := List.forall_mem_cons.mp hmem
            rw [canonicalizeItems] at h
            split_ifs at h
            cases htext : canonicalize numbers v with
            | error e =>
                rw [htext] at h
                cases h
            | ok t =>
                rw [htext] at h
                obtain ⟨rest, hrest, rfl⟩ := map_ok h
                obtain ⟨hdata, rfl⟩ := ih v hv' htext (hv v hv')
                obtain ⟨hall, rfl⟩ := ihl rest hl hrest
                exact ⟨List.forall_mem_cons.mpr ⟨hdata, hall⟩, rfl⟩
      obtain ⟨hdata, rfl⟩ := hitems items texts (fun _ hv => hv) htexts
      rw [json_array]
      refine ⟨Json.isData_array.mpr (List.forall_mem_map.mpr hdata), ?_⟩
      rw [Json.selected, Json.rebuild_array, Json.stringify, stringifyItems_eq, List.map_map, List.map_map]
      rfl
  | object fields ih =>
      obtain ⟨hkeys, hkeyed⟩ := isKeyed_object.mp hv
      rw [canonicalize, canonicalizeFields_eq] at h
      obtain ⟨texts, htexts, rfl⟩ := map_ok h
      have hpresent : ∀ f ∈ present fields, f ∈ fields := fun f hf => List.mem_of_mem_filter hf
      rw [← List.map_insertionSort (byRank Prod.fst) (byRank Prod.fst)
        (fun f : JsString × Value => (f.1, canonicalize numbers f.2)) _ fun _ _ _ _ => Iff.rfl, List.mapM_map] at htexts
      have hfields : ∀ f ∈ (present fields).insertionSort (byRank Prod.fst), ∀ text, canonicalize numbers f.2 = .ok text →
          Json.isData f.2.json = true ∧ text = (f.2.json.selected fun _ => true).stringify numbers := by
        intro f hf text htext
        have hmem := hpresent f ((List.mem_insertionSort _).mp hf)
        exact ih f hmem htext (hkeyed f hmem)
      obtain ⟨rfl, hall⟩ := mapM_ok
        (g := fun f => quote f.1 ++ colon :: (f.2.json.selected fun _ => true).stringify numbers) htexts (by
          intro f hf b hb
          obtain ⟨text, htext, rfl⟩ := map_ok hb
          rw [(hfields f hf text htext).2])
      have hdata : ∀ f ∈ present fields, Json.isData f.2.json = true := by
        intro f hf
        have hf' := (List.mem_insertionSort (byRank Prod.fst)).mpr hf
        obtain ⟨b, hb⟩ := hall f hf'
        obtain ⟨text, htext, -⟩ := map_ok hb
        exact (hfields f hf' text htext).1
      rw [json_object]
      refine ⟨Json.isData_object.mpr ⟨?_, ?_⟩, ?_⟩
      · rw [Json.Keyed, List.map_map]
        exact hkeys.sublist (List.filter_sublist.map Prod.fst)
      · exact List.forall_mem_map.mpr hdata
      · have hsorted : Json.select (fun _ => true)
            (Json.mapValues (Json.selected fun _ => true) ((present fields).map fun f => (f.1, f.2.json))) =
            ((present fields).insertionSort (byRank Prod.fst)).map fun f => (f.1, f.2.json.selected fun _ => true) := by
          rw [Json.select, Json.mapValues, List.filter_true, List.map_map]
          exact (List.map_insertionSort (byRank Prod.fst) (byRank Prod.fst)
            (fun f : JsString × Value => (f.1, f.2.json.selected fun _ => true)) _ fun _ _ _ _ => Iff.rfl).symm
        rw [Json.selected, Json.rebuild_object, ← Json.selected, hsorted, Json.stringify, stringifyFields_eq, List.map_map]
        rfl

/-! ### Payloads -/

def EndsLine (p : JsString) : Prop := ∃ line, p = line ++ [10] ∧ (10 : CodeUnit) ∉ line

theorem append_cons_inj {α : Type} [DecidableEq α] {a : α} {l l' x y : List α} (hl : a ∉ l) (hl' : a ∉ l')
    (h : l ++ a :: x = l' ++ a :: y) : l = l' ∧ x = y := by
  have hbefore : ∀ {l x : List α}, a ∉ l → (l ++ a :: x).takeWhile (fun b => decide (b ≠ a)) = l := by
    intro l x hl
    have hall : ∀ b ∈ l, decide (b ≠ a) = true := fun b hb => decide_eq_true (ne_of_mem_of_not_mem hb hl)
    rw [List.takeWhile_append_of_pos hall, List.takeWhile_cons_of_neg (by simp), List.append_nil]
  have heq := congrArg (List.takeWhile fun b => decide (b ≠ a)) h
  rw [hbefore hl, hbefore hl'] at heq
  subst heq
  exact ⟨rfl, (List.cons.inj (List.append_cancel_left h)).2⟩

/-- **Canonical payloads are injective**: accepted values are written alike exactly if they are equal up to the order of
keys and undefined members, and bodies that are written behind prefixes to the same bytes are equal so, and their prefixes
are equal up to lone surrogates. -/
theorem canonical_payloads (numbers : NumberText) :
    (∀ (a b : Proper) ta tb, canonicalize numbers a.1 = .ok ta → canonicalize numbers b.1 = .ok tb →
      (ta = tb ↔ Alike a.1 b.1)) ∧
    ∀ (p q : JsString) (a b : Proper) bytes, EndsLine p → EndsLine q → domainPayload numbers p a.1 = .ok bytes →
      domainPayload numbers q b.1 = .ok bytes → toWellFormed p = toWellFormed q ∧
        (Json.WellFormed p → Json.WellFormed q → p = q) ∧ Alike a.1 b.1 := by
  have htexts : ∀ (a b : Proper) ta tb, canonicalize numbers a.1 = .ok ta → canonicalize numbers b.1 = .ok tb →
      (ta = tb ↔ Alike a.1 b.1) := by
    intro a b ta tb ha hb
    obtain ⟨hda, rfl⟩ := canonicalize_ok ha a.2
    obtain ⟨hdb, rfl⟩ := canonicalize_ok hb b.2
    refine ⟨fun heq => ?_, fun heq => congrArg _ heq⟩
    have hcopy : ∀ v : Json, Json.isData v = true → (v.selected fun _ => true).copy = v.selected fun _ => true := by
      intro v hv
      rw [Json.selected, Json.copy_rebuild (Json.byKeys_select _) (by rwa [Json.copy_of_isData hv]), Json.copy_of_isData hv]
    have hread := Json.stringify_injective heq
    rwa [hcopy _ hda, hcopy _ hdb] at hread
  refine ⟨htexts, ?_⟩
  rintro p q a b bytes ⟨line, rfl, hline⟩ ⟨line', rfl, hline'⟩ ha hb
  obtain ⟨ta, hta, rfl⟩ := map_ok ha
  obtain ⟨tb, htb, hbytes⟩ := map_ok hb
  rw [List.append_assoc, List.append_assoc, List.singleton_append, List.singleton_append, encodeUtf8_line,
    encodeUtf8_line] at hbytes
  obtain ⟨hpre, htext⟩ := append_cons_inj (newline_not_mem_encodeUtf8 hline') (newline_not_mem_encodeUtf8 hline) hbytes
  have hbody : Alike a.1 b.1 := by
    refine (htexts a b ta tb hta htb).mp ?_
    obtain ⟨-, rfl⟩ := canonicalize_ok hta a.2
    obtain ⟨-, rfl⟩ := canonicalize_ok htb b.2
    exact encodeUtf8_injective (Json.wellFormed_stringify numbers _) (Json.wellFormed_stringify numbers _) htext.symm
  have hsame : toWellFormed (line ++ [10]) = toWellFormed (line' ++ [10]) := by
    refine encodeUtf8_injective (wellFormed_toWellFormed _) (wellFormed_toWellFormed _) ?_
    rw [encodeUtf8_toWellFormed, encodeUtf8_toWellFormed, encodeUtf8_line, encodeUtf8_line, hpre]
  refine ⟨hsame, fun hp hq => ?_, hbody⟩
  rwa [toWellFormed_of_wellFormed hp, toWellFormed_of_wellFormed hq] at hsame

/-- An object in two orders, under prefixes that are lone surrogates. -/
theorem canonical_payloads_member : Alike (object [(js "x", undefined), (js "b", null), (js "a", bool true)])
      (object [(js "a", bool true), (js "b", null)]) ∧
    toWellFormed [0xD800, 10] = toWellFormed [0xDC00, 10] := by
  have hpayloads := canonical_payloads unitNumbers
  have htexts := (hpayloads.1 ⟨object [(js "x", undefined), (js "b", null), (js "a", bool true)], by decide⟩
    ⟨object [(js "a", bool true), (js "b", null)], by decide⟩ _ _ rfl rfl).mp (by decide +kernel)
  obtain ⟨hprefixes, -, -⟩ := hpayloads.2 [0xD800, 10] [0xDC00, 10]
    ⟨object [(js "x", undefined), (js "b", null), (js "a", bool true)], by decide⟩
    ⟨object [(js "a", bool true), (js "b", null)], by decide⟩ _ ⟨[0xD800], rfl, by decide⟩ ⟨[0xDC00], rfl, by decide⟩
    rfl (congrArg Except.ok (by decide +kernel))
  exact ⟨htexts, hprefixes⟩

theorem domainPayload_lone_surrogates : EndsLine [0xD800, 10] ∧ EndsLine [0xDC00, 10] ∧
    ([0xD800, 10] : JsString) ≠ [0xDC00, 10] ∧
    ∃ bytes, domainPayload unitNumbers [0xD800, 10] null = .ok bytes ∧
      domainPayload unitNumbers [0xDC00, 10] null = .ok bytes :=
  ⟨⟨[0xD800], rfl, by decide⟩, ⟨[0xDC00], rfl, by decide⟩, by decide, _, rfl, rfl⟩

end Value
end BrowserMesh.Core.Canonical
