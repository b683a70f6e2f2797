import Columnar.Proofs.Json.Data
import Columnar.Proofs.Number.Notation
import Columnar.Proofs.Scalar.Form
import Columnar.Canonical
import Columnar.Yaml.Tag

/-!
# JSON text read back

A reader for compact JSON text. A string ends at the first quote that no backslash escapes, and
every character inside is read back from what it is written as. Numbers and keywords are words, runs
of characters of which none stands between values; a word with a point or an exponent is a double,
any other number an integer. The reader recurses with fuel, and the length of the text is enough.
Main statement: the text of a value reads back as the value, so the canonical text of a document
loses nothing of its canonical form.
-/

namespace Columnar.Json

open Scalar Text

/-! ## Strings -/

/-- The characters that a letter behind a backslash stands for. -/
def escapes : List (Char × Char) :=
  [('"', '"'), ('\\', '\\'), ('n', '\n'), ('r', '\r'), ('t', '\t'), ('b', '\x08'), ('f', '\x0c')]

/-- The character that an escape stands for, behind the backslash. -/
def readEscape : List Char → Option (Char × List Char)
  | [] => none
  | letter :: rest =>
    if letter = 'u' then some (Char.ofNat (Yaml.hexNumber (rest.take 4)), rest.drop 4)
    else (escapes.lookup letter).map fun c => (c, rest)

/-- A character of a string at the head of a text; a quote ends the string. -/
def readChar : List Char → Option (Char × List Char)
  | [] => none
  | c :: rest =>
    if c = '"' then none else if c = '\\' then readEscape rest else some (c, rest)

/-- Characters up to the quote that ends the string. -/
def readChars : Nat → List Char → Option (List Char × List Char)
  | 0, _ => none
  | fuel + 1, cs =>
    match readChar cs with
    | some (c, rest) => (readChars fuel rest).map fun r => (c :: r.1, r.2)
    | none => (takeChar '"' cs).map fun rest => ([], rest)

def readString (cs : List Char) : Option (String × List Char) := do
  let body ← takeChar '"' cs
  let (text, rest) ← readChars body.length body
  return (String.ofList text, rest)

theorem readEscape_hex {n : Nat} (h : n < 0x20) (rest : List Char) :
    readEscape ('u' :: (Text.hex 4 n ++ rest)) = some (Char.ofNat n, rest) := by
  have hcontrol : ∀ n < 0x20, Yaml.hexNumber (Text.hex 4 n) = n ∧ (Text.hex 4 n).length = 4 := by
    decide
  obtain ⟨hnumber, hlength⟩ := hcontrol n h
  rw [readEscape, if_pos rfl, List.take_left' hlength, List.drop_left' hlength, hnumber]

/-- Every character is read back from what it is written as. -/
theorem readChar_escape (c : Char) (rest : List Char) :
    readChar (escape c ++ rest) = some (c, rest) := by
  by_cases hletter : c ∈ escapes.map Prod.snd
  · have htable : ∀ d ∈ escapes.map Prod.snd, readChar (escape d ++ rest) = some (d, rest) := by
      simp only [escapes, List.map_cons, List.map_nil, List.forall_mem_cons]
      exact ⟨rfl, rfl, rfl, rfl, rfl, rfl, rfl, List.forall_mem_nil _⟩
    exact htable c hletter
  · have hplain : c ≠ '"' ∧ c ≠ '\\' ∧ escape c =
        if c.toNat < 0x20 then '\\' :: 'u' :: Text.hex 4 c.toNat else [c] := by
      simp only [escapes, List.map_cons, List.map_nil, List.mem_cons, List.not_mem_nil, or_false,
        not_or] at hletter
      simp [escape, hletter]
    obtain ⟨hquote, hslash, hescape⟩ := hplain
    rw [hescape]
    split
    · rw [List.cons_append, List.cons_append, readChar, if_neg (by decide), if_pos rfl,
        readEscape_hex ‹_›, Char.ofNat_toNat]
    · rw [List.cons_append, readChar, if_neg hquote, if_neg hslash, List.nil_append]

theorem readChars_escaped {cs : List Char} (rest : List Char) {fuel : Nat}
    (hfuel : cs.length < fuel) :
    readChars fuel (cs.flatMap escape ++ '"' :: rest) = some (cs, rest) := by
  induction cs generalizing fuel with
  | nil =>
    obtain ⟨fuel, rfl⟩ := Nat.exists_eq_succ_of_ne_zero (Nat.ne_of_gt hfuel)
    rfl
  | cons c cs ih =>
    obtain ⟨fuel, rfl⟩ := Nat.exists_eq_succ_of_ne_zero (Nat.ne_of_gt (Nat.zero_lt_of_lt hfuel))
    rw [List.flatMap_cons, List.append_assoc, readChars, readChar_escape]
    dsimp only
    rw [ih (Nat.lt_of_succ_lt_succ hfuel)]
    rfl

theorem length_le_flatMap_escape (cs : List Char) : cs.length ≤ (cs.flatMap escape).length := by
  have hone (c : Char) : 1 ≤ (escape c).length := by
    have hread := readChar_escape c []
    cases hc : escape c with
    | nil =>
      rw [hc] at hread
      cases hread
    | cons d ds => exact Nat.succ_le_succ (Nat.zero_le _)
  induction cs with
  | nil => exact Nat.le_refl 0
  | cons c cs ih =>
    have := hone c
    rw [List.flatMap_cons, List.length_append, List.length_cons]
    omega

theorem readString_stringText (s : String) (rest : List Char) :
    readString (stringText s ++ rest) = some (s, rest) := by
  have htext : stringText s ++ rest = '"' :: (s.toList.flatMap escape ++ '"' :: rest) := by
    simp [stringText]
  have hfuel : s.toList.length < (s.toList.flatMap escape ++ '"' :: rest).length := by
    have := length_le_flatMap_escape s.toList
    rw [List.length_append, List.length_cons]
    omega
  rw [htext, readString, takeChar_cons]
  simp only [Option.bind_eq_bind, Option.bind_some]
  rw [readChars_escaped rest hfuel]
  exact congrArg (fun text => some (text, rest)) String.ofList_toList

/-! ## Words -/

/-- The characters of numbers and keywords. -/
def isWord (c : Char) : Bool := c.isAlphanum || c ∈ ['.', '+', '-']

def keywords : List (List Char × Json) :=
  [(['n', 'u', 'l', 'l'], .null), (['t', 'r', 'u', 'e'], .boolean true),
    (['f', 'a', 'l', 's', 'e'], .boolean false)]

/-- The number that a word writes: an integer, or a double if it is no integer literal. -/
def number? (cs : List Char) : Option Json :=
  match integerLiteral? cs with
  | some n => some (.integer n)
  | none =>
    match literalDouble? cs with
    | some (.finite negative m) => some (.double negative m)
    | _ => none

def word? (cs : List Char) : Option Json := (keywords.lookup cs).or (number? cs)

theorem word?_of_number? {cs : List Char} {v : Json} (h : number? cs = some v) :
    word? cs = some v := by
  have hkeywords : ∀ e ∈ keywords, number? e.1 = none := by
    simp only [keywords, List.forall_mem_cons]
    exact ⟨rfl, rfl, rfl, List.forall_mem_nil _⟩
  have hnone : keywords.lookup cs = none := by
    refine List.lookup_eq_none_iff.mpr fun e he => bne_iff_ne.mpr ?_
    rintro rfl
    rw [hkeywords e he] at h
    cases h
  rw [word?, hnone, Option.none_or, h]

theorem word?_integerText (n : Int) : word? (integerText n) = some (.integer n) :=
  word?_of_number? (by rw [number?, integerLiteral?_integerText])

theorem word?_double (negative : Bool) (m : Magnitude) :
    word? (Double.text (.finite negative m)) = some (.double negative m) :=
  word?_of_number? (by rw [number?, integerLiteral?_text, literalDouble?_text])

theorem isWord_of_isNumeral {c : Char} (h : isNumeral c = true) : isWord c = true := by
  rw [isNumeral, Bool.or_eq_true, decide_eq_true_eq] at h
  rcases h with h | h
  · rw [isWord, Char.isAlphanum, h, Bool.or_true, Bool.true_or]
  · have hmarks : ['.', 'e', '+', '-'].all isWord = true := by decide
    exact List.all_eq_true.mp hmarks c h

/-! ## Values -/

mutual

def readValue : Nat → List Char → Option (Json × List Char)
  | 0, _ => none
  | _ + 1, [] => none
  | fuel + 1, c :: rest =>
    if c = '"' then (readString (c :: rest)).map fun r => (.string r.1, r.2)
    else if c = '[' then
      match takeChar ']' rest with
      | some rest => some (.array [], rest)
      | none => (readItems fuel rest).map fun r => (.array r.1, r.2)
    else if c = '{' then
      match takeChar '}' rest with
      | some rest => some (.object [], rest)
      | none => (readEntries fuel rest).map fun r => (.object r.1, r.2)
    else
      (word? ((c :: rest).takeWhile isWord)).map fun v => (v, (c :: rest).dropWhile isWord)

/-- The items of an array, one at least, up to the bracket that ends it. -/
def readItems : Nat → List Char → Option (List Json × List Char)
  | 0, _ => none
  | fuel + 1, cs => do
    let (v, rest) ← readValue fuel cs
    match takeChar ',' rest with
    | some rest => (readItems fuel rest).map fun r => (v :: r.1, r.2)
    | none => (takeChar ']' rest).map fun rest => ([v], rest)

/-- The entries of an object, one at least, up to the brace that ends it. -/
def readEntries : Nat → List Char → Option (List (String × Json) × List Char)
  | 0, _ => none
  | fuel + 1, cs => do
    let (name, rest) ← readString cs
    let rest ← takeChar ':' rest
    let (v, rest) ← readValue fuel rest
    match takeChar ',' rest with
    | some rest => (readEntries fuel rest).map fun r => ((name, v) :: r.1, r.2)
    | none => (takeChar '}' rest).map fun rest => ([(name, v)], rest)

end

/-- The value that a whole text writes. -/
def ofText? (text : String) : Option Json :=
  match readValue (text.toList.length + 1) text.toList with
  | some (v, []) => some v
  | _ => none

/-- A word is read up to what cannot be a part of it. -/
theorem readValue_word {cs rest : List Char} {v : Json} (h : word? cs = some v)
    (hcs : ∀ c ∈ cs, isWord c = true) (hrest : rest.head?.any isWord = false) (fuel : Nat) :
    readValue (fuel + 1) (cs ++ rest) = some (v, rest) := by
  cases cs with
  | nil => cases h
  | cons c cs =>
    have hc : isWord c = true := hcs c List.mem_cons_self
    have hne (d : Char) (hd : isWord d = false) : c ≠ d := by
      rintro rfl
      rw [hd] at hc
      cases hc
    obtain ⟨htake, hdrop⟩ := span_append hcs hrest
    rw [List.cons_append, readValue, if_neg (hne _ (by decide)), if_neg (hne _ (by decide)),
      if_neg (hne _ (by decide)), ← List.cons_append, htake, hdrop, h]
    rfl

/-- No value begins with a bracket that ends an array. -/
theorem takeChar_of_readItems {fuel : Nat} {cs : List Char} {r : List Json × List Char}
    (h : readItems fuel cs = some r) : takeChar ']' cs = none := by
  cases hc : takeChar ']' cs with
  | none => rfl
  | some rest =>
    rw [takeChar_eq_some_iff.mp hc] at h
    cases fuel with
    | zero => cases h
    | succ fuel => cases fuel <;> cases h

theorem takeChar_of_readEntries {fuel : Nat} {cs : List Char} {r : List (String × Json) × List Char}
    (h : readEntries fuel cs = some r) : takeChar '}' cs = none := by
  cases hc : takeChar '}' cs with
  | none => rfl
  | some rest =>
    rw [takeChar_eq_some_iff.mp hc] at h
    cases fuel <;> cases h

mutual

theorem readValue_text : ∀ (v : Json) (fuel : Nat) (rest : List Char), v.text.length < fuel →
    rest.head?.any isWord = false → readValue fuel (v.text ++ rest) = some (v, rest)
  | v, 0, _, hfuel, _ => absurd hfuel (Nat.not_lt_zero _)
  | .null, fuel + 1, rest, _, hrest => readValue_word rfl (List.all_eq_true.mp rfl) hrest fuel
  | .boolean true, fuel + 1, rest, _, hrest =>
    readValue_word rfl (List.all_eq_true.mp rfl) hrest fuel
  | .boolean false, fuel + 1, rest, _, hrest =>
    readValue_word rfl (List.all_eq_true.mp rfl) hrest fuel
  | .integer n, fuel + 1, rest, _, hrest =>
    readValue_word (word?_integerText n)
      (fun c hc => isWord_of_isNumeral (isNumeral_integerText n c hc)) hrest fuel
  | .double negative m, fuel + 1, rest, _, hrest =>
    readValue_word (word?_double negative m)
      (fun c hc => isWord_of_isNumeral ((text_finite negative m).2.1 c hc)) hrest fuel
  | .string s, fuel + 1, rest, _, _ => by
    have hread := readString_stringText s rest
    rw [text]
    unfold stringText at hread ⊢
    rw [List.cons_append, List.cons_append] at hread ⊢
    rw [readValue, if_pos rfl, hread]
    rfl
  | .array [], fuel + 1, rest, _, _ => rfl
  | .array (v :: vs), fuel + 1, rest, hfuel, _ => by
    rw [text, List.length_append, List.length_cons] at hfuel
    have hread := readItems_itemsText v vs fuel rest (by simpa using hfuel)
    have htext : (Json.array (v :: vs)).text ++ rest =
        '[' :: (itemsText (v :: vs) ++ ']' :: rest) := by simp [text]
    rw [htext, readValue, if_neg (by decide), if_pos rfl, takeChar_of_readItems hread]
    dsimp only
    rw [hread]
    rfl
  | .object [], fuel + 1, rest, _, _ => rfl
  | .object ((name, v) :: es), fuel + 1, rest, hfuel, _ => by
    rw [text, List.length_append, List.length_cons] at hfuel
    have hread := readEntries_entriesText name v es fuel rest (by simpa using hfuel)
    have htext : (Json.object ((name, v) :: es)).text ++ rest =
        '{' :: (entriesText ((name, v) :: es) ++ '}' :: rest) := by simp [text]
    rw [htext, readValue, if_neg (by decide), if_neg (by decide), if_pos rfl,
      takeChar_of_readEntries hread]
    dsimp only
    rw [hread]
    rfl

theorem readItems_itemsText : ∀ (v : Json) (vs : List Json) (fuel : Nat) (rest : List Char),
    (itemsText (v :: vs)).length + 1 < fuel →
      readItems fuel (itemsText (v :: vs) ++ ']' :: rest) = some (v :: vs, rest)
  | v, vs, 0, _, hfuel => absurd hfuel (Nat.not_lt_zero _)
  | v, [], fuel + 1, rest, hfuel => by
    rw [itemsText] at hfuel ⊢
    have hread := readValue_text v fuel (']' :: rest) (by omega)
      (by decide : isWord ']' = false)
    rw [readItems, hread]
    rfl
  | v, w :: vs, fuel + 1, rest, hfuel => by
    rw [itemsText, List.length_append, List.length_cons] at hfuel
    have hread := readValue_text v fuel
      (',' :: (itemsText (w :: vs) ++ ']' :: rest)) (by omega)
      (by decide : isWord ',' = false)
    have hreads := readItems_itemsText w vs fuel rest (by omega)
    rw [itemsText, List.append_assoc, List.cons_append, readItems, hread]
    simp only [Option.bind_eq_bind, Option.bind_some]
    rw [takeChar_cons]
    dsimp only
    rw [hreads]
    rfl

theorem readEntries_entriesText : ∀ (name : String) (v : Json) (es : List (String × Json))
    (fuel : Nat) (rest : List Char), (entriesText ((name, v) :: es)).length + 1 < fuel →
      readEntries fuel (entriesText ((name, v) :: es) ++ '}' :: rest) =
        some ((name, v) :: es, rest)
  | _, _, _, 0, _, hfuel => absurd hfuel (Nat.not_lt_zero _)
  | name, v, [], fuel + 1, rest, hfuel => by
    rw [entriesText, List.length_append, List.length_cons] at hfuel
    have hread := readValue_text v fuel ('}' :: rest) (by omega)
      (by decide : isWord '}' = false)
    rw [entriesText, List.append_assoc, List.cons_append, readEntries, readString_stringText]
    simp only [Option.bind_eq_bind, Option.bind_some, takeChar_cons]
    rw [hread]
    rfl
  | name, v, (name', w) :: es, fuel + 1, rest, hfuel => by
    rw [entriesText, List.length_append, List.length_append, List.length_cons,
      List.length_cons] at hfuel
    have hread := readValue_text v fuel
      (',' :: (entriesText ((name', w) :: es) ++ '}' :: rest)) (by omega)
      (by decide : isWord ',' = false)
    have hreads := readEntries_entriesText name' w es fuel rest (by omega)
    rw [entriesText, List.append_assoc, List.append_assoc, List.cons_append, List.cons_append,
      readEntries, readString_stringText]
    simp only [Option.bind_eq_bind, Option.bind_some, takeChar_cons]
    rw [hread]
    simp only [Option.bind_some, takeChar_cons]
    rw [hreads]
    rfl

end

theorem ofText?_text (v : Json) : ofText? (String.ofList v.text) = some v := by
  have hread := readValue_text v _ [] (Nat.lt_succ_self _) rfl
  rw [List.append_nil] at hread
  rw [ofText?, String.toList_ofList, hread]

end Columnar.Json

namespace Columnar.Tree

/-- **The canonical text loses nothing.** For every document, writing its canonical form is never
refused, not for a double that is infinite or no number either, and the text that is written reads
back as the form. So two documents have the same text exactly if they have the same form: the same
constructors, keys in the same order, strings, integers and doubles. -/
theorem canonical_text_is_lossless (s t : Tree) :
    t.toJson.toDatum.jsonText?.map String.ofList = some t.jsonText ∧
      Json.ofText? t.jsonText = some t.toJson ∧
      (s.jsonText = t.jsonText ↔ s.toJson = t.toJson) := by
  have hwrite : t.toJson.toDatum.jsonText?.map String.ofList = some t.jsonText := by
    rw [Json.jsonText?_toDatum, Option.map_some, jsonText]
  have hread (u : Tree) : Json.ofText? u.jsonText = some u.toJson := Json.ofText?_text u.toJson
  refine ⟨hwrite, hread t, fun h => ?_, fun h => by rw [jsonText, jsonText, h]⟩
  have hboth := hread s
  rw [h, hread t] at hboth
  exact (Option.some.inj hboth).symm

end Columnar.Tree
