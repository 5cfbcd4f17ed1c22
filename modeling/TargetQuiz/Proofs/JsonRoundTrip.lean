import TargetQuiz.Json.Reader
import TargetQuiz.Json.Writer
import TargetQuiz.Proofs.Numerals

/-! The text of a well-formed value reads back as the value whatever follows it, as long as a number
does not run on. -/
namespace TargetQuiz

/-- The parts of a number are those of the grammar. -/
structure JsonNumber.WellFormed (n : JsonNumber) : Prop where
  whole : n.whole = ['0'] ∨ Digits n.whole ∧ n.whole.head? ≠ some '0'
  fraction : ∀ digits ∈ n.fraction, Digits digits
  exponent : ∀ e ∈ n.exponent, Digits e.2

namespace Json

mutual

/-- Every number in the value is well-formed, and every part of it can be written. -/
def WellFormed : Json → Prop
  | .null => True
  | .bool _ => True
  | .number n => n.WellFormed
  | .string _ => True
  | .array items => WellFormedItems items
  | .object fields => WellFormedFields fields
  | .unreadable => False

def WellFormedItems : List Json → Prop
  | [] => True
  | v :: rest => WellFormed v ∧ WellFormedItems rest

def WellFormedFields : List (String × Json) → Prop
  | [] => True
  | (_, v) :: rest => WellFormed v ∧ WellFormedFields rest

end

def Stops (rest : List Char) : Prop :=
  ∀ c ∈ rest.head?, c.isDigit = false ∧ c ≠ '.' ∧ c ≠ 'e' ∧ c ≠ 'E'

theorem stops_nil : Stops [] := by simp [Stops]

theorem stops_cons {c : Char} {rest : List Char} (h : c.isDigit = false)
    (hpoint : c ≠ '.') (hmark : c ≠ 'e') (hupper : c ≠ 'E') : Stops (c :: rest) := by
  simp [Stops, h, hpoint, hmark, hupper]

theorem readDigits_append {digits rest : List Char} (h : Digits digits)
    (hrest : ∀ c ∈ rest.head?, c.isDigit = false) :
    readDigits (digits ++ rest) = some (digits, rest) := by
  obtain ⟨hne, hall⟩ := h
  have htake : rest.takeWhile Char.isDigit = [] := by
    cases rest with
    | nil => rfl
    | cons c cs => simp [hrest c (by simp)]
  have hdrop : rest.dropWhile Char.isDigit = rest := by
    cases rest with
    | nil => rfl
    | cons c cs => simp [hrest c (by simp)]
  unfold readDigits
  rw [List.takeWhile_append_of_pos hall, List.dropWhile_append_of_pos hall, htake, hdrop,
    List.append_nil]
  split
  · contradiction
  · rfl

theorem readWhole_append {whole rest : List Char}
    (h : whole = ['0'] ∨ Digits whole ∧ whole.head? ≠ some '0')
    (hrest : ∀ c ∈ rest.head?, c.isDigit = false) :
    readWhole (whole ++ rest) = some (whole, rest) := by
  rcases h with rfl | ⟨hdigits, hhead⟩
  · rfl
  rw [← readDigits_append hdigits hrest]
  unfold readWhole
  split
  · rename_i cs heq
    have := hdigits.1
    cases whole <;> simp_all
  · rfl

def fractionText : Option (List Char) → List Char
  | some digits => '.' :: digits
  | none => []

def exponentText : Option (Bool × List Char) → List Char
  | some (negative, digits) => 'e' :: (if negative then '-' else '+') :: digits
  | none => []

theorem number_text (n : JsonNumber) : n.text = (if n.negative then ['-'] else []) ++
    (n.whole ++ (fractionText n.fraction ++ exponentText n.exponent)) := by
  simp only [JsonNumber.text, List.append_assoc]
  rfl

theorem readExponent_append (exponent : Option (Bool × List Char)) {rest : List Char}
    (h : ∀ e ∈ exponent, Digits e.2) (hrest : Stops rest) :
    readExponent (exponentText exponent ++ rest) = some (exponent, rest) := by
  cases exponent with
  | none =>
    cases rest with
    | nil => rfl
    | cons c cs =>
      obtain ⟨-, -, hmark, hupper⟩ := hrest c (by simp)
      simp [exponentText, readExponent, hmark, hupper]
  | some e =>
    obtain ⟨negative, digits⟩ := e
    have hdigits := readDigits_append (h _ rfl) fun c hc => (hrest c hc).1
    cases negative <;>
      simp [exponentText, readExponent, readSignedExponent, readExponentDigits, hdigits]

theorem head_exponentText (exponent : Option (Bool × List Char)) {rest : List Char}
    (hrest : Stops rest) :
    ∀ c ∈ (exponentText exponent ++ rest).head?, c.isDigit = false ∧ c ≠ '.' := by
  cases exponent with
  | none => exact fun c hc => ⟨(hrest c hc).1, (hrest c hc).2.1⟩
  | some e => simp [exponentText]

theorem readFraction_append (fraction : Option (List Char)) {rest : List Char}
    (h : ∀ digits ∈ fraction, Digits digits)
    (hrest : ∀ c ∈ rest.head?, c.isDigit = false ∧ c ≠ '.') :
    readFraction (fractionText fraction ++ rest) = some (fraction, rest) := by
  cases fraction with
  | none =>
    cases rest with
    | nil => rfl
    | cons c cs => simp [fractionText, readFraction, (hrest c (by simp)).2]
  | some digits =>
    have hdigits := readDigits_append (h _ rfl) fun c hc => (hrest c hc).1
    simp [fractionText, readFraction, hdigits]

theorem head_fractionText (fraction : Option (List Char)) {rest : List Char}
    (hrest : ∀ c ∈ rest.head?, c.isDigit = false ∧ c ≠ '.') :
    ∀ c ∈ (fractionText fraction ++ rest).head?, c.isDigit = false := by
  cases fraction with
  | none => exact fun c hc => (hrest c hc).1
  | some digits => simp [fractionText]

theorem readUnsigned_append {n : JsonNumber} (h : n.WellFormed) {rest : List Char}
    (hrest : Stops rest) :
    readUnsigned n.negative
      (n.whole ++ (fractionText n.fraction ++ (exponentText n.exponent ++ rest))) =
        some (n, rest) := by
  have hexponent := head_exponentText n.exponent hrest
  have hfraction := head_fractionText n.fraction hexponent
  simp [readUnsigned, readWhole_append h.whole hfraction,
    readFraction_append n.fraction h.fraction hexponent,
    readExponent_append n.exponent h.exponent hrest]

theorem exists_whole_eq_cons {n : JsonNumber} (h : n.WellFormed) :
    ∃ c cs, n.whole = c :: cs ∧ c.isDigit = true := by
  rcases h.whole with hzero | ⟨⟨hne, hall⟩, -⟩
  · exact ⟨'0', [], hzero, rfl⟩
  · obtain ⟨c, cs, hcons⟩ := List.exists_cons_of_ne_nil hne
    exact ⟨c, cs, hcons, hall c (by simp [hcons])⟩

theorem readNumber_text {n : JsonNumber} (h : n.WellFormed) {rest : List Char}
    (hrest : Stops rest) : readNumber (n.text ++ rest) = some (n, rest) := by
  have hread := readUnsigned_append h hrest
  obtain ⟨c, cs, hcons, hc⟩ := exists_whole_eq_cons h
  rw [number_text]
  cases hsign : n.negative with
  | true =>
    rw [hsign] at hread
    simpa [readNumber] using hread
  | false =>
    rw [hsign] at hread
    have hne : c ≠ '-' := by
      rintro rfl
      contradiction
    rw [hcons] at hread ⊢
    simpa [readNumber, hne] using hread

/-! Strings. -/

theorem hexValue4?_control : ∀ n < 0x20,
    hexValue4? '0' '0' (hexDigit (n / 16)) (hexDigit n) = some n := by
  decide

theorem readUnits_shortEscape {e c : Char} (hne : e ≠ 'u') (h : shortEscape? e = some c)
    (cs : List Char) : readUnits ('\\' :: e :: cs) =
      (readUnits cs).map fun (units, rest) => (.char c :: units, rest) := by
  rw [readUnits, h]
  · cases readUnits cs <;> rfl
  · simp [hne]

theorem readUnits_control {n : Nat} (h : n < 0x20) (cs : List Char) :
    readUnits ('\\' :: 'u' :: '0' :: '0' :: hexDigit (n / 16) :: hexDigit n :: cs) =
      (readUnits cs).map fun (units, rest) => (.code n :: units, rest) := by
  have hvalue := hexValue4?_control n h
  rw [readUnits, hvalue]
  cases readUnits cs <;> rfl

theorem readUnits_plain {c : Char} (hmark : c ≠ '\x22') (hback : c ≠ '\\')
    (hprintable : ¬c.toNat < 0x20) (cs : List Char) : readUnits (c :: cs) =
      (readUnits cs).map fun (units, rest) => (.char c :: units, rest) := by
  rw [readUnits]
  · simp [hback, hprintable]
    cases readUnits cs <;> rfl
  · simpa using hmark
  · simp [hback]
  · simp [hback]

theorem joinUnits_control {n : Nat} (h : n < 0x20) (units : List StringUnit) :
    joinUnits (.code n :: units) = (joinUnits units).map (Char.ofNat n :: ·) := by
  have hhigh : isHighSurrogate n = false := decide_eq_false (by omega)
  have hlow : isLowSurrogate n = false := decide_eq_false (by omega)
  rw [joinUnits.eq_def]
  simp [hhigh, hlow]

/-- A character is escaped by a letter, by its number or not at all. -/
theorem escape_cases (c : Char) :
    (∃ e, e ≠ 'u' ∧ shortEscape? e = some c ∧ escape c = ['\\', e]) ∨
      (c.toNat < 0x20 ∧ escape c =
        ['\\', 'u', '0', '0', hexDigit (c.toNat / 16), hexDigit c.toNat]) ∨
      (c ≠ '\x22' ∧ c ≠ '\\' ∧ ¬c.toNat < 0x20) ∧ escape c = [c] := by
  unfold escape
  split
  · subst c
    exact .inl ⟨'\x22', by decide, rfl, rfl⟩
  split
  · subst c
    exact .inl ⟨'\\', by decide, rfl, rfl⟩
  split
  · subst c
    exact .inl ⟨'b', by decide, rfl, rfl⟩
  split
  · subst c
    exact .inl ⟨'f', by decide, rfl, rfl⟩
  split
  · subst c
    exact .inl ⟨'n', by decide, rfl, rfl⟩
  split
  · subst c
    exact .inl ⟨'r', by decide, rfl, rfl⟩
  split
  · subst c
    exact .inl ⟨'t', by decide, rfl, rfl⟩
  split
  · exact .inr (.inl ⟨‹_›, rfl⟩)
  · exact .inr (.inr ⟨⟨‹_›, ‹_›, ‹_›⟩, rfl⟩)

/-- An escaped character is read as one unit, which denotes the character. -/
theorem readUnits_escape (c : Char) : ∃ u,
    (∀ cs, readUnits (escape c ++ cs) =
      (readUnits cs).map fun (units, rest) => (u :: units, rest)) ∧
    ∀ units, joinUnits (u :: units) = (joinUnits units).map (c :: ·) := by
  rcases escape_cases c with ⟨e, hne, hshort, htext⟩ | ⟨hcontrol, htext⟩ |
    ⟨⟨hmark, hback, hprintable⟩, htext⟩
  · refine ⟨.char c, fun cs => ?_, fun _ => rfl⟩
    rw [htext]
    exact readUnits_shortEscape hne hshort cs
  · refine ⟨.code c.toNat, fun cs => ?_, fun units => ?_⟩
    · rw [htext]
      exact readUnits_control hcontrol cs
    · rw [joinUnits_control hcontrol, Char.ofNat_toNat]
  · refine ⟨.char c, fun cs => ?_, fun _ => rfl⟩
    rw [htext]
    exact readUnits_plain hmark hback hprintable cs

theorem readUnits_text (cs rest : List Char) : ∃ units,
    readUnits (cs.flatMap escape ++ '\x22' :: rest) = some (units, rest) ∧
      joinUnits units = some cs := by
  induction cs with
  | nil => exact ⟨[], rfl, rfl⟩
  | cons c cs ih =>
    obtain ⟨units, hread, hjoin⟩ := ih
    obtain ⟨u, hunit, hdenotes⟩ := readUnits_escape c
    refine ⟨u :: units, ?_, ?_⟩
    · rw [List.flatMap_cons, List.append_assoc, hunit, hread]
      rfl
    · rw [hdenotes, hjoin]
      rfl

theorem readString_text (s : String) (rest : List Char) :
    readString (s.toList.flatMap escape ++ '\x22' :: rest) = some (some s, rest) := by
  obtain ⟨units, hread, hjoin⟩ := readUnits_text s.toList rest
  simp [readString, hread, hjoin]

/-! Values. -/

def startsValue (c : Char) : Bool :=
  c == 'n' || c == 't' || c == 'f' || c == '\x22' || c == '[' || c == '\x7b' || c == '-' || c.isDigit

theorem exists_number_text_eq_cons {n : JsonNumber} (h : n.WellFormed) :
    ∃ c cs, n.text = c :: cs ∧ (c = '-' ∨ c.isDigit = true) := by
  obtain ⟨c, cs, hcons, hc⟩ := exists_whole_eq_cons h
  rw [number_text, hcons]
  cases n.negative with
  | true => exact ⟨'-', _, rfl, .inl rfl⟩
  | false => exact ⟨c, _, rfl, .inr hc⟩

theorem exists_text_eq_cons {v : Json} (h : v.WellFormed) :
    ∃ c cs, v.text = c :: cs ∧ startsValue c = true := by
  cases v with
  | null => exact ⟨'n', _, rfl, rfl⟩
  | bool b => cases b <;> exact ⟨_, _, rfl, rfl⟩
  | number n =>
    obtain ⟨c, cs, hcons, hc⟩ := exists_number_text_eq_cons h
    refine ⟨c, cs, by rw [text, hcons], ?_⟩
    rcases hc with rfl | hdigit
    · rfl
    · simp [startsValue, hdigit]
  | string s => exact ⟨'\x22', _, rfl, rfl⟩
  | array items => exact ⟨'[', _, by rw [text], rfl⟩
  | object fields => exact ⟨'\x7b', _, by rw [text], rfl⟩
  | unreadable => exact h.elim

theorem isSpace_of_startsValue {c : Char} (h : startsValue c = true) : isSpace c = false := by
  refine Bool.eq_false_iff.2 fun hspace => ?_
  simp only [isSpace, Bool.or_eq_true, beq_iff_eq] at hspace
  rcases hspace with ((rfl | rfl) | rfl) | rfl <;> exact absurd h (by decide)

theorem skipSpace_cons {c : Char} (cs : List Char) (h : isSpace c = false) :
    skipSpace (c :: cs) = c :: cs := by
  simp [skipSpace, h]

theorem skipSpace_text {v : Json} (h : v.WellFormed) (rest : List Char) :
    skipSpace (v.text ++ rest) = v.text ++ rest := by
  obtain ⟨c, cs, hcons, hc⟩ := exists_text_eq_cons h
  rw [hcons]
  exact skipSpace_cons _ (isSpace_of_startsValue hc)

theorem exists_itemsText_eq_cons {v : Json} (h : v.WellFormed) (items : List Json) :
    ∃ c cs, itemsText (v :: items) = c :: cs ∧ startsValue c = true := by
  obtain ⟨c, cs, hcons, hc⟩ := exists_text_eq_cons h
  cases items with
  | nil => exact ⟨c, cs, by rw [itemsText, hcons], hc⟩
  | cons w items => exact ⟨c, cs ++ ',' :: itemsText (w :: items), by simp [itemsText, hcons], hc⟩

theorem exists_fieldsText_eq_cons (key : String) (v : Json) (fields : List (String × Json)) :
    ∃ cs, fieldsText ((key, v) :: fields) = '\x22' :: cs := by
  cases fields with
  | nil => exact ⟨_, by rw [fieldsText, stringText, List.cons_append]⟩
  | cons field fields => exact ⟨_, by rw [fieldsText, stringText, List.cons_append]; simp⟩

theorem stringText_append (s : String) (rest : List Char) :
    stringText s ++ rest = '\x22' :: (s.toList.flatMap escape ++ '\x22' :: rest) := by
  simp [stringText]

theorem mapM_some {read : Option String × Json → Option (String × Json)}
    (hread : ∀ key v, read (some key, v) = some (key, v)) (fields : List (String × Json)) :
    (fields.map fun field => (some field.1, field.2)).mapM read = some fields := by
  induction fields with
  | nil => rfl
  | cons field fields ih => simp [hread, ih]

theorem ofFields_some (fields : List (String × Json)) :
    ofFields (fields.map fun field => (some field.1, field.2)) = .object fields := by
  rw [ofFields, mapM_some fun _ _ => rfl]

theorem readValue_number {c : Char} {cs : List Char} (hc : c = '-' ∨ c.isDigit = true)
    (fuel : Nat) : readValue (fuel + 1) (c :: cs) =
      (readNumber (c :: cs)).map fun (n, rest) => (.number n, rest) := by
  unfold readValue
  split <;> simp_all
  cases readNumber (c :: cs) <;> rfl

theorem readValue_string (s : String) (fuel : Nat) (rest : List Char) :
    readValue (fuel + 1) (stringText s ++ rest) = some (.string s, rest) := by
  rw [stringText_append, readValue, readString_text]
  rfl

theorem readValue_array {c : Char} (hc : startsValue c = true) (fuel : Nat) (cs : List Char) :
    readValue (fuel + 1) ('[' :: c :: cs) =
      (readItems fuel (c :: cs)).map fun (items, rest) => (.array items, rest) := by
  rw [readValue, skipSpace_cons cs (isSpace_of_startsValue hc)]
  split
  · rename_i heq
    injection heq with hbracket _
    rw [hbracket] at hc
    exact absurd hc (by decide)
  · cases readItems fuel (c :: cs) <;> rfl

theorem readValue_object (fuel : Nat) (cs : List Char) :
    readValue (fuel + 1) ('\x7b' :: '\x22' :: cs) =
      (readFields fuel ('\x22' :: cs)).map fun (fields, rest) => (ofFields fields, rest) := by
  rw [readValue]
  change (readFields fuel ('\x22' :: cs)).bind _ = _
  cases readFields fuel ('\x22' :: cs) <;> rfl

theorem readItems_last {v : Json} {fuel : Nat} {cs rest : List Char}
    (hread : readValue fuel cs = some (v, ']' :: rest)) :
    readItems (fuel + 1) cs = some ([v], rest) := by
  rw [readItems, hread]
  rfl

theorem readItems_more {v : Json} {items : List Json} {fuel : Nat} {cs more rest : List Char}
    (hread : readValue fuel cs = some (v, ',' :: more))
    (hmore : readItems fuel (skipSpace more) = some (items, rest)) :
    readItems (fuel + 1) cs = some (v :: items, rest) := by
  rw [readItems, hread]
  change (readItems fuel (skipSpace more)).bind _ = _
  rw [hmore]
  rfl

theorem readFields_last {key : String} {v : Json} {fuel : Nat} {cs rest : List Char}
    (hread : readValue fuel (skipSpace cs) = some (v, '\x7d' :: rest)) :
    readFields (fuel + 1) (stringText key ++ ':' :: cs) = some ([(some key, v)], rest) := by
  rw [stringText_append, readFields, readString_text]
  change (readValue fuel (skipSpace cs)).bind _ = _
  rw [hread]
  rfl

theorem readFields_more {key : String} {v : Json} {fields : List (Option String × Json)}
    {fuel : Nat} {cs more rest : List Char}
    (hread : readValue fuel (skipSpace cs) = some (v, ',' :: more))
    (hmore : readFields fuel (skipSpace more) = some (fields, rest)) :
    readFields (fuel + 1) (stringText key ++ ':' :: cs) =
      some ((some key, v) :: fields, rest) := by
  rw [stringText_append, readFields, readString_text]
  change (readValue fuel (skipSpace cs)).bind _ = _
  rw [hread]
  change (readFields fuel (skipSpace more)).bind _ = _
  rw [hmore]
  rfl

theorem text_length_pos {v : Json} (h : v.WellFormed) : 0 < v.text.length := by
  obtain ⟨c, cs, hcons, -⟩ := exists_text_eq_cons h
  simp [hcons]

theorem stops_comma (rest : List Char) : Stops (',' :: rest) := by
  simp [Stops]

theorem stops_bracket (rest : List Char) : Stops (']' :: rest) := by
  simp [Stops]

theorem stops_brace (rest : List Char) : Stops ('\x7d' :: rest) := by
  simp [Stops]

mutual

theorem readValue_text : ∀ (v : Json), v.WellFormed → ∀ (fuel : Nat) (rest : List Char),
    2 * v.text.length ≤ fuel → Stops rest → readValue fuel (v.text ++ rest) = some (v, rest)
  | v, h, 0, rest, hfuel, _ => by
    have hpos := text_length_pos h
    omega
  -- a value and its first item begin next to each other, so each character pays for two calls
  | .null, _, fuel + 1, rest, _, _ => rfl
  | .bool b, _, fuel + 1, rest, _, _ => by cases b <;> rfl
  | .number n, h, fuel + 1, rest, _, hrest => by
    have hread := readNumber_text h hrest
    obtain ⟨c, cs, hcons, hc⟩ := exists_number_text_eq_cons h
    rw [text]
    rw [hcons] at hread ⊢
    rw [List.cons_append, readValue_number hc, ← List.cons_append, hread]
    rfl
  | .string s, _, fuel + 1, rest, _, _ => by
    rw [text]
    exact readValue_string s fuel rest
  | .array [], _, fuel + 1, rest, _, _ => rfl
  | .array (v :: items), h, fuel + 1, rest, hfuel, _ => by
    obtain ⟨hv, hitems⟩ := h
    rw [text, List.length_cons, List.length_append] at hfuel
    have hread := readItems_text v items hv hitems fuel rest (by omega)
    obtain ⟨c, cs, hcons, hc⟩ := exists_itemsText_eq_cons hv items
    rw [text, List.cons_append, List.append_assoc]
    rw [hcons] at hread ⊢
    rw [List.cons_append, readValue_array hc]
    rw [List.cons_append] at hread
    exact congrArg (Option.map _) hread
  | .object [], _, fuel + 1, rest, _, _ => rfl
  | .object ((key, v) :: fields), h, fuel + 1, rest, hfuel, _ => by
    obtain ⟨hv, hfields⟩ := h
    rw [text, List.length_cons, List.length_append] at hfuel
    have hread := readFields_text key v fields hv hfields fuel rest (by omega)
    obtain ⟨cs, hcons⟩ := exists_fieldsText_eq_cons key v fields
    rw [text, List.cons_append, List.append_assoc]
    rw [hcons] at hread ⊢
    rw [List.cons_append, readValue_object]
    rw [List.cons_append] at hread
    refine (congrArg (Option.map _) hread).trans ?_
    exact congrArg (fun v => some (v, rest)) (ofFields_some ((key, v) :: fields))

theorem readItems_text : ∀ (v : Json) (items : List Json), v.WellFormed → WellFormedItems items →
    ∀ (fuel : Nat) (rest : List Char), 2 * (itemsText (v :: items)).length + 1 ≤ fuel →
      readItems fuel (itemsText (v :: items) ++ ']' :: rest) = some (v :: items, rest)
  | _, _, _, _, 0, _, hfuel => by omega
  | v, [], h, _, fuel + 1, rest, hfuel => by
    rw [itemsText] at hfuel ⊢
    exact readItems_last (readValue_text v h fuel _ (by omega) (stops_bracket rest))
  | v, w :: items, h, hitems, fuel + 1, rest, hfuel => by
    have htext : itemsText (v :: w :: items) = v.text ++ ',' :: itemsText (w :: items) := by
      rw [itemsText]
      simp
    rw [htext, List.length_append, List.length_cons] at hfuel
    rw [htext, List.append_assoc, List.cons_append]
    refine readItems_more (readValue_text v h fuel _ (by omega) (stops_comma _)) ?_
    obtain ⟨c, cs, hcons, hc⟩ := exists_itemsText_eq_cons hitems.1 items
    have hread := readItems_text w items hitems.1 hitems.2 fuel rest (by omega)
    rw [hcons] at hread ⊢
    rw [List.cons_append, skipSpace_cons _ (isSpace_of_startsValue hc)]
    exact hread

theorem readFields_text : ∀ (key : String) (v : Json) (fields : List (String × Json)),
    v.WellFormed → WellFormedFields fields → ∀ (fuel : Nat) (rest : List Char),
      2 * (fieldsText ((key, v) :: fields)).length + 1 ≤ fuel →
        readFields fuel (fieldsText ((key, v) :: fields) ++ '\x7d' :: rest) =
          some (((key, v) :: fields).map fun field => (some field.1, field.2), rest)
  | _, _, _, _, _, 0, _, hfuel => by omega
  | key, v, [], h, _, fuel + 1, rest, hfuel => by
    rw [fieldsText, List.length_append, List.length_cons] at hfuel
    rw [fieldsText, List.append_assoc, List.cons_append]
    refine readFields_last ?_
    rw [skipSpace_text h]
    exact readValue_text v h fuel _ (by omega) (stops_brace rest)
  | key, v, (next, w) :: fields, h, hfields, fuel + 1, rest, hfuel => by
    have htext : fieldsText ((key, v) :: (next, w) :: fields) =
        stringText key ++ ':' :: (v.text ++ ',' :: fieldsText ((next, w) :: fields)) := by
      rw [fieldsText]
      simp
    rw [htext, List.length_append, List.length_cons, List.length_append, List.length_cons] at hfuel
    rw [htext, List.append_assoc, List.cons_append, List.append_assoc, List.cons_append]
    have hvalue := readValue_text v h fuel
      (',' :: (fieldsText ((next, w) :: fields) ++ '\x7d' :: rest)) (by omega) (stops_comma _)
    rw [← skipSpace_text h] at hvalue
    refine readFields_more hvalue ?_
    obtain ⟨cs, hcons⟩ := exists_fieldsText_eq_cons next w fields
    have hread := readFields_text next w fields hfields.1 hfields.2 fuel rest (by omega)
    rw [hcons] at hread ⊢
    rw [List.cons_append, skipSpace_cons _ rfl]
    exact hread

end

theorem parseChars_text {v : Json} (h : v.WellFormed) : parseChars v.text = some v := by
  have hread := readValue_text v h (2 * v.text.length + 1) [] (by omega) stops_nil
  have hspace := skipSpace_text h []
  rw [List.append_nil] at hread hspace
  rw [parseChars, hspace, hread]
  rfl

theorem parse_render {v : Json} (h : v.WellFormed) : parse v.render = some v := by
  rw [parse, render, String.toList_ofList]
  exact parseChars_text h

/-- Nothing but blanks may follow a value. -/
theorem parseChars_text_append {v : Json} (h : v.WellFormed) {c : Char} (rest : List Char)
    (hstops : Stops (c :: rest)) (hc : isSpace c = false) :
    parseChars (v.text ++ c :: rest) = none := by
  have hread := readValue_text v h (2 * (v.text ++ c :: rest).length + 1) (c :: rest)
    (by rw [List.length_append]; omega) hstops
  rw [parseChars, skipSpace_text h, hread]
  change (if (skipSpace (c :: rest)).isEmpty then some v else none) = none
  rw [skipSpace_cons rest hc]
  rfl

end Json
end TargetQuiz
