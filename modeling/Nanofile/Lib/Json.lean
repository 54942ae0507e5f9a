import Mathlib.Data.List.Basic

/-!
# Writing and reading JSON

Values are written on one line and read back with any white space between their parts.  How a
string is written and read is left open.  The reader's fuel bounds the depth and the length of
what it reads; the length of the text is enough.
-/

set_option autoImplicit false

namespace Nanofile.Lib

universe u

/-- A way to write strings that its reader inverts; letters are written as they are. -/
structure JsonStrings where
  escape : String → String
  parse : List Char → Option (String × List Char)
  opens : ∀ text, (escape text).toList.head? = some '"'
  inverse : ∀ text rest, parse ((escape text).toList ++ rest) = some (text, rest)
  plain : ∀ text, text.toList.all (fun char => char.isAlpha || char = '_') = true →
    escape text = "\"" ++ text ++ "\""

inductive Json where
  | num (value : Int)
  | str (text : String)
  | arr (items : List Json)
  | obj (fields : List (String × Json))

def separated : List String → String
  | [] => ""
  | [text] => text
  | text :: rest => text ++ ", " ++ separated rest

variable (strings : JsonStrings)

mutual

def Json.render : Json → String
  | .num value => toString value
  | .str text => strings.escape text
  | .arr items => "[" ++ separated (renderItems items) ++ "]"
  | .obj fields => "\x7b" ++ separated (renderFields fields) ++ "\x7d"

def renderItems : List Json → List String
  | [] => []
  | item :: rest => item.render :: renderItems rest

def renderFields : List (String × Json) → List String
  | [] => []
  | field :: rest => (strings.escape field.1 ++ ": " ++ field.2.render) :: renderFields rest

end

def isJsonSpace (char : Char) : Bool := char = ' ' || char = '\n' || char = '\t' || char = '\r'

def skipSpaces (text : List Char) : List Char := text.dropWhile isJsonSpace

abbrev JsonReader (α : Type u) := List Char → Option (α × List Char)

section Items

variable {α : Type u} (item : JsonReader α) (close : Char)

def parseItems : Nat → JsonReader (List α)
  | 0, _ => none
  | count + 1, text =>
    (item text).bind fun first =>
      match skipSpaces first.2 with
      | [] => none
      | char :: rest =>
        if char = close then some ([first.1], rest)
        else if char = ',' then
          (parseItems count rest).map fun others => (first.1 :: others.1, others.2)
        else none

def parseSeq (count : Nat) (text : List Char) : Option (List α × List Char) :=
  match skipSpaces text with
  | [] => none
  | char :: rest =>
    if char = close then some ([], rest) else parseItems item close count (char :: rest)

end Items

def parseDigits (text : List Char) : Option (Nat × List Char) :=
  let digits := text.takeWhile Char.isDigit
  let value := Nat.ofDigitChars 10 digits 0
  if digits = Nat.toDigits 10 value then some (value, text.dropWhile Char.isDigit) else none

def parseNumber : List Char → Option (Int × List Char)
  | '-' :: text => (parseDigits text).map fun read => (-read.1, read.2)
  | text => (parseDigits text).map fun read => (read.1, read.2)

def parseField (value : JsonReader Json) (text : List Char) :
    Option ((String × Json) × List Char) :=
  (strings.parse (skipSpaces text)).bind fun key =>
    match skipSpaces key.2 with
    | ':' :: rest => (value rest).map fun read => ((key.1, read.1), read.2)
    | _ => none

def parseValue : Nat → JsonReader Json
  | 0, _ => none
  | fuel + 1, text =>
    match skipSpaces text with
    | '"' :: rest => (strings.parse ('"' :: rest)).map fun read => (.str read.1, read.2)
    | '[' :: rest =>
      (parseSeq (parseValue fuel) ']' fuel rest).map fun read => (.arr read.1, read.2)
    | '{' :: rest => (parseSeq (parseField strings (parseValue fuel)) '}' fuel rest).map fun read =>
        (.obj read.1, read.2)
    | text => (parseNumber text).map fun read => (.num read.1, read.2)

def parseJson (text : String) : Option Json :=
  match parseValue strings (text.toList.length + 1) text.toList with
  | some (value, rest) => if skipSpaces rest = [] then some value else none
  | none => none

/-- The reader reads the text, also behind a blank, before anything that is not a digit. -/
def Reads {α : Type u} (reader : JsonReader α) (text : String) (value : α) : Prop :=
  ∀ lead rest, lead = [] ∨ lead = [' '] → rest.head?.all (fun char => !char.isDigit) = true →
    reader (lead ++ text.toList ++ rest) = some (value, rest)

/-- The first character is neither white space nor closes anything. -/
def Opens (text : String) : Prop :=
  ∃ char rest, text.toList = char :: rest ∧ isJsonSpace char = false ∧ char ≠ ']' ∧ char ≠ '}'

theorem Opens.append {first : String} (opens : Opens first) (second : String) :
    Opens (first ++ second) := by
  obtain ⟨char, rest, isFirst, proper⟩ := opens
  exact ⟨char, rest ++ second.toList, by rw [String.toList_append, isFirst]; rfl, proper⟩

theorem opens_escape (text : String) : Opens (strings.escape text) := by
  obtain ⟨rest, isText⟩ := List.head?_eq_some_iff.mp (strings.opens text)
  exact ⟨'"', rest, isText, by decide⟩

theorem skipSpaces_of_opens {text : String} (opens : Opens text) {lead : List Char}
    (blank : lead = [] ∨ lead = [' ']) (rest : List Char) :
    skipSpaces (lead ++ text.toList ++ rest) = text.toList ++ rest := by
  obtain ⟨char, others, isText, solid, -⟩ := opens
  have isBlank : isJsonSpace ' ' = true := by decide
  rw [isText]
  rcases blank with rfl | rfl <;> simp [skipSpaces, solid, isBlank]

section Sequences

variable {α : Type u} {item : JsonReader α} {close : Char} {items : List α} {write : α → String}

theorem parseItems_reads (bracket : close = ']' ∨ close = '}')
    (reads : ∀ value ∈ items, Reads item (write value) value) :
    ∀ {count : Nat} {lead : List Char} (rest : List Char), items ≠ [] → items.length ≤ count →
      lead = [] ∨ lead = [' '] →
      parseItems item close count (lead ++ (separated (items.map write)).toList ++ close :: rest) =
        some (items, rest) := by
  induction items with
  | nil => exact fun _ nonempty => absurd rfl nonempty
  | cons value others ih =>
    intro count lead rest _ enough blank
    obtain ⟨count, rfl⟩ := Nat.exists_eq_add_of_le' (Nat.lt_of_lt_of_le (Nat.succ_pos _) enough)
    obtain ⟨first, later⟩ := List.forall_mem_cons.mp reads
    have closes : isJsonSpace close = false ∧ close.isDigit = false := by
      rcases bracket with rfl | rfl <;> decide
    cases others with
    | nil =>
      have read := first lead (close :: rest) blank (by simp [closes.2])
      simp only [List.map_cons, List.map_nil, separated]
      rw [parseItems, read]
      simp [skipSpaces, closes.1]
    | cons next others =>
      have comma : ',' ≠ close := by
        rcases bracket with rfl | rfl <;> decide
      have tail := ih later rest (by simp) (Nat.le_of_succ_le_succ enough) (Or.inr rfl)
      have text : lead ++ (separated ((value :: next :: others).map write)).toList ++
          close :: rest = lead ++ (write value).toList ++ (',' :: ([' '] ++
            (separated ((next :: others).map write)).toList ++ close :: rest)) := by
        simp only [List.map_cons, separated, String.toList_append, List.append_assoc]
        rfl
      have skipped : ∀ text, skipSpaces (',' :: text) = ',' :: text := fun text => by
        simp [skipSpaces, isJsonSpace]
      rw [text, parseItems, first lead _ blank (by simp)]
      simp only [Option.bind_some, skipped]
      rw [if_neg comma, if_pos trivial, tail]
      rfl

theorem separated_bounds (opens : ∀ value ∈ items, Opens (write value)) :
    items.length ≤ (separated (items.map write)).toList.length ∧ ∀ value ∈ items,
      (write value).toList.length ≤ (separated (items.map write)).toList.length := by
  induction items with
  | nil => simp
  | cons value rest ih =>
    obtain ⟨first, later⟩ := List.forall_mem_cons.mp opens
    obtain ⟨char, others, isText, -⟩ := first
    have positive : 0 < (write value).toList.length := by rw [isText]; exact Nat.succ_pos _
    cases rest with
    | nil =>
      simp only [List.map_cons, List.map_nil, separated, List.length_singleton, List.mem_singleton,
        forall_eq]
      exact ⟨positive, Nat.le_refl _⟩
    | cons next rest =>
      obtain ⟨counted, within⟩ := ih later
      simp only [separated, List.map_cons, String.toList_append, List.length_append,
        List.length_cons] at *
      refine ⟨by omega, List.forall_mem_cons.mpr ⟨by omega, fun other listed => ?_⟩⟩
      have inner := within other listed
      omega

theorem parseSeq_reads (bracket : close = ']' ∨ close = '}')
    (reads : ∀ value ∈ items, Reads item (write value) value)
    (opens : ∀ value ∈ items, Opens (write value)) {count : Nat}
    (enough : (separated (items.map write)).toList.length ≤ count) (rest : List Char) :
    parseSeq item close count ((separated (items.map write)).toList ++ close :: rest) =
      some (items, rest) := by
  have closes : isJsonSpace close = false := by
    rcases bracket with rfl | rfl <;> decide
  have bounds := (separated_bounds opens).1
  cases items with
  | nil => simp [parseSeq, separated, skipSpaces, closes]
  | cons value others =>
    have opens : Opens (separated ((value :: others).map write)) := by
      have first := opens value List.mem_cons_self
      cases others with
      | nil => exact first
      | cons next others => exact (first.append ", ").append _
    have read : parseItems item close count ([] ++
        (separated ((value :: others).map write)).toList ++ close :: rest) =
        some (value :: others, rest) :=
      parseItems_reads bracket reads rest (by simp) (Nat.le_trans bounds enough) (Or.inl rfl)
    have skipped := skipSpaces_of_opens opens (Or.inl rfl) (close :: rest)
    rw [List.nil_append] at read skipped
    obtain ⟨char, shown, isText, -, notArr, notObj⟩ := opens
    rw [parseSeq, skipped]
    rw [isText] at read ⊢
    have apart : char ≠ close := by
      rcases bracket with rfl | rfl <;> assumption
    simp only [List.cons_append] at read ⊢
    rw [if_neg apart, read]

end Sequences

theorem parseDigits_reads (number : Nat) {rest : List Char}
    (ends : rest.head?.all (fun char => !char.isDigit) = true) :
    parseDigits (Nat.toDigits 10 number ++ rest) = some (number, rest) := by
  have digits : ∀ char ∈ Nat.toDigits 10 number, char.isDigit = true := fun char =>
    Nat.isDigit_of_mem_toDigits (by decide) (by decide)
  have stops : rest.takeWhile Char.isDigit = [] ∧ rest.dropWhile Char.isDigit = rest := by
    cases rest with
    | nil => exact ⟨rfl, rfl⟩
    | cons char others =>
      have notDigit : char.isDigit = false := by simpa using ends
      simp [notDigit]
  rw [parseDigits, List.takeWhile_append_of_pos digits, List.dropWhile_append_of_pos digits,
    stops.1, stops.2, List.append_nil, Nat.ofDigitChars_ten_toDigits]
  exact if_pos rfl

theorem parseNumber_reads (value : Int) : ∃ char others, (toString value).toList = char :: others ∧
    (char = '-' ∨ char.isDigit = true) ∧ ∀ rest : List Char,
      rest.head?.all (fun char => !char.isDigit) = true →
        parseNumber (char :: others ++ rest) = some (value, rest) := by
  cases value with
  | ofNat number =>
    have text : (toString (Int.ofNat number)).toList = Nat.toDigits 10 number :=
      String.toList_ofList
    cases digits : Nat.toDigits 10 number with
    | nil => exact absurd digits (Nat.toDigits_ne_nil)
    | cons char others =>
      have isDigit : char.isDigit = true := Nat.isDigit_of_mem_toDigits (b := 10) (by decide)
        (by decide) (digits ▸ List.mem_cons_self)
      refine ⟨char, others, text.trans digits, Or.inr isDigit, fun rest ends => ?_⟩
      have read := parseDigits_reads number ends
      rw [digits] at read
      unfold parseNumber
      split
      · rename_i same
        cases same
        cases isDigit
      · rw [read]
        rfl
  | negSucc number =>
    refine ⟨'-', Nat.toDigits 10 (number + 1), ?_, Or.inl rfl, fun rest ends => ?_⟩
    · show ("-" ++ Nat.repr (number + 1)).toList = _
      simp only [Nat.repr, String.toList_append, String.toList_ofList]
      rfl
    · rw [List.cons_append, parseNumber, parseDigits_reads (number + 1) ends]
      rfl

theorem renderItems_eq (items : List Json) :
    renderItems strings items = items.map (Json.render strings) := by
  induction items with
  | nil => rfl
  | cons item rest ih => rw [renderItems, ih, List.map_cons]

theorem renderFields_eq (fields : List (String × Json)) : renderFields strings fields =
    fields.map fun field => strings.escape field.1 ++ ": " ++ field.2.render strings := by
  induction fields with
  | nil => rfl
  | cons field rest ih => rw [renderFields, ih, List.map_cons]

theorem opens_render (value : Json) : Opens (value.render strings) := by
  cases value with
  | num value =>
    obtain ⟨char, others, isText, sign | digit, -⟩ := parseNumber_reads value
    · exact ⟨char, others, isText, by rw [sign]; decide⟩
    · refine ⟨char, others, isText, ?_, ?_, ?_⟩
      · by_contra space
        simp only [isJsonSpace, Bool.or_eq_true, decide_eq_true_eq, Bool.not_eq_false] at space
        rcases space with ((rfl | rfl) | rfl) | rfl <;> cases digit
      · rintro rfl
        cases digit
      · rintro rfl
        cases digit
  | str text => exact opens_escape strings text
  | arr items => exact (Opens.append ⟨'[', [], rfl, by decide⟩ _).append _
  | obj fields => exact (Opens.append ⟨'{', [], rfl, by decide⟩ _).append _

theorem parseField_reads {value : JsonReader Json} {field : String × Json}
    (reads : Reads value (field.2.render strings) field.2) : Reads (parseField strings value)
      (strings.escape field.1 ++ ": " ++ field.2.render strings) field := by
  intro lead rest blank ends
  have opens := ((opens_escape strings field.1).append ": ").append (field.2.render strings)
  have text : (strings.escape field.1 ++ ": " ++ field.2.render strings).toList ++ rest =
      (strings.escape field.1).toList ++
        (':' :: ([' '] ++ (field.2.render strings).toList ++ rest)) := by
    simp only [String.toList_append, List.append_assoc]
    rfl
  have colon : ∀ text, skipSpaces (':' :: text) = ':' :: text := fun text => by
    simp [skipSpaces, isJsonSpace]
  rw [parseField, skipSpaces_of_opens opens blank, text, strings.inverse]
  simp only [Option.bind_some, colon]
  rw [reads [' '] rest (Or.inr rfl) ends]
  rfl

theorem parseValue_reads (fuel : Nat) : ∀ value : Json,
    (value.render strings).toList.length ≤ fuel →
      Reads (parseValue strings fuel) (value.render strings) value := by
  induction fuel with
  | zero =>
    intro value enough
    obtain ⟨char, others, isText, -⟩ := opens_render strings value
    rw [isText] at enough
    cases enough
  | succ fuel ih =>
    intro value enough lead rest blank ends
    rw [parseValue, skipSpaces_of_opens (opens_render strings value) blank]
    cases value with
    | num value =>
      obtain ⟨char, others, isText, begins, reads⟩ := parseNumber_reads value
      rw [Json.render, isText]
      split
      · rename_i same
        cases same
        rcases begins with sign | digit <;> contradiction
      · rename_i same
        cases same
        rcases begins with sign | digit <;> contradiction
      · rename_i same
        cases same
        rcases begins with sign | digit <;> contradiction
      · rw [reads rest ends]
        rfl
    | str text =>
      obtain ⟨others, isText⟩ := List.head?_eq_some_iff.mp (strings.opens text)
      have read := strings.inverse text rest
      rw [Json.render, isText, List.cons_append]
      rw [isText, List.cons_append] at read
      simp only [read, Option.map_some]
    | arr items =>
      have opens : ∀ item ∈ items, Opens (item.render strings) := fun item _ =>
        opens_render strings item
      have text : (Json.render strings (.arr items)).toList ++ rest =
          '[' :: ((separated (items.map (Json.render strings))).toList ++ ']' :: rest) := by
        simp only [Json.render, renderItems_eq, String.toList_append, List.append_assoc]
        rfl
      have sizes := congrArg List.length text
      simp only [List.length_append, List.length_cons] at sizes
      have read : parseSeq (parseValue strings fuel) ']' fuel
          ((separated (items.map (Json.render strings))).toList ++ ']' :: rest) =
            some (items, rest) :=
        parseSeq_reads (Or.inl rfl) (fun item listed => ih item
          (Nat.le_trans ((separated_bounds opens).2 item listed) (by omega))) opens (by omega) rest
      simp only [text, read, Option.map_some]
    | obj fields =>
      let write (field : String × Json) := strings.escape field.1 ++ ": " ++ field.2.render strings
      have opens : ∀ field ∈ fields, Opens (write field) := fun field _ =>
        ((opens_escape strings field.1).append ": ").append _
      have text : (Json.render strings (.obj fields)).toList ++ rest =
          '{' :: ((separated (fields.map write)).toList ++ '}' :: rest) := by
        simp only [Json.render, renderFields_eq, String.toList_append, List.append_assoc]
        rfl
      have sizes := congrArg List.length text
      simp only [List.length_append, List.length_cons] at sizes
      have fits : (separated (fields.map write)).toList.length ≤ fuel := by omega
      have read : parseSeq (parseField strings (parseValue strings fuel)) '}' fuel
          ((separated (fields.map write)).toList ++ '}' :: rest) = some (fields, rest) := by
        refine parseSeq_reads (Or.inr rfl) (fun field listed => parseField_reads strings
          (ih field.2 ?_)) opens fits rest
        have inner := (separated_bounds opens).2 field listed
        simp only [write, String.toList_append, List.length_append] at inner fits
        omega
      simp only [text, read, Option.map_some]

theorem parseJson_render (value : Json) :
    parseJson strings (value.render strings) = some value := by
  have read := parseValue_reads strings _ value (Nat.le_succ _) [] [] (Or.inl rfl) rfl
  rw [List.nil_append, List.append_nil] at read
  rw [parseJson, read]
  rfl

end Nanofile.Lib
