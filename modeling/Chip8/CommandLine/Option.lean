import Chip8.Text.DecimalDigit

/-! Options on a command line. A long option may be cut short as long as one name fits, and a value
may follow its option as the next word, behind an equals sign or, with a letter, directly. Letters
of options without a value may be written together, and the last of them may take a value. -/

namespace Chip8.CommandLine

structure OptionSpec (κ : Type) where
  key : κ
  /-- One hyphen and a letter, or two hyphens and a word. -/
  names : List String
  takesValue : Bool

/-- What a word of the command line is taken for. -/
inductive Word (κ : Type) where
  | argument (text : String)
  /-- An option, perhaps with text attached to its name. -/
  | option (spec : OptionSpec κ) (name : List Char) (attached : Option (List Char))
  | unknown
  /-- Two hyphens: all words behind them are arguments. -/
  | separator

/-- An option that is given, with its value if it has one. -/
abbrev Given (κ : Type) := κ × Option String

variable {κ : Type}

/-! ## Words -/

/-- All names with their options. -/
def named (specs : List (OptionSpec κ)) : List (List Char × OptionSpec κ) :=
  specs.flatMap fun spec => spec.names.map fun name => (name.toList, spec)

def find? (specs : List (OptionSpec κ)) (name : List Char) : Option (OptionSpec κ) :=
  ((named specs).find? (·.1 == name)).map (·.2)

def isLong : List Char → Bool
  | '-' :: '-' :: _ => true
  | _ => false

/-- Splits a word at its first equals sign. -/
def splitEquals (word : List Char) : List Char × Option (List Char) :=
  match word.dropWhile (· != '=') with
  | _ :: value => (word.takeWhile (· != '='), some value)
  | [] => (word, none)

/-- The readings of a word that is no full name of an option. -/
def readings (specs : List (OptionSpec κ)) (word : List Char) : List (Word κ) :=
  if isLong word then
    let (start, attached) := splitEquals word
    ((named specs).filter fun (name, _) => start.isPrefixOf name).map fun (name, spec) =>
      .option spec name attached
  else
    ((named specs).filter (·.1 == word.take 2)).map fun (name, spec) =>
      .option spec name (some (word.drop 2))

def isDecimal (c : Char) : Bool := (Text.decimalDigit? c.toNat).isSome

/-- Whether a word is a negative number: a hyphen and digits, perhaps with a point in front of the
last of them. A line end behind the number does not matter. -/
def isNegativeNumber (word : List Char) : Bool :=
  match word with
  | '-' :: number =>
    let number := if number.getLast? = some '\n' then number.dropLast else number
    match number.dropWhile isDecimal with
    | [] => !number.isEmpty
    | '.' :: digits => !digits.isEmpty && digits.all isDecimal
    | _ => false
  | _ => false

/-- What a word in front of the separator is taken for, unless several options fit. -/
def classify (specs : List (OptionSpec κ)) (word : String) : Option (Word κ) :=
  let chars := word.toList
  if chars.head? ≠ some '-' then some (.argument word)
  else match find? specs chars with
    | some spec => some (.option spec chars none)
    | none =>
      if chars.length = 1 then some (.argument word)
      else
        let (name, attached) := splitEquals chars
        match attached, find? specs name with
        | some attached, some spec => some (.option spec name (some attached))
        | _, _ =>
          match readings specs chars with
          | [reading] => some reading
          | _ :: _ :: _ => none
          | [] =>
            if isNegativeNumber chars || chars.contains ' ' then some (.argument word)
            else some .unknown

def classifyAll (specs : List (OptionSpec κ)) : List String → Option (List (Word κ))
  | [] => some []
  | "--" :: rest => some (.separator :: rest.map .argument)
  | word :: rest => do return (← classify specs word) :: (← classifyAll specs rest)

/-! ## Options and their values -/

/-- What a word with options gives. -/
structure Expansion (κ : Type) where
  given : List (Given κ)
  /-- The value of the last option is the next word. -/
  usesNext : Bool

/-- Puts an option without a value in front. -/
def Expansion.withFlag (e : Expansion κ) (spec : OptionSpec κ) : Expansion κ :=
  { e with given := (spec.key, none) :: e.given }

/-- Attached text as a value. Two hyphens alone are no value but a separator, and are dropped. -/
def attachedValue (text : List Char) : Option String :=
  if text = ['-', '-'] then none else some (String.ofList text)

/-- An option with attached text that it takes as its value. -/
def attach (spec : OptionSpec κ) (text : List Char) : Expansion κ :=
  ⟨[(spec.key, attachedValue text)], false⟩

/-- An option with nothing attached; `next` is the next word if it is an argument. -/
def bare (spec : OptionSpec κ) (next : Option String) : Option (Expansion κ) :=
  if spec.takesValue then next.map fun value => ⟨[(spec.key, some value)], true⟩
  else some ⟨[(spec.key, none)], false⟩

/-- The options of letters written together. The first that takes a value takes all that is behind
it, even an equals sign. A letter that is no option is an error. -/
def letters (specs : List (OptionSpec κ)) (next : Option String) :
    List Char → Option (Expansion κ)
  | [] => none
  | letter :: rest =>
    match find? specs ['-', letter] with
    | none => none
    | some spec =>
      if rest.isEmpty then bare spec next
      else if spec.takesValue then some (attach spec rest)
      else (letters specs next rest).map (·.withFlag spec)

/-- The options that a word gives. Text attached to a letter without a value is more letters,
whether there is an equals sign between the two or not. -/
def expand (specs : List (OptionSpec κ)) (spec : OptionSpec κ) (name : List Char)
    (attached : Option (List Char)) (next : Option String) : Option (Expansion κ) :=
  match attached with
  | none => bare spec next
  | some text =>
    if spec.takesValue then some (attach spec text)
    else if isLong name then none
    else (letters specs next text).map (·.withFlag spec)

/-! ## The whole line -/

/-- One thing after the other that a command line says. -/
inductive Item (κ : Type) where
  | given (option : Given κ)
  | argument (text : String)
  deriving DecidableEq, Repr

/-- A command line with room for one argument. -/
structure Scan (κ : Type) where
  /-- What it says in order, up to the first error. -/
  items : List (Item κ)
  /-- It ends in an error, or says something that has no place. -/
  failed : Bool

namespace Scan

def cons (item : Item κ) (scan : Scan κ) : Scan κ := { scan with items := item :: scan.items }

def append (items : List (Item κ)) (scan : Scan κ) : Scan κ :=
  { scan with items := items ++ scan.items }

def fail (scan : Scan κ) : Scan κ := { scan with failed := true }

end Scan

/-- Reads words from left to right; `taken` tells whether there was an argument before. A separator
is dropped next to the argument, and has no place elsewhere. -/
def scanWords (specs : List (OptionSpec κ)) (taken : Bool) : List (Word κ) → Scan κ
  | [] => ⟨[], false⟩
  | [.argument text, .separator] =>
    if taken then ⟨[], true⟩ else ⟨[.argument text], false⟩
  | .argument text :: rest =>
    if taken then (scanWords specs true rest).fail
    else (scanWords specs true rest).cons (.argument text)
  | .separator :: rest =>
    if taken then ⟨[], true⟩
    else match rest with
      | [.argument text] => ⟨[.argument text], false⟩
      | .argument text :: _ => ⟨[.argument text], true⟩
      | _ => ⟨[], true⟩
  | .unknown :: rest => (scanWords specs taken rest).fail
  | .option spec name attached :: rest =>
    let next := match rest with
      | .argument text :: _ => some text
      | _ => none
    match expand specs spec name attached next with
    | none => ⟨[], true⟩
    | some e =>
      (scanWords specs taken (rest.drop e.usesNext.toNat)).append (e.given.map .given)
termination_by words => words.length
decreasing_by all_goals simp only [List.length_cons, List.length_drop]; omega

/-- Reads a command line. A word that fits several options is an error before all others. -/
def scan (specs : List (OptionSpec κ)) (words : List String) : Scan κ :=
  match classifyAll specs words with
  | none => ⟨[], true⟩
  | some words => scanWords specs false words

end Chip8.CommandLine
