import ApiReference.Site.FileTree
import ApiReference.Text.Digit

/-!
# Options of the command line

Options are read in order, long ones also when they are cut short, and a value may
stand in the same word as its option.
-/

namespace ApiReference.Site

/-- What the words after the program's name ask for. -/
structure Options where
  input : Text
  output : Text
  config? : Option Text
  verbose : Bool
deriving DecidableEq, Repr

/-- A path in its plainest form: no empty step, no dot, no slash at the end. Two slashes at the
start are not the same as one. -/
def plainPath (path : Text) : Text :=
  let steps := stepsShown path
  match (path.takeWhile (· == '/')).length, steps with
  | 0, [] => ['.']
  | 0, _ => Text.join ['/'] steps
  | 2, _ => '/' :: pathOf steps
  | _, _ => pathOf steps

namespace Options

def standard : Options := ⟨"input", "markdown", none, false⟩

/-- The options by name. -/
inductive Name where
  | input | output | config | verbose
deriving DecidableEq, Repr

def Name.takesValue (name : Name) : Bool := name != verbose

/-- The spellings of each option. -/
def spellings : List (Text × Name) :=
  [("-i", .input), ("-o", .output), ("--input", .input), ("--output", .output),
    ("--config", .config), ("--verbose", .verbose)]

/-- What a word of the command line is. -/
inductive Word where
  /-- An option, with the value that the same word gives it. -/
  | option (name : Name) (value? : Option Text)
  /-- A word that can be the value of an option. -/
  | plain
  /-- A word that looks like an option and is none. -/
  | foreign
deriving DecidableEq, Repr

namespace Word

/-- A hyphen with a number behind it is no option. -/
def isNumber (word : Text) : Bool :=
  let digits := word.drop 1
  let parts := Text.cut '.' (if digits.getLast? = some '\n' then digits.dropLast else digits)
  parts.1.all Text.isDecimal && match parts.2 with
    | none => !parts.1.isEmpty
    | some places => !places.isEmpty && places.all Text.isDecimal

/-- The options that a word may be cut short from, or that it starts with. -/
def candidates (word : Text) : List (Name × Option Text) :=
  if List.isPrefixOf ['-', '-'] word then
    let parts := Text.cut '=' word
    (spellings.filter fun s => parts.1.isPrefixOf s.1).map fun s => (s.2, parts.2)
  else (spellings.filter fun s => s.1 = word.take 2).map fun s => (s.2, some (word.drop 2))

/-- Reads a word. One with a hyphen first is an option, if it can be taken for exactly one, and a
value only if it is a number or holds a space. -/
def ofText (word : Text) : Word :=
  if word.head? != some '-' || word.length = 1 then .plain
  else match spellings.lookup word with
    | some name => .option name none
    | none =>
      let parts := Text.cut '=' word
      match spellings.lookup parts.1, parts.2 with
      | some name, some value => .option name (some value)
      | _, _ =>
        match candidates word with
        | [(name, value?)] => .option name value?
        | [] => if isNumber word || word.contains ' ' then .plain else .foreign
        | _ => .foreign

end Word

def set (o : Options) (name : Name) (value : Text) : Options :=
  match name with
  | .input => { o with input := plainPath value }
  | .output => { o with output := plainPath value }
  | .config => { o with config? := if value.isEmpty then none else some value }
  | .verbose => { o with verbose := true }

/-- Reads the words in order; a later one takes the place of an earlier one. Nothing is the answer
when a word is no option or its value is missing. -/
def read (o : Options) : List Text → Option Options
  | [] => some o
  | word :: words =>
    match Word.ofText word with
    | .option name (some value) => if name.takesValue then read (o.set name value) words else none
    | .option name none =>
      if name.takesValue then
        match words with
        | [] => none
        | value :: words =>
          if Word.ofText value = .plain then read (o.set name value) words else none
      else read (o.set name []) words
    | _ => none

def ofWords? (words : List Text) : Option Options := read standard words

/-- What is shown when the words cannot be read. -/
def usage : Text := "usage: api-documenter [-i INPUT] [-o OUTPUT] [--config CONFIG] [--verbose]"

end Options

end ApiReference.Site
