import ApiReference.Text.Basic

/-!
# Blanks and line breaks

Two sets of characters: those that separate words, and those that end the lines of
a comment.  Every line break is a blank (`isBlank_of_isLineBreak`).
-/

namespace ApiReference.Text

/-- The white space of the Unicode standard, with the four information separators. -/
def isBlank (c : Char) : Bool :=
  let n := c.toNat
  (9 ≤ n && n ≤ 13) || (28 ≤ n && n ≤ 32) || n == 0x85 || n == 0xA0 || n == 0x1680 ||
    (0x2000 ≤ n && n ≤ 0x200A) || n == 0x2028 || n == 0x2029 || n == 0x202F ||
    n == 0x205F || n == 0x3000

/-- The characters that end a line of a comment. -/
def isLineBreak (c : Char) : Bool :=
  let n := c.toNat
  (10 ≤ n && n ≤ 13) || (28 ≤ n && n ≤ 30) || n == 0x85 || n == 0x2028 || n == 0x2029

def trimStart (text : Text) : Text := text.dropWhile isBlank

def trimEnd (text : Text) : Text := (text.reverse.dropWhile isBlank).reverse

def trim (text : Text) : Text := trimEnd (trimStart text)

/-- No character of the text can be seen. -/
def allBlank (text : Text) : Bool := text.all isBlank

/-- The text with every run of blanks replaced by one space. -/
def collapse : Text → Text
  | [] => []
  | c :: text =>
    if isBlank c then
      match text with
      | [] => [' ']
      | d :: _ => if isBlank d then collapse text else ' ' :: collapse text
    else c :: collapse text

/-- The lines of a text under any line break; a break at the very end opens no further line. -/
def lines : Text → List Text
  | [] => []
  | '\r' :: '\n' :: text => [] :: lines text
  | c :: text =>
    if isLineBreak c then [] :: lines text
    else match lines text with
      | line :: rest => (c :: line) :: rest
      | [] => [[c]]

/-- The pieces of a text between line feeds. A carriage return directly before one belongs to
it. -/
def splitLineFeeds : Text → List Text
  | [] => [[]]
  | '\r' :: '\n' :: text => [] :: splitLineFeeds text
  | '\n' :: text => [] :: splitLineFeeds text
  | c :: text =>
    match splitLineFeeds text with
    | piece :: pieces => (c :: piece) :: pieces
    | [] => [[c]]

/-- Carriage returns, alone or before a line feed, become line feeds. -/
def unifyNewlines : Text → Text
  | [] => []
  | '\r' :: '\n' :: text => '\n' :: unifyNewlines text
  | '\r' :: text => '\n' :: unifyNewlines text
  | c :: text => c :: unifyNewlines text

@[simp] theorem isBlank_space : isBlank ' ' = true := rfl
@[simp] theorem isBlank_newline : isBlank '\n' = true := rfl

theorem isBlank_of_isLineBreak {c : Char} (h : isLineBreak c = true) : isBlank c = true := by
  simp only [isLineBreak, isBlank, Bool.or_eq_true, Bool.and_eq_true, decide_eq_true_eq,
    beq_iff_eq] at *
  omega

end ApiReference.Text
