import ApiReference.Json.Access
import ApiReference.Json.Display

/-!
# Excerpts

The text of a declaration is given as tokens, and the types inside it as ranges of
tokens.  A range ends before its second bound, and negative bounds count from the
end.
-/

namespace ApiReference.Declaration

/-- The place of a slice bound among `n` items: a negative one counts from the end. -/
def sliceBound (n : Nat) (i : Int) : Nat := min n (if i < 0 then i + n else i).toNat

/-- The items from one bound up to another. -/
def slice {α : Type} (items : List α) (start stop : Int) : List α :=
  (items.take (sliceBound items.length stop)).drop (sliceBound items.length start)

/-- The text of the tokens from one bound up to another. -/
def excerptOf (tokens : List Text) (start stop : Int) : Text := (slice tokens start stop).flatten

/-- The text of one token; a token without any is empty. -/
def tokenText (token : Json) : Except Fault Text := do
  return ((← token.field? "text").getD (.text [])).display

/-- The tokens of a list, which may be absent. -/
def tokensOf (value : Json) : Except Fault (List Text) := do
  if value.isPresent then (← value.elements).mapM tokenText else return []

/-- The trimmed text of a token range, which may be absent. A range without a start begins with the
first token, and one without an end is empty. -/
def rangeText (tokens : List Text) (range : Json) : Except Fault Text := do
  if !range.isPresent then return []
  let start ← ((← range.field? "startIndex").getD (.int 0)).toInt
  let stop ← ((← range.field? "endIndex").getD (.int start)).toInt
  return Text.trim (excerptOf tokens start stop)

end ApiReference.Declaration
