import ApiReference.Json.Basic
import ApiReference.Decimal.Shortest
import ApiReference.Text.Quoted

/-!
# Texts of document values

How values of the wrong shape are shown when a text is wanted in their place, and
in messages.
-/

namespace ApiReference.Json

open Decimal

mutual

/-- The text of a value inside another one, where texts are quoted. -/
def inspect : Json → Text
  | null => "None"
  | bool b => if b then "True" else "False"
  | int n => Text.ofInt n
  | float x => x.toText .document
  | text t => Text.quoted t
  | list xs => '[' :: inspectItems xs ++ [']']
  | object fs => '\x7b' :: inspectFields fs ++ ['\x7d']

def inspectItems : List Json → Text
  | [] => []
  | [x] => inspect x
  | x :: xs => inspect x ++ ", " ++ inspectItems xs

def inspectFields : List (Text × Json) → Text
  | [] => []
  | [(key, x)] => Text.quoted key ++ ": " ++ inspect x
  | (key, x) :: fs => Text.quoted key ++ ": " ++ inspect x ++ ", " ++ inspectFields fs

end

/-- The text of a value on its own: a text is itself. -/
def display : Json → Text
  | text t => t
  | value => inspect value

@[simp] theorem display_text (t : Text) : display (.text t) = t := rfl

end ApiReference.Json
