import ApiReference.Diagnostics.Fault
import ApiReference.Json.Basic

/-!
# Merging configurations

A configuration is laid over another one field by field.  Lists replace each
other, but the lists of tags grow: they are joined as sets and put in order.
-/

namespace ApiReference.Json

open Decimal

/-- The keys whose lists grow instead of being replaced. -/
def additiveKeys : List Text := ["block_tags", "modifier_tags"]

/-- The number that a value counts as, as a fraction. -/
def fraction? : Json → Option (Int × Nat)
  | int n => some (n, 1)
  | bool b => some (if b then 1 else 0, 1)
  | float x => x.fraction?
  | _ => none

/-- A value that can be a member of a set and be put in order. -/
inductive Atom where
  | text (t : Text)
  | number (value : Json) (num : Int) (den : Nat)
  | infinite (value : Json) (negative : Bool)
  | null
deriving Repr

namespace Atom

/-- Lists and objects are no members of sets. -/
def of? : Json → Option Atom
  | .text t => some (.text t)
  | .null => some .null
  | .float (.infinite negative) => some (.infinite (.float (.infinite negative)) negative)
  | .float .nan => some (.number (.float .nan) 0 0)
  | .list _ | .object _ => none
  | value =>
    match value.fraction? with
    | some (num, den) => some (.number value num den)
    | none => none

def toJson : Atom → Json
  | text t => .text t
  | number value _ _ | infinite value _ => value
  | null => .null

/-- Numbers are the same when their values are, whatever they are written as. -/
def same : Atom → Atom → Bool
  | text s, text t => s == t
  | number _ n d, number _ m e => d != 0 && e != 0 && n * e == m * d
  | infinite _ a, infinite _ b => a == b
  | null, null => true
  | _, _ => false

/-- Whether a member comes before another one; texts and numbers cannot be compared. -/
def lt? : Atom → Atom → Option Bool
  | text s, text t => some (Text.lt s t)
  | number _ n d, number _ m e => some (d != 0 && e != 0 && n * e < m * d)
  | infinite _ a, infinite _ b => some (a && !b)
  | infinite _ a, number _ _ _ => some a
  | number _ _ _, infinite _ b => some !b
  | _, _ => none

/-- The members in order of first occurrence, each once. -/
def distinct : List Atom → List Atom
  | [] => []
  | a :: as => a :: (distinct as).filter fun b => !a.same b

def insert? (a : Atom) : List Atom → Option (List Atom)
  | [] => some [a]
  | b :: bs => do
    if ← lt? b a then return b :: (← insert? a bs) else return a :: b :: bs

/-- The members in order, if they can be compared. -/
def sort? : List Atom → Option (List Atom)
  | [] => some []
  | a :: as => do insert? a (← sort? as)

end Atom

/-- The members of two lists, each once and in order. -/
def union (xs ys : List Json) : Except Fault Json :=
  match (xs ++ ys).mapM Atom.of? with
  | none => .error .wrongType
  | some atoms =>
    match Atom.sort? (Atom.distinct atoms) with
    | none => .error .wrongType
    | some sorted => .ok (.list (sorted.map Atom.toJson))

mutual

/-- Puts the fields of one object over those of another. Objects are merged field by field, lists
of tags are joined, and all else is replaced. -/
def mergeFields (base : List (Text × Json)) : List (Text × Json) → Except Fault (List (Text × Json))
  | [] => .ok base
  | (key, value) :: fields => do
    let merged ← mergeValue key (base.lookup key) value
    mergeFields (insert key merged base) fields

/-- The value of a key after merging. -/
def mergeValue (key : Text) (old? : Option Json) : Json → Except Fault Json
  | .object fields =>
    match old? with
    | some (.object old) => do return .object (← mergeFields old fields)
    | _ => .ok (.object fields)
  | .list items =>
    match old? with
    | some (.list old) =>
      if additiveKeys.contains key then union old items else .ok (.list items)
    | _ => .ok (.list items)
  | value => .ok value

end

/-- What happens when fields are put over a list: a single field is refused. -/
def mergeIntoList (items : List Json) : List (Text × Json) → Except Fault Json
  | [] => .ok (.list items)
  | (key, .list _) :: _ =>
    if additiveKeys.contains key && !items.any (isText key) then .error .wrongShape
    else .error .wrongType
  | _ :: _ => .error .wrongType
where
  isText (key : Text) : Json → Bool
    | .text t => t == key
    | _ => false

/-- Puts one configuration over another. -/
def merge (base update : Json) : Except Fault Json :=
  match base, update with
  | .object old, .object fields => do return .object (← mergeFields old fields)
  | .list items, .object fields => mergeIntoList items fields
  | _, _ => .error .wrongShape

end ApiReference.Json
