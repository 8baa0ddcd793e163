import Listing.Json.Quoted

/-!
# JSON values and their text

A `Value` is what a program writes: numbers are integers, and the members of an object keep their
order. `Value.render` is its shortest text, without blanks; `Value.depth` is the number of
containers around its innermost item.
-/

set_option autoImplicit false
set_option relaxedAutoImplicit false

namespace Listing.Json

/-- A JSON value. -/
inductive Value where
  | null
  | bool (b : Bool)
  | integer (n : Int)
  | string (s : String)
  | array (items : List Value)
  | object (members : List (String × Value))

namespace Value

/-- The digits of an integer, with a minus sign in front of a negative one. -/
def writeInteger (n : Int) : List Char :=
  if n < 0 then '-' :: Nat.toDigits 10 n.natAbs else Nat.toDigits 10 n.natAbs

mutual

/-- The characters of a value. -/
def write : Value → List Char
  | .null => ['n', 'u', 'l', 'l']
  | .bool true => ['t', 'r', 'u', 'e']
  | .bool false => ['f', 'a', 'l', 's', 'e']
  | .integer n => writeInteger n
  | .string s => Quoted.write s.toList
  | .array [] => ['[', ']']
  | .array (v :: vs) => '[' :: write v ++ writeItems vs
  | .object [] => ['\x7b', '\x7d']
  | .object ((key, v) :: ms) =>
    '\x7b' :: Quoted.write key.toList ++ ':' :: write v ++ writeMembers ms

/-- The further items of an array, and its end. -/
def writeItems : List Value → List Char
  | [] => [']']
  | v :: vs => ',' :: write v ++ writeItems vs

/-- The further members of an object, and its end. -/
def writeMembers : List (String × Value) → List Char
  | [] => ['\x7d']
  | (key, v) :: ms => ',' :: Quoted.write key.toList ++ ':' :: write v ++ writeMembers ms

end

/-- The shortest text of a value. -/
def render (v : Value) : String := String.ofList v.write

mutual

/-- How many containers are around the innermost item, at most. -/
def depth : Value → Nat
  | .array items => 1 + depthItems items
  | .object members => 1 + depthMembers members
  | _ => 0

/-- The greatest depth among the items of an array. -/
def depthItems : List Value → Nat
  | [] => 0
  | v :: vs => max v.depth (depthItems vs)

/-- The greatest depth among the members of an object. -/
def depthMembers : List (String × Value) → Nat
  | [] => 0
  | (_, v) :: ms => max v.depth (depthMembers ms)

end

/-- The object of those members that are present. -/
def record (members : List (String × Option Value)) : Value :=
  .object (members.filterMap fun (key, value) ↦ value.map fun v ↦ (key, v))

/-- A value, or null. -/
def ofOption {α : Type} (encode : α → Value) : Option α → Value
  | none => .null
  | some a => encode a

end Value

end Listing.Json
