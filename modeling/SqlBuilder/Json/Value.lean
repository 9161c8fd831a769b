import SqlBuilder.Json.Shape
import SqlBuilder.Session

/-!
# Literals and statements as JSON

A literal is written as the JSON value that looks like it; a float that is not finite has none and
becomes `null`. Read back, an integer that fits 64 signed bits is an integer literal and any other
number is a float. An object is no literal.

Model of the untagged form of `Value` and of the form of `RenderedQuery`, in both directions.
-/

namespace SqlBuilder

namespace Value

mutual

def toJson : Value → Json
  | null => .null
  | bool b => .bool b
  | int n => .integer n.toInt
  | float x => if x.isFinite then .real x else .null
  | text s => .string s
  | array items => .array (itemsToJson items)

def itemsToJson : List Value → List Json
  | [] => []
  | item :: items => item.toJson :: itemsToJson items

end

/-- An integer as a literal: a float when it does not fit 64 signed bits. -/
def ofInteger (n : Int) : Value :=
  if -(Nat.pow 2 63 : Int) ≤ n ∧ n < Nat.pow 2 63 then .int (.ofInt n)
  else .float (.ofMagnitude (n < 0) (Double.ofNat n.natAbs))

mutual

/-- The literal that a JSON value stands for. One object inside, at any depth, and there is none. -/
def ofJson? : Json → Option Value
  | .null => some .null
  | .bool b => some (.bool b)
  | .integer n => some (ofInteger n)
  | .real x => some (.float x)
  | .string s => some (.text s)
  | .array items => (itemsOfJson? items).map .array
  | .object _ => none

def itemsOfJson? : List Json → Option (List Value)
  | [] => some []
  | item :: items =>
    match ofJson? item, itemsOfJson? items with
    | some v, some vs => some (v :: vs)
    | _, _ => none

end

/-- Reads a literal that is nested at most `depth` deep. The whole value is read first. -/
def reader (depth : Nat) : Json.Reader Value := do
  match ofJson? (← Json.Reader.tree depth) with
  | some v => return v
  | none => Json.Reader.refuse .noLiteral

/-- The literal that a JSON text stands for. -/
def ofJsonText (text : String) : Except ReadError Value :=
  Json.Reader.run (reader Json.maxDepth) text

end Value

namespace Statement

def toJson (q : Statement) : Json :=
  .object [("sql", .string q.sql), ("params", .array (Value.itemsToJson q.params))]

open Json.Reader in
/-- Reads a statement that is nested at most `depth` deep. Unknown fields are skipped. -/
def reader (depth : Nat) : Json.Reader Statement :=
  let sql : Json.Reader String := expectString .string
  let params (depth : Nat) : Json.Reader (List Value) := expectSequence depth Value.reader
  let short {α : Type} (length : Nat) : Json.Reader α :=
    refuse (.invalidLength length "RenderedQuery" 2)
  expectRecord "RenderedQuery" depth
    (fun depth => do
      let sql ← if ← nextItem true then sql else short 0
      let params ← if ← nextItem false then params depth else short 1
      return ⟨sql, params⟩)
    (fun depth => do
      let (sql, params) ← fields string (fun key (s, p) => do
        match key with
        | "sql" => return (← newField key s sql, p)
        | "params" => return (s, ← newField key p (params depth))
        | _ => expect ':'; skipValue; return (s, p)) (← fuel) true (none, none)
      return ⟨← required "sql" sql, ← required "params" params⟩)

/-- The statement that a JSON text describes. -/
def ofJsonText (text : String) : Except ReadError Statement :=
  Json.Reader.run (reader Json.maxDepth) text

end Statement
end SqlBuilder
