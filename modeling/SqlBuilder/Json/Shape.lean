import SqlBuilder.Json.Reader

/-!
# Reading JSON values of a given shape

These readers take a value apart while it is read: a field of the wrong shape is reported before
what follows it is looked at. A record is an object, or an array of its fields in order.

Model of how `ComposerConfig`, `ForeignKey` and `RenderedQuery` are deserialized, one field after
the other.
-/

namespace SqlBuilder.Json.Reader

variable {α : Type}

/-- A shape that is right or refused. -/
def ofShape : Except ShapeError α → Reader α
  | .ok a => return a
  | .error e => refuse e

/-! ## Single values -/

/-- The shape error for what is next, if that is well-formed. Of an array or an object only the
beginning is looked at. -/
def refuseNext (expected : Expected) : Reader α := do
  let found (what : Found) : Reader α := refuse (.invalidType what expected)
  match ← peek with
  | some 'n' => word "null"; found .null
  | some 't' => word "true"; found (.bool true)
  | some 'f' => word "false"; found (.bool false)
  | some '"' => found (.string (← string))
  | some '[' => found .sequence
  | some '{' => found .map
  | some _ =>
    match ← number with
    | .integer n => found (.integer n)
    | x => found (.float x.text)
  | none => malformed

/-- A string. -/
def expectString (expected : Expected) : Reader String := do
  match ← peek with
  | some '"' => string
  | _ => refuseNext expected

/-- A null. -/
def expectUnit : Reader Unit := do
  match ← peek with
  | some 'n' => word "null"
  | _ => refuseNext .unit

/-- An array that is nested at most `depth` deep, its items one level deeper. -/
def expectSequence (depth : Nat) (item : Nat → Reader α) : Reader (List α) := do
  match ← peek, depth with
  | some '[', 0 => malformed
  | some '[', depth + 1 =>
    advance
    let xs ← items (item depth) (← fuel) true
    expect ']'
    return xs
  | _, _ => refuseNext .sequence

/-! ## Records -/

/-- A record that is nested at most `depth` deep: an array of its fields in order, or an object.
The readers for its fields are one level deeper. -/
def expectRecord (name : String) (depth : Nat) (ofItems ofFields : Nat → Reader α) :
    Reader α := do
  match ← peek, depth with
  | some '[', 0 | some '{', 0 => malformed
  | some '[', depth + 1 =>
    advance
    let a ← ofItems depth
    expect ']'
    return a
  | some '{', depth + 1 =>
    advance
    let a ← ofFields depth
    expect '}'
    return a
  | _, _ => refuseNext (.record name)

/-- A field that has not been read before, from its colon on. -/
def newField (name : String) (before : Option α) (read : Reader α) : Reader (Option α) := do
  if before.isSome then refuse (.duplicateField name)
  expect ':'
  return some (← read)

/-- A field that has to be there. -/
def required (name : String) : Option α → Reader α
  | some a => return a
  | none => refuse (.missingField name)

end SqlBuilder.Json.Reader
