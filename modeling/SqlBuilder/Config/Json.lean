import SqlBuilder.Config.Basic
import SqlBuilder.Json.Shape

/-!
# Configuration in JSON

Records are objects or arrays of their fields in order. A foreign key has exactly its four fields;
of a configuration unknown fields are skipped and missing ones have defaults.

Model of `ComposerConfig::from_json_str`.
-/

namespace SqlBuilder

open Json.Reader

/-- A dialect by its name, or as an object with its name as the only key and nothing in it. -/
def Dialect.reader (depth : Nat) : Json.Reader Kind := do
  match ← peek, depth with
  | some '"', _ => ofShape (Dialect.ofName (← string))
  | some '{', _ + 1 =>
    advance
    let d ← ofShape (Dialect.ofName (← string))
    expect ':'
    expectUnit
    expect '}'
    return d
  | _, _ => malformed

namespace ForeignKey

/-- A foreign key that is nested at most `depth` deep. -/
def reader (depth : Nat) : Json.Reader ForeignKey :=
  let text : Json.Reader String := expectString .string
  let item (i : Nat) : Json.Reader String := do
    if ← nextItem (i == 0) then text
    else refuse (.invalidLength i "ForeignKey" fieldNames.length)
  expectRecord "ForeignKey" depth
    (fun _ => return ⟨← item 0, ← item 1, ← item 2, ← item 3⟩)
    (fun _ => do
      let seen ← fields string (fun name seen => do
        unless fieldNames.contains name do refuse (.unknownField name fieldNames)
        match ← newField name (seen.lookup name) text with
        | some s => return (name, s) :: seen
        | none => return seen) (← fuel) true []
      ofShape (ofFields seen))

end ForeignKey

namespace Config

/-- A configuration that is nested at most `depth` deep. -/
def reader (depth : Nat) : Json.Reader Config :=
  let keys (depth : Nat) : Json.Reader (List ForeignKey) :=
    expectSequence depth ForeignKey.reader
  let make (dialect : Option Dialect.Kind) (keys : Option (List ForeignKey)) : Config :=
    ⟨dialect.getD .standard, keys.getD []⟩
  expectRecord recordName depth
    (fun depth => do
      let dialect ← if ← nextItem true then some <$> Dialect.reader depth else pure none
      let keys ← if ← nextItem dialect.isNone then some <$> keys depth else pure none
      return make dialect keys)
    (fun depth => do
      let (dialect, keys) ← fields string (fun name (d, k) => do
        match name with
        | "dialect" => return (← newField name d (Dialect.reader depth), k)
        | "foreign_keys" => return (d, ← newField name k (keys depth))
        | _ => expect ':'; skipValue; return (d, k)) (← fuel) true (none, none)
      return make dialect keys)

/-- The configuration that a JSON text describes. -/
def ofJsonText (text : String) : Except ReadError Config :=
  Json.Reader.run (reader Json.maxDepth) text

end Config
end SqlBuilder
