import SqlBuilder.Config.Json
import SqlBuilder.Config.Toml

/-!
# Configuration files

The extension of a file's name says which notation its text is in.

Model of `ComposerConfig::load` and of `ConfigError`, with the contents of the file as an argument.
-/

namespace SqlBuilder

/-- Why there is no configuration. -/
inductive ConfigError where
  /-- The file is missing or its contents are no text. -/
  | unreadable
  | json (error : ReadError)
  | toml (error : ReadError)
  /-- The extension, if there is one, belongs to no notation. -/
  | unsupported (extension? : Option String)

/-- The wording of an error, but for that of a text that breaks the rules of its notation. -/
def ConfigError.message? : ConfigError → Option String
  | json (.shape e) => some ("Invalid JSON config: " ++ e.message)
  | toml (.shape e) => some ("Invalid TOML config: " ++ e.message)
  | unsupported extension? => some ("Unsupported config format: " ++ extension?.getD "<none>")
  | unreadable | json .malformed | toml .malformed => none

/-- The part of a file name after its last point, unless that point comes first. -/
def extension? (fileName : String) : Option String :=
  let cs := fileName.toList.reverse
  match cs.dropWhile (· ≠ '.') with
  | _ :: _ :: _ => some (.ofList (cs.takeWhile (· ≠ '.')).reverse)
  | _ => none

namespace Config

/-- The configuration in a file of a given name, with the bytes that it holds if it exists. -/
def ofFile (name : String) (contents? : Option ByteArray) : Except ConfigError Config :=
  match contents?.bind String.fromUTF8? with
  | none => throw .unreadable
  | some text =>
    match extension? name with
    | some "toml" => (ofTomlText text).mapError .toml
    | some "json" => (ofJsonText text).mapError .json
    | other => throw (.unsupported other)

end Config
end SqlBuilder
