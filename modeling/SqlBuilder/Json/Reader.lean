import SqlBuilder.Json.Number
import SqlBuilder.ShapeError

/-!
# Reading JSON text

Readers consume a text from left to right and stop at the first error, so that of two errors the
earlier one is reported. The format is strict: no comments, no trailing commas, nothing but space
after the value. `Reader.tree` reads a value of any shape and `Reader.skipValue` passes one.

Values may nest up to `maxDepth` deep. A value that is skipped may nest deeper: of it, only the
grammar is checked.

Model of the reader below `ComposerConfig::from_json_str`, and below what is read as a `Value`.
-/

namespace SqlBuilder.Json

/-- What is left of the text, or why reading stopped. -/
abbrev Reader := StateT (List Char) (Except ReadError)

/-- How deep arrays and objects may nest. -/
def maxDepth : Nat := 127

namespace Reader

variable {α σ : Type}

/-- The text breaks the rules of JSON. -/
def malformed : Reader α := throw .malformed

/-- The value has the wrong shape. -/
def refuse (e : ShapeError) : Reader α := throw (.shape e)

/-- A result if there is one, and a malformed text otherwise. -/
def lift (read : List Char → Option (α × List Char)) : Reader α := do
  match read (← get) with
  | some (a, rest) => set rest; return a
  | none => malformed

/-! ## Characters -/

def isSpace (c : Char) : Bool := c == ' ' || c == '\n' || c == '\t' || c == '\r'

/-- The next character that is no space, which is not consumed. -/
def peek : Reader (Option Char) := do
  modify (List.dropWhile isSpace)
  return (← get).head?

/-- Consumes one character. -/
def advance : Reader Unit := modify (List.drop 1)

/-- Consumes one character after space, which has to be the given one. -/
def expect (c : Char) : Reader Unit := do
  if (← peek) == some c then advance else malformed

/-- Consumes the letters of a word. -/
def word (letters : String) : Reader Unit :=
  lift fun cs => if letters.toList.isPrefixOf cs then some ((), cs.drop letters.length) else none

/-! ## Strings -/

def hexDigit? (c : Char) : Option Nat :=
  if c.isDigit then some (c.toNat - '0'.toNat)
  else if 'a' ≤ c ∧ c ≤ 'f' then some (c.toNat - 'a'.toNat + 10)
  else if 'A' ≤ c ∧ c ≤ 'F' then some (c.toNat - 'A'.toNat + 10)
  else none

/-- Four hexadecimal digits. -/
def hex4 : List Char → Option (Nat × List Char)
  | a :: b :: c :: d :: rest => do
    let high := (← hexDigit? a) * 16 + (← hexDigit? b)
    let low := (← hexDigit? c) * 16 + (← hexDigit? d)
    return (high * 256 + low, rest)
  | _ => none

/-- The character that a backslash and a letter stand for. -/
def simpleEscape? : Char → Option Char
  | '"' => some '"'
  | '\\' => some '\\'
  | '/' => some '/'
  | 'b' => some '\x08'
  | 'f' => some '\x0c'
  | 'n' => some '\n'
  | 'r' => some '\r'
  | 't' => some '\t'
  | _ => none

/-- The character of a numbered escape, from its digits on. Characters beyond 16 bits are two
surrogates; a surrogate alone is no character. -/
def numberedEscape (cs : List Char) : Option (Char × List Char) := do
  let (n, rest) ← hex4 cs
  if 0xdc00 ≤ n ∧ n ≤ 0xdfff then none
  else if 0xd800 ≤ n ∧ n ≤ 0xdbff then
    match rest with
    | '\\' :: 'u' :: rest =>
      let (m, rest) ← hex4 rest
      if 0xdc00 ≤ m ∧ m ≤ 0xdfff then
        return (.ofNat (0x10000 + (n - 0xd800) * 0x400 + (m - 0xdc00)), rest)
      else none
    | _ => none
  else return (.ofNat n, rest)

/-- The characters of a string up to its closing quote, at most `fuel` of them. -/
def stringChars : Nat → List Char → Option (List Char × List Char)
  | 0, _ => none
  | fuel + 1, cs =>
    match cs with
    | [] => none
    | '"' :: rest => some ([], rest)
    | '\\' :: 'u' :: rest => do
      let (c, rest) ← numberedEscape rest
      let (tail, rest) ← stringChars fuel rest
      return (c :: tail, rest)
    | '\\' :: e :: rest => do
      let c ← simpleEscape? e
      let (tail, rest) ← stringChars fuel rest
      return (c :: tail, rest)
    | c :: rest =>
      if c == '\\' || c.toNat < 0x20 then none
      else do
        let (tail, rest) ← stringChars fuel rest
        return (c :: tail, rest)

/-- A string from its opening quote on. -/
def string : Reader String := do
  expect '"'
  lift fun cs => (stringChars (cs.length + 1) cs).map fun (s, rest) => (String.ofList s, rest)

/-- Passes the characters of a string up to its closing quote. Surrogates need not pair. -/
def skipStringChars : Nat → List Char → Option (Unit × List Char)
  | 0, _ => none
  | fuel + 1, cs =>
    match cs with
    | [] => none
    | '"' :: rest => some ((), rest)
    | '\\' :: 'u' :: rest => do
      let (_, rest) ← hex4 rest
      skipStringChars fuel rest
    | '\\' :: e :: rest => do
      let _ ← simpleEscape? e
      skipStringChars fuel rest
    | c :: rest => if c == '\\' || c.toNat < 0x20 then none else skipStringChars fuel rest

def skipString : Reader Unit := do
  expect '"'
  lift fun cs => skipStringChars (cs.length + 1) cs

/-! ## Numbers -/

/-- A number from its sign on. -/
def number : Reader Json := do
  modify (List.dropWhile isSpace)
  lift fun
    | '-' :: cs => readNumber true cs
    | cs => readNumber false cs

/-- Passes one digit or more. -/
def skipDigits1 (cs : List Char) : Option (List Char) :=
  (cs.head?.bind digit?).map fun _ => Json.skipDigits cs

/-- Passes a number, of any size. -/
def skipNumberChars (cs : List Char) : Option (Unit × List Char) := do
  let cs := match cs with
    | '-' :: cs => cs
    | cs => cs
  let cs ← match cs with
    | '0' :: rest => if (rest.head?.bind digit?).isSome then none else some rest
    | cs => skipDigits1 cs
  let cs ← match cs with
    | '.' :: rest => skipDigits1 rest
    | cs => some cs
  let cs ← match cs with
    | 'e' :: '+' :: rest | 'e' :: '-' :: rest | 'E' :: '+' :: rest | 'E' :: '-' :: rest =>
      skipDigits1 rest
    | 'e' :: rest | 'E' :: rest => skipDigits1 rest
    | cs => some cs
  return ((), cs)

/-! ## Sequences and objects -/

/-- Whether another item follows in an array, which is then next. -/
def nextItem (first : Bool) : Reader Bool := do
  match ← peek with
  | none => malformed
  | some ']' => return false
  | some c =>
    if first then return true
    else if c == ',' then
      advance
      match ← peek with
      | none | some ']' => malformed
      | some _ => return true
    else malformed

/-- Whether another field follows in an object; its key is then next. -/
def nextField (first : Bool) : Reader Bool := do
  match ← peek with
  | none => malformed
  | some '}' => return false
  | some c =>
    if first then
      if c == '"' then return true else malformed
    else if c == ',' then
      advance
      if (← peek) == some '"' then return true else malformed
    else malformed

/-- The items of an array up to its end, each read by `item`. -/
def items (item : Reader α) : Nat → (first : Bool) → Reader (List α)
  | 0, _ => malformed
  | fuel + 1, first => do
    if ← nextItem first then
      let head ← item
      let tail ← items item fuel false
      return head :: tail
    else return []

/-- The fields of an object up to its end. `key` reads a key, and `field` is given it and reads
on from the colon. -/
def fields {κ : Type} (key : Reader κ) (field : κ → σ → Reader σ) :
    Nat → (first : Bool) → σ → Reader σ
  | 0, _, _ => malformed
  | fuel + 1, first, s => do
    if ← nextField first then
      let s ← field (← key) s
      fields key field fuel false s
    else return s

/-- A bound on the number of items or fields that the rest of the text can hold. -/
def fuel : Reader Nat := return (← get).length + 1

/-! ## Whole values -/

/-- A value of any shape, nested at most `depth` deep. -/
def treeOf : Nat → (depth : Nat) → Reader Json
  | 0, _ => malformed
  | fuel + 1, depth => do
    match ← peek with
    | some 'n' => word "null"; return .null
    | some 't' => word "true"; return .bool true
    | some 'f' => word "false"; return .bool false
    | some '"' => return .string (← string)
    | some '[' =>
      match depth with
      | 0 => malformed
      | depth + 1 =>
        advance
        let xs ← items (treeOf fuel depth) fuel true
        expect ']'
        return .array xs
    | some '{' =>
      match depth with
      | 0 => malformed
      | depth + 1 =>
        advance
        let fs ← fields string (fun key fs => do
          expect ':'
          return (key, ← treeOf fuel depth) :: fs) fuel true []
        expect '}'
        return .object fs.reverse
    | some _ => number
    | none => malformed

/-- A value of any shape, nested at most `depth` deep. -/
def tree (depth : Nat) : Reader Json := do treeOf (← fuel) depth

/-- Passes a value of any shape, however deep. -/
def skipValueOf : Nat → Reader Unit
  | 0 => malformed
  | fuel + 1 => do
    match ← peek with
    | some 'n' => word "null"
    | some 't' => word "true"
    | some 'f' => word "false"
    | some '"' => skipString
    | some '[' =>
      advance
      let _ ← items (skipValueOf fuel) fuel true
      expect ']'
    | some '{' =>
      advance
      fields skipString (fun _ _ => do expect ':'; skipValueOf fuel) fuel true ()
      expect '}'
    | some _ => lift skipNumberChars
    | none => malformed

/-- Passes a value of any shape, however deep. -/
def skipValue : Reader Unit := do skipValueOf (← fuel)

/-! ## Whole texts -/

/-- The whole of a text, up to space. -/
def run (read : Reader α) (text : String) : Except ReadError α :=
  let whole : Reader α := do
    let a ← read
    if (← peek).isSome then malformed
    return a
  (StateT.run whole text.toList).map Prod.fst

end Reader
end SqlBuilder.Json
