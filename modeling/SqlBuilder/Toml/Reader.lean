import SqlBuilder.Toml.Scalar

/-!
# Reading TOML text

`Toml.ofText?` reads a whole document. A text that breaks a rule anywhere, of the notation or of
how tables may be defined, gives nothing.

Model of the first half of `ComposerConfig::from_toml_str`, the document without its shape.
-/

namespace SqlBuilder.Toml

/-- What is left of the text, unless it breaks a rule. -/
abbrev Reader := StateT (List Char) Option

/-- How deep arrays and inline tables may nest, and how many parts a key may have. -/
def maxDepth : Nat := 80

namespace Reader

/-! ## Characters -/

def isBlank (c : Char) : Bool := c == ' ' || c == '\t'

/-- Whether a character may stand in a comment or, unescaped, in a string of one line. -/
def isPlain (c : Char) : Bool := c == '\t' || (0x20 ≤ c.toNat && c != '\x7f')

/-- The next character, which is not consumed. -/
def peek : Reader (Option Char) := return (← get).head?

/-- Consumes one character. -/
def advance : Reader Unit := modify (List.drop 1)

/-- Passes spaces and tabs. -/
def blanks : Reader Unit := modify (List.dropWhile isBlank)

/-- Consumes the given character. -/
def expect (c : Char) : Reader Unit := do
  if (← peek) == some c then advance else failure

/-- Consumes the given text if it is next, and says whether it was. -/
def consumes (text : List Char) : Reader Bool := do
  let cs ← get
  if text.isPrefixOf cs then set (cs.drop text.length); return true
  else return false

/-- Consumes the longest run of characters of a class. -/
def takeWhile (p : Char → Bool) : Reader (List Char) :=
  modifyGet fun cs => (cs.takeWhile p, cs.dropWhile p)

/-- Passes a comment, if there is one, up to the end of its line. -/
def comment : Reader Unit := do
  if ← consumes ['#'] then
    let _ ← takeWhile isPlain

/-- Whether a line ends here, which is then consumed. The last line ends with the text. -/
def endOfLine : Reader Bool := do
  match ← get with
  | [] => return true
  | '\n' :: cs | '\r' :: '\n' :: cs => set cs; return true
  | _ => return false

/-- Passes blanks and a comment up to the end of the line. -/
def finishLine : Reader Unit := do
  blanks
  comment
  unless ← endOfLine do failure

/-- Passes blanks, comments and line ends, as often as `fuel` says. -/
def gap : (fuel : Nat) → Reader Unit
  | 0 => failure
  | fuel + 1 => do
    blanks
    comment
    if (← get).isEmpty then return ()
    if ← endOfLine then gap fuel

/-- Passes blanks, comments and line ends. -/
def gaps : Reader Unit := do gap ((← get).length + 1)

/-! ## Strings -/

/-- A character by its number, in so many hexadecimal digits. -/
def numbered (digits : Nat) : Reader Char := do
  let cs ← get
  let hex := cs.take digits
  let n := ofDigits 16 hex
  if hex.length = digits ∧ hex.all isHexDigit ∧ n.isValidChar then
    set (cs.drop digits)
    return .ofNat n
  else failure

/-- The character of an escape, after the backslash. -/
def escape : Reader Char := do
  let e ← peek
  advance
  match e with
  | some 'b' => return '\x08'
  | some 't' => return '\t'
  | some 'n' => return '\n'
  | some 'f' => return '\x0c'
  | some 'r' => return '\r'
  | some 'e' => return '\x1b'
  | some '"' => return '"'
  | some '\\' => return '\\'
  | some 'x' => numbered 2
  | some 'u' => numbered 4
  | some 'U' => numbered 8
  | _ => failure

/-- The characters of a string of one line, up to its closing quote. -/
def lineChars (quote : Char) (escapes : Bool) : (fuel : Nat) → Reader (List Char)
  | 0 => failure
  | fuel + 1 => do
    match ← peek with
    | none => failure
    | some c =>
      advance
      if c = quote then return []
      else if c = '\\' ∧ escapes then
        let e ← escape
        return e :: (← lineChars quote escapes fuel)
      else if isPlain c then return c :: (← lineChars quote escapes fuel)
      else failure

/-- Drops blanks and line ends. -/
def dropFold : List Char → List Char
  | ' ' :: cs | '\t' :: cs | '\n' :: cs | '\r' :: '\n' :: cs => dropFold cs
  | cs => cs

/-- Whether a backslash is followed by nothing but blanks up to the end of its line, which are
then passed with all blanks and line ends that follow. -/
def foldedLine : Reader Bool := do
  let cs ← get
  match cs.dropWhile isBlank with
  | '\n' :: rest | '\r' :: '\n' :: rest => set (dropFold rest); return true
  | _ => return false

/-- The characters of a string of several lines, up to its three closing quotes. Up to two more
quotes before those belong to the string. -/
def blockChars (quote : Char) (escapes : Bool) : (fuel : Nat) → Reader (List Char)
  | 0 => failure
  | fuel + 1 => do
    if ← consumes (List.replicate 5 quote) then return [quote, quote]
    else if ← consumes (List.replicate 4 quote) then return [quote]
    else if ← consumes (List.replicate 3 quote) then return []
    else match ← get with
      | '\r' :: '\n' :: rest =>
        set rest
        return '\r' :: '\n' :: (← blockChars quote escapes fuel)
      | c :: rest =>
        set rest
        if c = '\\' ∧ escapes then
          if ← foldedLine then blockChars quote escapes fuel
          else
            let e ← escape
            return e :: (← blockChars quote escapes fuel)
        else if isPlain c ∨ c = '\n' then return c :: (← blockChars quote escapes fuel)
        else failure
      | [] => failure

/-- A string of one line. -/
def lineString (quote : Char) : Reader String := do
  expect quote
  return .ofList (← lineChars quote (quote == '"') ((← get).length + 1))

/-- A string of one line or several. A line end right after three opening quotes is dropped. -/
def string (quote : Char) : Reader String := do
  if ← consumes (List.replicate 3 quote) then
    let _ ← consumes ['\n'] <||> consumes ['\r', '\n']
    return .ofList (← blockChars quote (quote == '"') ((← get).length + 1))
  else lineString quote

/-! ## Keys -/

def isBareKey (c : Char) : Bool :=
  c.isDigit || ('a' ≤ c && c ≤ 'z') || ('A' ≤ c && c ≤ 'Z') || c == '_' || c == '-'

/-- One part of a key. -/
def keyPart : Reader String := do
  match ← peek with
  | some '"' => lineString '"'
  | some '\'' => lineString '\''
  | _ =>
    let name ← takeWhile isBareKey
    if name.isEmpty then failure else return .ofList name

/-- The parts of a key with dots between them, and the blanks after it. -/
def keyParts : (fuel : Nat) → Reader (List String)
  | 0 => failure
  | fuel + 1 => do
    let part ← keyPart
    blanks
    if ← consumes ['.'] then
      blanks
      return part :: (← keyParts fuel)
    else return [part]

/-- A key, which must not have too many parts. -/
def key : Reader (List String) := do
  let parts ← keyParts ((← get).length + 1)
  if parts.length ≤ maxDepth then return parts else failure

/-! ## Values -/

/-- Whether a character belongs to an unquoted value. -/
def isWord (c : Char) : Bool :=
  !(['=', ',', '[', ']', '{', '}', '#', ' ', '\t', '\r', '\n'].contains c)

/-- An unquoted value. A blank may stand between a date and its time. -/
def scalar : Reader Toml := do
  let word ← takeWhile isWord
  let cs ← get
  let word ← match date? word, cs with
    | some [], ' ' :: d :: _ =>
      if d.isDigit then
        advance
        pure (word ++ ' ' :: (← takeWhile isWord))
      else pure word
    | _, _ => pure word
  scalar? word

mutual

/-- A value, with arrays and inline tables nested at most `depth` deep. -/
def value : (fuel depth : Nat) → Reader Toml
  | 0, _ => failure
  | fuel + 1, depth => do
    match ← peek, depth with
    | some '"', _ => return .string (← string '"')
    | some '\'', _ => return .string (← string '\'')
    | some '[', 0 | some '{', 0 => failure
    | some '[', depth + 1 =>
      advance
      return .array (← items fuel depth)
    | some '{', depth + 1 =>
      advance
      return .table .inline (← fields fuel depth [])
    | _, _ => scalar

/-- The items of an array, and its end. A comma may follow the last one. -/
def items : (fuel depth : Nat) → Reader (List Toml)
  | 0, _ => failure
  | fuel + 1, depth => do
    gaps
    if ← consumes [']'] then return []
    let item ← value fuel depth
    gaps
    if ← consumes [','] then return item :: (← items fuel depth)
    expect ']'
    return [item]

/-- The fields of an inline table, and its end. A comma may follow the last one. -/
def fields : (fuel depth : Nat) → Entries → Reader Entries
  | 0, _, _ => failure
  | fuel + 1, depth, entries => do
    gaps
    if ← consumes ['}'] then return entries
    let path ← key
    expect '='
    blanks
    let entries ← insert (← value fuel depth) path entries
    gaps
    if ← consumes [','] then fields fuel depth entries
    else
      expect '}'
      return entries

end

/-! ## Documents -/

/-- The path of a header and its last part. -/
def splitLast : List String → Option (List String × String)
  | [] => none
  | [k] => some ([], k)
  | k :: ks => (splitLast ks).map fun (path, last) => (k :: path, last)

/-- A header: the document with the table opened, and the path of that table. -/
def header (document : Entries) : Reader (Entries × List String) := do
  let double ← consumes ['[', '[']
  unless double do expect '['
  blanks
  let path ← key
  let (parents, last) ← splitLast path
  expect ']'
  if double then expect ']'
  finishLine
  let open? := if double then openElement else openTable
  return (← open? parents last document, path)

/-- A key with its value, added to the table at a path. -/
def keyValue (document : Entries) (path : List String) : Reader Entries := do
  let k ← key
  expect '='
  blanks
  let v ← value ((← get).length + 1) maxDepth
  finishLine
  changeAt (insert v k) path document

/-- The lines of a document, as many as `fuel` says, from within the table at `path`. -/
def lines : (fuel : Nat) → (document : Entries) → (path : List String) → Reader Entries
  | 0, _, _ => failure
  | fuel + 1, document, path => do
    gaps
    match ← peek with
    | none => return document
    | some '[' =>
      let (document, path) ← header document
      lines fuel document path
    | some _ => lines fuel (← keyValue document path) path

end Reader

/-- The document of a text, whose byte order mark does not count. -/
def ofText? (text : String) : Option Entries :=
  let cs := match text.toList with
    | '\ufeff' :: cs => cs
    | cs => cs
  (StateT.run (Reader.lines (cs.length + 1) [] []) cs).map Prod.fst

end SqlBuilder.Toml
