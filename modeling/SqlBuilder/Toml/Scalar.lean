import SqlBuilder.Toml.Basic

/-!
# Unquoted values in TOML

Booleans, numbers, dates and times, each as a whole word. `Toml.scalar?` gives the value of a word
and nothing for a word that is none of these.

A numeral is only taken for what it looks like. One that turns out to stand for no number, because
it is too big or has a letter among its digits, is a value all the same, `Toml.numeral`; whoever
needs the number finds that there is none.

Model of how `ComposerConfig::from_toml_str` reads what stands without quotes.
-/

namespace SqlBuilder.Toml

/-! ## Digits -/

/-- Digits with single underscores between them: the digits, and the rest of the word. -/
def grouped (isDigit : Char → Bool) : List Char → Option (List Char × List Char)
  | [] => none
  | c :: cs => if isDigit c then some (go [c] cs) else none
where
  /-- More digits, the latest first in `seen`. -/
  go (seen : List Char) : List Char → List Char × List Char
    | '_' :: d :: cs => if isDigit d then go (d :: seen) cs else (seen.reverse, '_' :: d :: cs)
    | d :: cs => if isDigit d then go (d :: seen) cs else (seen.reverse, d :: cs)
    | [] => (seen.reverse, [])

def isHexDigit (c : Char) : Bool := c.isDigit || ('a' ≤ c && c ≤ 'f') || ('A' ≤ c && c ≤ 'F')

def digitValue (c : Char) : Nat :=
  if c.isDigit then c.toNat - '0'.toNat
  else if 'a' ≤ c then c.toNat - 'a'.toNat + 10
  else c.toNat - 'A'.toNat + 10

/-- The number that digits stand for. -/
def ofDigits (base : Nat) (digits : List Char) : Nat :=
  digits.foldl (fun n c => n * base + digitValue c) 0

/-- Whether underscores stand between hexadecimal digits only, in what follows `previous`. -/
def separatedAfter (previous : Char) : List Char → Bool
  | [] => true
  | '_' :: cs => isHexDigit previous && cs.head?.any isHexDigit && separatedAfter '_' cs
  | c :: cs => separatedAfter c cs

/-- Whether every underscore of a word stands between two hexadecimal digits. -/
def separated (word : List Char) : Bool := separatedAfter '_' word

/-! ## Integers -/

/-- The integer of a word in a base, underscores left out, if there is one and it fits 128 bits. -/
def integerOf (negative : Bool) (base : Nat) (isDigit : Char → Bool) (word : List Char) : Toml :=
  let digits := word.filter (· ≠ '_')
  let n : Int := ofDigits base digits
  let n := if negative then -n else n
  if digits ≠ [] ∧ digits.all isDigit ∧ -(Nat.pow 2 127 : Int) ≤ n ∧ n < Nat.pow 2 128 then
    .integer n
  else .numeral

/-- A word of digits in a base, after the letter for the base. -/
def based (base : Nat) (isDigit : Char → Bool) (word : List Char) : Option Toml :=
  if word.all (fun c => isDigit c || c == '_') && separated word then
    some (integerOf false base isDigit word)
  else none

/-- A decimal word after its sign. Only zero itself may begin with a zero. After an underscore
nothing but the places of underscores and the absence of blanks is looked at. -/
def integer? (negative : Bool) (word : List Char) : Option Toml :=
  let rest := word.dropWhile Char.isDigit
  if (word.head?.any Char.isDigit) && (rest.isEmpty || rest.head? == some '_')
      && !(word.head? == some '0' && 1 < word.length) && !word.contains ' ' && separated word then
    some (integerOf negative 10 Char.isDigit word)
  else none

/-! ## Floats -/

/-- The magnitude nearest to `digits * 10 ^ exponent`, unless that is infinite. -/
def magnitude? (digits : Nat) (exponent : Int) : Option Nat :=
  let size : Int := (Nat.toDigits 10 digits).length + exponent
  if digits = 0 ∨ size < -330 then some 0
  else if 330 < size then none
  else
    let m := Double.nearest (digits * Nat.pow 10 exponent.toNat) (Nat.pow 10 (-exponent).toNat)
    if m = Double.infinite then none else some m

/-- The exponent of a float, from the letter on. -/
def exponent? : List Char → Option Int
  | [] => some 0
  | e :: cs =>
    if e = 'e' ∨ e = 'E' then
      let (negative, cs) := match cs with
        | '-' :: cs => (true, cs)
        | '+' :: cs => (false, cs)
        | cs => (false, cs)
      match grouped Char.isDigit cs with
      | some (digits, []) =>
        let n : Int := ofDigits 10 digits
        some (if negative then -n else n)
      | _ => none
    else none

/-- The float of a sign, the digits before and after the point, and an exponent. -/
def floatOf (negative : Bool) (whole fraction : List Char) (exponent : Int) : Toml :=
  match magnitude? (ofDigits 10 (whole ++ fraction)) (exponent - fraction.length) with
  | some m => .float (.ofMagnitude negative m)
  | none => .numeral

/-- A decimal word with a point or an exponent, after its sign. -/
def float? (negative : Bool) (word : List Char) : Option Toml := do
  let (whole, rest) ← grouped Char.isDigit word
  if whole.head? = some '0' ∧ 1 < whole.length then none
  match rest with
  | '.' :: rest =>
    let (fraction, rest) ← grouped Char.isDigit rest
    return floatOf negative whole fraction (← exponent? rest)
  | rest => return floatOf negative whole [] (← exponent? rest)

/-- A number after its sign. -/
def signed? (negative : Bool) (word : List Char) : Option Toml :=
  if word = ['i', 'n', 'f'] then some (.float (.ofMagnitude negative Double.infinite))
  else if word = ['n', 'a', 'n'] then
    some (.float (.ofMagnitude negative (Double.infinite + Nat.pow 2 51)))
  else if word.any (fun c => c == '.' || c == 'e' || c == 'E') then float? negative word
  else integer? negative word

/-! ## Dates and times -/

/-- A number of exactly `n` digits, and the rest of the word. -/
def fixedDigits (n : Nat) (cs : List Char) : Option (Nat × List Char) :=
  let digits := cs.take n
  if digits.length = n ∧ digits.all Char.isDigit then some (ofDigits 10 digits, cs.drop n)
  else none

/-- The rest of the word after a character. -/
def after (c : Char) (cs : List Char) : Option (List Char) :=
  if cs.head? = some c then some (cs.drop 1) else none

def daysIn (year month : Nat) : Nat :=
  if month = 2 then
    if year % 4 = 0 ∧ (year % 100 ≠ 0 ∨ year % 400 = 0) then 29 else 28
  else if month = 4 ∨ month = 6 ∨ month = 9 ∨ month = 11 then 30 else 31

/-- Passes a date. -/
def date? (cs : List Char) : Option (List Char) := do
  let (year, cs) ← fixedDigits 4 cs
  let (month, cs) ← fixedDigits 2 (← after '-' cs)
  let (day, cs) ← fixedDigits 2 (← after '-' cs)
  if 1 ≤ month ∧ month ≤ 12 ∧ 1 ≤ day ∧ day ≤ daysIn year month then some cs else none

/-- Passes a time of day. Seconds may be left out, and may have a fraction. -/
def time? (cs : List Char) : Option (List Char) := do
  let (hour, cs) ← fixedDigits 2 cs
  let (minute, cs) ← fixedDigits 2 (← after ':' cs)
  if 23 < hour ∨ 59 < minute then none
  match cs with
  | ':' :: cs =>
    let (second, cs) ← fixedDigits 2 cs
    if 60 < second then none
    match cs with
    | '.' :: d :: cs => if d.isDigit then some (cs.dropWhile Char.isDigit) else none
    | cs => some cs
  | cs => some cs

/-- Whether what follows a time is an offset or nothing. -/
def isOffset (cs : List Char) : Bool :=
  cs.isEmpty || cs == ['Z'] || cs == ['z'] ||
    match cs with
    | sign :: cs => (sign == '+' || sign == '-') &&
      ((do
        let (hour, cs) ← fixedDigits 2 cs
        let (minute, cs) ← fixedDigits 2 (← after ':' cs)
        return cs.isEmpty && hour ≤ 23 && minute ≤ 59).getD false)
    | [] => false

/-- Whether a word is a date, a time, or a date with a time. Only the last has an offset. -/
def isDatetime (word : List Char) : Bool :=
  match date? word with
  | some [] => true
  | some (t :: rest) =>
    (t == 'T' || t == 't' || t == ' ') && ((time? rest).map isOffset).getD false
  | none => time? word == some []

/-! ## Words -/

/-- The value of an unquoted word. -/
def scalar? (word : List Char) : Option Toml :=
  if word = ['t', 'r', 'u', 'e'] then some (.boolean true)
  else if word = ['f', 'a', 'l', 's', 'e'] then some (.boolean false)
  else if isDatetime word then some .datetime
  else match word with
    | '0' :: 'x' :: digits => based 16 isHexDigit digits
    | '0' :: 'o' :: digits => based 8 (fun c => '0' ≤ c && c ≤ '7') digits
    | '0' :: 'b' :: digits => based 2 (fun c => c == '0' || c == '1') digits
    | '+' :: word => signed? false word
    | '-' :: word => signed? true word
    | word => signed? false word

end SqlBuilder.Toml
