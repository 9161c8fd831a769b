import Mathlib.Tactic.SplitIfs
import SqlBuilder.Proofs.Json.Reading

/-!
# Numbers and the texts they are given

Numbers are read as far as they go. `gives_number`: a text that is read to its end as a number is
read as the same number in front of anything that ends it. So it is enough to know what the text of
a number is read as on its own.

An integer of 64 bits is read back from its digits (`outcome_number_toString`). For a float that
depends on rounding, which reading does in several steps. What holds of every float is that its text
looks like a number (`looksNumeric_text`) and is not read as an integer (`not_integer_of_text`).
-/

namespace SqlBuilder.Json

variable {bound s n : Nat} {c : Char} {cs rest left : List Char} {negative : Bool} {j : Json}

open Reader (Ends)

/-! ## What may follow a number -/

theorem Reader.Ends.cases (h : Ends rest) : rest = [] ∨ ∃ cs,
    rest = ',' :: cs ∨ rest = ']' :: cs ∨ rest = '}' :: cs ∨ rest = ':' :: cs := by
  cases rest with
  | nil => exact .inl rfl
  | cons c cs =>
    refine .inr ⟨cs, ?_⟩
    have hmem := h c rfl
    simp only [List.mem_cons, List.not_mem_nil, or_false] at hmem
    simpa using hmem

/-! ## Digits -/

theorem takeDigits_append (hends : Ends rest) (bound s : Nat) (cs : List Char) :
    takeDigits bound s (cs ++ rest) =
      ((takeDigits bound s cs).1, (takeDigits bound s cs).2.1,
        (takeDigits bound s cs).2.2 ++ rest) := by
  induction cs generalizing s with
  | nil =>
    rcases hends.cases with rfl | ⟨cs, rfl | rfl | rfl | rfl⟩ <;> rfl
  | cons c cs ih =>
    rw [List.cons_append, takeDigits, takeDigits]
    cases digit? c with
    | none => rfl
    | some d =>
      dsimp only
      split_ifs
      · rw [ih]
      · rfl

theorem skipDigits_append (hends : Ends rest) (cs : List Char) :
    skipDigits (cs ++ rest) = skipDigits cs ++ rest := by
  unfold skipDigits
  rw [List.dropWhile_append]
  split_ifs with hall
  · rw [List.isEmpty_iff.mp hall]
    rcases hends.cases with rfl | ⟨cs, rfl | rfl | rfl | rfl⟩ <;> rfl
  · rfl

theorem head?_append (hends : Ends rest) (cs : List Char) :
    (cs ++ rest).head?.bind digit? = cs.head?.bind digit? := by
  cases cs with
  | nil => rcases hends.cases with rfl | ⟨cs, rfl | rfl | rfl | rfl⟩ <;> rfl
  | cons c cs => rfl

/-! ## In front of an end -/

/-- A result with more text left. -/
def leaving (rest : List Char) : Option (Json × List Char) → Option (Json × List Char) :=
  Option.map fun (j, left) => (j, left ++ rest)

/-- The sign of an exponent, and the rest. -/
def exponentSign : List Char → Bool × List Char
  | '+' :: cs => (false, cs)
  | '-' :: cs => (true, cs)
  | cs => (false, cs)

/-- The rest of a number from the digits of its exponent on. -/
def exponentDigits (negative : Bool) (significand : Nat) (shift : Int) (down : Bool)
    (cs : List Char) : Option (Json × List Char) := do
  let _ ← cs.head?.bind digit?
  let (e, _, rest) := takeDigits (Nat.pow 2 31) 0 cs
  if (rest.head?.bind digit?).isSome then
    if significand ≠ 0 ∧ !down then none
    else return (.real (.ofMagnitude negative 0), skipDigits rest)
  else
    let e : Int := if down then -e else e
    return (← realOf negative significand (clampExponent (shift + e)), rest)

/-- What comes after digits: an exponent, or the end of the number. -/
def afterDigits (onExponent onEnd : List Char → Option (Json × List Char)) :
    List Char → Option (Json × List Char)
  | 'e' :: rest | 'E' :: rest => onExponent rest
  | rest => onEnd rest

/-- What comes after the digits of a whole number: a fraction, or what may come after digits. -/
def afterWhole (onPoint onExponent onEnd : List Char → Option (Json × List Char)) :
    List Char → Option (Json × List Char)
  | '.' :: rest => onPoint rest
  | 'e' :: rest | 'E' :: rest => onExponent rest
  | rest => onEnd rest

theorem readExponent_eq (negative : Bool) (significand : Nat) (shift : Int) (cs : List Char) :
    readExponent negative significand shift cs =
      exponentDigits negative significand shift (exponentSign cs).1 (exponentSign cs).2 := rfl

theorem readFraction_eq (negative : Bool) (significand : Nat) (shift : Int) (cs : List Char) :
    readFraction negative significand shift cs = (do
      let _ ← cs.head?.bind digit?
      let (s, n, rest) := takeDigits (Nat.pow 2 64) significand cs
      afterDigits (readExponent negative s (shift - n))
        (fun left => do return (← realOf negative s (shift - n), left)) (skipDigits rest)) := rfl

/-- The rest of a number after the digits that its significand has room for. -/
def afterSignificand (negative : Bool) (significand : Nat) (rest : List Char) :
    Option (Json × List Char) :=
  let shift : Int := rest.length - (skipDigits rest).length
  afterWhole (readFraction negative significand shift) (readExponent negative significand shift)
    (fun left => if 0 < shift then do return (← realOf negative significand shift, left)
      else return (integerOf negative significand, left)) (skipDigits rest)

theorem readNumber_eq (negative : Bool) (cs : List Char) :
    readNumber negative cs = (do
      let first ← cs.head?.bind digit?
      let (s, n, rest) := takeDigits (Nat.pow 2 64) 0 cs
      if first = 0 ∧ 1 < n then none else afterSignificand negative s rest) := by
  unfold readNumber
  cases cs.head?.bind digit? with
  | none => rfl
  | some first =>
    simp only [Option.bind_eq_bind, Option.bind_some]
    by_cases hzero : first = 0 ∧ 1 < (takeDigits (Nat.pow 2 64) 0 cs).2.1
    · rw [if_pos hzero, if_pos hzero]
      rfl
    · rw [if_neg hzero, if_neg hzero]
      rfl

theorem exponentSign_append (hends : Ends rest) (cs : List Char) :
    exponentSign (cs ++ rest) = ((exponentSign cs).1, (exponentSign cs).2 ++ rest) := by
  cases cs with
  | nil => rcases hends.cases with rfl | ⟨cs, rfl | rfl | rfl | rfl⟩ <;> rfl
  | cons c cs =>
    by_cases hplus : c = '+'
    · subst hplus
      rfl
    by_cases hminus : c = '-'
    · subst hminus
      rfl
    have hnone (u : List Char) : exponentSign (c :: u) = (false, c :: u) := by
      unfold exponentSign
      split <;> simp_all
    rw [List.cons_append, hnone, hnone, List.cons_append]

theorem afterDigits_append {onExponent onEnd : List Char → Option (Json × List Char)}
    (hends : Ends rest)
    (hexponent : ∀ cs, onExponent (cs ++ rest) = leaving rest (onExponent cs))
    (hend : ∀ cs, onEnd (cs ++ rest) = leaving rest (onEnd cs)) (cs : List Char) :
    afterDigits onExponent onEnd (cs ++ rest) = leaving rest (afterDigits onExponent onEnd cs) := by
  cases cs with
  | nil => rcases hends.cases with rfl | ⟨cs, rfl | rfl | rfl | rfl⟩ <;> exact hend []
  | cons c cs =>
    by_cases he : c = 'e'
    · subst he
      exact hexponent cs
    by_cases hE : c = 'E'
    · subst hE
      exact hexponent cs
    have hnone (u : List Char) : afterDigits onExponent onEnd (c :: u) = onEnd (c :: u) := by
      unfold afterDigits
      split <;> simp_all
    rw [List.cons_append, hnone, hnone]
    exact hend (c :: cs)

theorem afterWhole_append {onPoint onExponent onEnd : List Char → Option (Json × List Char)}
    (hends : Ends rest) (hpoint : ∀ cs, onPoint (cs ++ rest) = leaving rest (onPoint cs))
    (hexponent : ∀ cs, onExponent (cs ++ rest) = leaving rest (onExponent cs))
    (hend : ∀ cs, onEnd (cs ++ rest) = leaving rest (onEnd cs)) (cs : List Char) :
    afterWhole onPoint onExponent onEnd (cs ++ rest) =
      leaving rest (afterWhole onPoint onExponent onEnd cs) := by
  by_cases hdot : ∃ u, cs = '.' :: u
  · obtain ⟨u, rfl⟩ := hdot
    exact hpoint u
  · have hnone (u : List Char) (hu : ∀ v, u ≠ '.' :: v) :
        afterWhole onPoint onExponent onEnd u = afterDigits onExponent onEnd u := by
      unfold afterWhole
      split <;> simp_all [afterDigits]
    rw [hnone, hnone cs fun v h => hdot ⟨v, h⟩, afterDigits_append hends hexponent hend]
    intro v h
    cases cs with
    | nil => rcases hends.cases with rfl | ⟨cs, rfl | rfl | rfl | rfl⟩ <;> exact nomatch h
    | cons c cs => exact hdot ⟨cs, by rw [(List.cons.inj h).1]⟩

theorem exponentDigits_append (hends : Ends rest) (negative : Bool) (significand : Nat)
    (shift : Int) (down : Bool) (cs : List Char) :
    exponentDigits negative significand shift down (cs ++ rest) =
      leaving rest (exponentDigits negative significand shift down cs) := by
  unfold exponentDigits
  rw [head?_append hends, takeDigits_append hends]
  cases cs.head?.bind digit? with
  | none => rfl
  | some d =>
    simp only [Option.bind_eq_bind, Option.bind_some, head?_append hends, skipDigits_append hends]
    split_ifs
    · rfl
    · rfl
    all_goals cases realOf negative significand _ <;> rfl

theorem readExponent_append (hends : Ends rest) (negative : Bool) (significand : Nat) (shift : Int)
    (cs : List Char) : readExponent negative significand shift (cs ++ rest) =
      leaving rest (readExponent negative significand shift cs) := by
  rw [readExponent_eq, readExponent_eq, exponentSign_append hends, exponentDigits_append hends]

theorem readFraction_append (hends : Ends rest) (negative : Bool) (significand : Nat) (shift : Int)
    (cs : List Char) : readFraction negative significand shift (cs ++ rest) =
      leaving rest (readFraction negative significand shift cs) := by
  rw [readFraction_eq, readFraction_eq, head?_append hends, takeDigits_append hends]
  cases cs.head?.bind digit? with
  | none => rfl
  | some d =>
    simp only [Option.bind_eq_bind, Option.bind_some, skipDigits_append hends]
    refine afterDigits_append hends (fun u => readExponent_append hends _ _ _ u) (fun left => ?_) _
    cases realOf negative _ _ <;> rfl

theorem afterSignificand_append (hends : Ends rest) (negative : Bool) (significand : Nat)
    (cs : List Char) : afterSignificand negative significand (cs ++ rest) =
      leaving rest (afterSignificand negative significand cs) := by
  have hshift : ((cs ++ rest).length : Int) - (skipDigits cs ++ rest).length =
      cs.length - (skipDigits cs).length := by
    simp only [List.length_append]
    omega
  unfold afterSignificand
  rw [skipDigits_append hends, hshift]
  refine afterWhole_append hends (fun u => readFraction_append hends _ _ _ u)
    (fun u => readExponent_append hends _ _ _ u) (fun u => ?_) _
  split_ifs
  · cases realOf negative significand _ <;> rfl
  · rfl

/-- **A number is read alike in front of an end.** -/
theorem readNumber_append (hends : Ends rest) (negative : Bool) (cs : List Char) :
    readNumber negative (cs ++ rest) = leaving rest (readNumber negative cs) := by
  rw [readNumber_eq, readNumber_eq, head?_append hends, takeDigits_append hends]
  cases cs.head?.bind digit? with
  | none => rfl
  | some first =>
    simp only [Option.bind_eq_bind, Option.bind_some]
    split_ifs with hzero
    · rfl
    · exact afterSignificand_append hends _ _ _

/-! ## Integers -/

theorem le_ofDigitChars (cs : List Char) (s : Nat) : s ≤ Nat.ofDigitChars 10 cs s := by
  rw [Nat.ofDigitChars_eq_ofDigitChars_zero]
  have := Nat.le_mul_of_pos_left s (Nat.pow_pos (n := cs.length) (show 0 < 10 by decide))
  omega

/-- Digits whose number stays below the bound are all taken. -/
theorem takeDigits_of_lt (hdigits : ∀ c ∈ cs, c.isDigit = true)
    (h : Nat.ofDigitChars 10 cs s < bound) :
    takeDigits bound s cs = (Nat.ofDigitChars 10 cs s, cs.length, []) := by
  induction cs generalizing s with
  | nil => rfl
  | cons c cs ih =>
    obtain ⟨hc, hcs⟩ := List.forall_mem_cons.mp hdigits
    have hd : digit? c = some (c.toNat - '0'.toNat) := by rw [digit?, if_pos hc]
    rw [Nat.ofDigitChars_cons, Nat.mul_comm 10 s] at h ⊢
    have hlt := Nat.lt_of_le_of_lt (le_ofDigitChars cs (s * 10 + (c.toNat - '0'.toNat))) h
    rw [takeDigits, hd]
    dsimp only
    rw [if_pos hlt, ih hcs h]
    rfl

/-- Only the digits of zero begin with a zero. -/
theorem head?_toDigits (n : Nat) :
    ∃ d, (Nat.toDigits 10 n).head?.bind digit? = some d ∧ (d = 0 → n = 0) := by
  induction n using Nat.strongRecOn with
  | ind n ih =>
    by_cases hlt : n < 10
    · have hdigit : ∀ m < 10, digit? (Nat.digitChar m) = some m := by decide
      rw [Nat.toDigits_of_lt_base hlt]
      exact ⟨n, hdigit n hlt, id⟩
    · obtain ⟨d, hd, hzero⟩ := ih (n / 10) (by omega)
      obtain ⟨c, cs, hcs⟩ :=
        List.exists_cons_of_ne_nil (Nat.toDigits_ne_nil (n := n / 10) (b := 10))
      refine ⟨d, ?_, fun h => absurd (hzero h) (by omega)⟩
      rw [Nat.toDigits_of_base_le (by decide) (by omega), hcs]
      rw [hcs] at hd
      exact hd

/-- **The digits of an integer are read back.** -/
theorem readNumber_toDigits (negative : Bool) (h : n < Nat.pow 2 64) :
    readNumber negative (Nat.toDigits 10 n) = some (integerOf negative n, []) := by
  have hdigits : ∀ c ∈ Nat.toDigits 10 n, c.isDigit = true := fun c hc =>
    Nat.isDigit_of_mem_toDigits (by decide) (by decide) hc
  obtain ⟨d, hd, hzero⟩ := head?_toDigits n
  have hshort : ¬ (d = 0 ∧ 1 < (Nat.toDigits 10 n).length) := by
    rintro ⟨h0, hlong⟩
    rw [hzero h0, Nat.toDigits_zero] at hlong
    exact absurd hlong (by decide)
  rw [readNumber_eq, hd, takeDigits_of_lt hdigits (by rwa [Nat.ofDigitChars_ten_toDigits]),
    Nat.ofDigitChars_ten_toDigits]
  simp only [Option.bind_eq_bind, Option.bind_some, if_neg hshort]
  rfl

/-! ## Whole numbers -/

theorem takeDigits_digits (bound s : Nat) (cs : List Char) :
    ∃ digits, (∀ c ∈ digits, c.isDigit = true) ∧ cs = digits ++ (takeDigits bound s cs).2.2 := by
  induction cs generalizing s with
  | nil => exact ⟨[], nofun, rfl⟩
  | cons c cs ih =>
    rw [takeDigits]
    cases hc : digit? c with
    | none => exact ⟨[], nofun, rfl⟩
    | some d =>
      dsimp only
      split_ifs
      · obtain ⟨digits, hdigits, hcs⟩ := ih (s * 10 + d)
        have hdigit : c.isDigit = true := by
          by_cases h : c.isDigit = true
          · exact h
          · rw [digit?, if_neg h] at hc
            contradiction
        exact ⟨c :: digits, List.forall_mem_cons.mpr ⟨hdigit, hdigits⟩, congrArg (c :: ·) hcs⟩
      · exact ⟨[], nofun, rfl⟩

theorem realOf_real {significand : Nat} {exponent : Int}
    (h : (do return (← realOf negative significand exponent, cs)) = some (j, left)) :
    ∃ x, j = .real x := by
  obtain ⟨k, hk, h⟩ := Option.bind_eq_some_iff.mp h
  obtain ⟨m, -, rfl⟩ := Option.map_eq_some_iff.mp hk
  exact ⟨_, (Prod.mk.inj (Option.some.inj h)).1.symm⟩

theorem readExponent_real {significand : Nat} {shift : Int}
    (h : readExponent negative significand shift cs = some (j, left)) : ∃ x, j = .real x := by
  rw [readExponent_eq] at h
  unfold exponentDigits at h
  simp only [Option.bind_eq_bind, Option.bind_eq_some_iff] at h
  obtain ⟨-, -, h⟩ := h
  split_ifs at h
  · exact ⟨_, (Prod.mk.inj (Option.some.inj h)).1.symm⟩
  · exact realOf_real h
  · exact realOf_real h

theorem readFraction_real {significand : Nat} {shift : Int}
    (h : readFraction negative significand shift cs = some (j, left)) : ∃ x, j = .real x := by
  rw [readFraction_eq] at h
  simp only [Option.bind_eq_bind, Option.bind_eq_some_iff] at h
  obtain ⟨-, -, h⟩ := h
  unfold afterDigits at h
  split at h
  · exact readExponent_real h
  · exact readExponent_real h
  · exact realOf_real h

/-- **Only digits are read as an integer.** A fraction or an exponent makes the number a float. -/
theorem readNumber_integer {n : Int} (h : readNumber negative cs = some (.integer n, left)) :
    ∃ digits, (∀ c ∈ digits, c.isDigit = true) ∧ cs = digits ++ left := by
  obtain ⟨taken, htaken, hcs⟩ := takeDigits_digits (Nat.pow 2 64) 0 cs
  rw [readNumber_eq] at h
  simp only [Option.bind_eq_bind, Option.bind_eq_some_iff] at h
  obtain ⟨first, -, h⟩ := h
  split_ifs at h
  have hskipped := List.takeWhile_append_dropWhile (p := Char.isDigit)
    (l := (takeDigits (Nat.pow 2 64) 0 cs).2.2)
  unfold afterSignificand afterWhole at h
  split at h
  · obtain ⟨x, hx⟩ := readFraction_real h
    contradiction
  · obtain ⟨x, hx⟩ := readExponent_real h
    contradiction
  · obtain ⟨x, hx⟩ := readExponent_real h
    contradiction
  · dsimp only at h
    split_ifs at h
    · obtain ⟨x, hx⟩ := realOf_real h
      contradiction
    · obtain ⟨-, hleft⟩ := Prod.mk.inj (Option.some.inj h)
      refine ⟨taken ++ List.takeWhile Char.isDigit (takeDigits (Nat.pow 2 64) 0 cs).2.2, ?_, ?_⟩
      · intro c hc
        rcases List.mem_append.mp hc with hc | hc
        · exact htaken c hc
        · exact List.all_eq_true.mp List.all_takeWhile c hc
      · rw [← hleft, List.append_assoc, skipDigits, hskipped]
        exact hcs

/-! ## Numbers in a text -/

namespace Reader

/-- A number from its sign on. -/
def signedNumber : List Char → Option (Json × List Char)
  | '-' :: cs => readNumber true cs
  | cs => readNumber false cs

theorem number_eq : number = (do
    modify (List.dropWhile isSpace)
    lift signedNumber) := rfl

theorem outcome_number_iff :
    outcome number cs = .ok (j, left) ↔ signedNumber (cs.dropWhile isSpace) = some (j, left) := by
  have hdrop : outcome (modify (List.dropWhile isSpace)) cs = .ok ((), cs.dropWhile isSpace) := rfl
  rw [number_eq, outcome_bind_ok hdrop, outcome_lift_iff]

theorem signedNumber_append (hends : Ends rest) (cs : List Char) :
    signedNumber (cs ++ rest) = leaving rest (signedNumber cs) := by
  cases cs with
  | nil =>
    have hnone := readNumber_append hends false []
    rcases hends.cases with rfl | ⟨cs, rfl | rfl | rfl | rfl⟩ <;> exact hnone
  | cons c cs =>
    by_cases hminus : c = '-'
    · subst hminus
      exact readNumber_append hends true cs
    have hsign (u : List Char) : signedNumber (c :: u) = readNumber false (c :: u) := by
      unfold signedNumber
      split <;> simp_all
    rw [List.cons_append, hsign, hsign]
    exact readNumber_append hends false (c :: cs)

theorem dropSpace_append (hends : Ends rest) (cs : List Char) :
    (cs ++ rest).dropWhile isSpace = cs.dropWhile isSpace ++ rest := by
  rw [List.dropWhile_append]
  split_ifs with hall
  · rw [List.isEmpty_iff.mp hall]
    rcases hends.cases with rfl | ⟨cs, rfl | rfl | rfl | rfl⟩ <;> rfl
  · rfl

/-- **The text of a number is read in front of an end as it is on its own.** -/
theorem gives_number (h : outcome number cs = .ok (j, [])) : Gives number cs (.ok j) := by
  intro rest hends
  refine outcome_number_iff.mpr ?_
  rw [dropSpace_append hends, signedNumber_append hends, outcome_number_iff.mp h]
  rfl

/-- What is read as an integer has no point and no exponent. -/
theorem not_mark_of_integer {n : Int} (h : outcome number cs = .ok (.integer n, [])) :
    ∀ c ∈ cs, c ≠ '.' ∧ c ≠ 'e' := by
  have hdigit (c : Char) (hc : c.isDigit = true) : c ≠ '.' ∧ c ≠ 'e' := by
    constructor <;> rintro rfl <;> exact absurd hc (by decide)
  have hread {negative : Bool} {u : List Char}
      (hu : readNumber negative u = some (.integer n, [])) : ∀ c ∈ u, c ≠ '.' ∧ c ≠ 'e' := by
    obtain ⟨digits, hdigits, rfl⟩ := readNumber_integer hu
    rw [List.append_nil]
    exact fun c hc => hdigit c (hdigits c hc)
  have hsigned : ∀ c ∈ cs.dropWhile isSpace, c ≠ '.' ∧ c ≠ 'e' := by
    have hnumber := outcome_number_iff.mp h
    unfold signedNumber at hnumber
    split at hnumber
    · rename_i u hu
      rw [hu]
      exact List.forall_mem_cons.mpr ⟨by decide, hread hnumber⟩
    · exact hread hnumber
  intro c hc
  rw [← List.takeWhile_append_dropWhile (p := isSpace) (l := cs)] at hc
  rcases List.mem_append.mp hc with hspace | hrest
  · have := List.all_eq_true.mp List.all_takeWhile c hspace
    constructor <;> rintro rfl <;> exact absurd this (by decide)
  · exact hsigned c hrest

theorem isSpace_of_isDigit (h : c.isDigit = true) : isSpace c = false := by
  have hne (d : Char) (hd : d.isDigit = false) : c ≠ d := by
    rintro rfl
    exact Bool.eq_false_iff.mp hd h
  simp [isSpace, hne ' ' rfl, hne '\n' rfl, hne '\t' rfl, hne '\r' rfl]

theorem signedNumber_digit (h : c.isDigit = true) (cs : List Char) :
    signedNumber ((c :: cs).dropWhile isSpace) = readNumber false (c :: cs) := by
  have hdrop : (c :: cs).dropWhile isSpace = c :: cs := by simp [isSpace_of_isDigit h]
  rw [hdrop]
  unfold signedNumber
  split
  · rename_i heq
    rw [(List.cons.inj heq).1] at h
    exact absurd h (by decide)
  · rfl

theorem toList_repr (n : Nat) : (Nat.repr n).toList = Nat.toDigits 10 n := by
  rw [Nat.repr_eq_ofList_toDigits, String.toList_ofList]

theorem exists_toDigits (n : Nat) :
    ∃ c cs, Nat.toDigits 10 n = c :: cs ∧ c.isDigit = true := by
  obtain ⟨c, cs, hcs⟩ := List.exists_cons_of_ne_nil (Nat.toDigits_ne_nil (n := n) (b := 10))
  refine ⟨c, cs, hcs, Nat.isDigit_of_mem_toDigits (b := 10) (n := n) (by decide) (by decide) ?_⟩
  rw [hcs]
  exact List.mem_cons_self

/-- **An integer of 64 bits is read back.** -/
theorem outcome_number_toString {n : Int} (hlow : -(Nat.pow 2 63 : Int) ≤ n)
    (hhigh : n < Nat.pow 2 64) : outcome number (toString n).toList = .ok (.integer n, []) := by
  rw [outcome_number_iff]
  cases n with
  | ofNat n =>
    obtain ⟨c, cs, hcs, hdigit⟩ := exists_toDigits n
    show signedNumber ((Nat.repr n).toList.dropWhile isSpace) = _
    rw [toList_repr, hcs, signedNumber_digit hdigit, ← hcs]
    exact readNumber_toDigits false (Int.ofNat_lt.mp hhigh)
  | negSucc n =>
    show signedNumber (("-" ++ Nat.repr (n + 1)).toList.dropWhile isSpace) = _
    rw [String.toList_append, toList_repr]
    have hn : n + 1 ≤ Nat.pow 2 63 := by omega
    have hinteger : integerOf true (n + 1) = .integer (Int.negSucc n) := by
      unfold integerOf
      rw [if_neg (by decide), if_pos ⟨by omega, hn⟩]
      rfl
    show readNumber true (Nat.toDigits 10 (n + 1)) = _
    rw [readNumber_toDigits true (Nat.lt_of_le_of_lt hn (by decide)), hinteger]

/-! ## How the text of a number begins -/

/-- The text begins with a minus sign or a digit, as only numbers do. -/
def LooksNumeric (text : List Char) : Prop := ∃ c cs, text = c :: cs ∧ (c = '-' ∨ c.isDigit = true)

theorem LooksNumeric.begins (h : LooksNumeric cs) : Begins cs := by
  obtain ⟨c, cs, rfl, rfl | hdigit⟩ := h
  · exact ⟨'-', cs, rfl, rfl, by decide⟩
  · refine ⟨c, cs, rfl, isSpace_of_isDigit hdigit, ?_⟩
    rintro rfl
    exact absurd hdigit (by decide)

theorem LooksNumeric.append (h : LooksNumeric cs) (rest : List Char) :
    LooksNumeric (cs ++ rest) := by
  obtain ⟨c, cs, rfl, hc⟩ := h
  exact ⟨c, cs ++ rest, rfl, hc⟩

theorem outcome_treeOf_number {fuel depth : Nat} (h : LooksNumeric cs) :
    outcome (treeOf (fuel + 1) depth) cs = outcome number cs := by
  obtain ⟨c, cs, rfl, hc⟩ := h
  have hspace : isSpace c = false := by
    rcases hc with rfl | hdigit
    · rfl
    · exact isSpace_of_isDigit hdigit
  have hne (d : Char) (hd : d ≠ '-') (hdigit : d.isDigit = false) : some c ≠ some d := by
    intro h
    obtain rfl := Option.some.inj h
    exact hc.elim hd (Bool.eq_false_iff.mp hdigit)
  unfold treeOf
  rw [outcome_bind_ok (outcome_peek hspace cs)]
  split
  · exact absurd ‹_› (hne 'n' (by decide) rfl)
  · exact absurd ‹_› (hne 't' (by decide) rfl)
  · exact absurd ‹_› (hne 'f' (by decide) rfl)
  · exact absurd ‹_› (hne '"' (by decide) rfl)
  · exact absurd ‹_› (hne '[' (by decide) rfl)
  · exact absurd ‹_› (hne '\x7b' (by decide) rfl)
  · rfl
  · contradiction

theorem looksNumeric_toString (n : Int) : LooksNumeric (toString n).toList := by
  cases n with
  | ofNat n =>
    obtain ⟨c, cs, hcs, hdigit⟩ := exists_toDigits n
    exact ⟨c, cs, (toList_repr n).trans hcs, .inr hdigit⟩
  | negSucc n =>
    show LooksNumeric ("-" ++ Nat.repr (n + 1)).toList
    rw [String.toList_append]
    exact ⟨'-', _, rfl, .inl rfl⟩

theorem looksNumeric_positionalText (wholeFraction : Bool) (n : Nat) (exponent : Int) :
    LooksNumeric (Double.positionalText wholeFraction (Nat.toDigits 10 n) exponent) := by
  obtain ⟨c, cs, hcs, hdigit⟩ := exists_toDigits n
  unfold Double.positionalText
  rw [hcs]
  dsimp only
  split_ifs with hwhole hpoint
  · exact ⟨c, _, rfl, .inr hdigit⟩
  · exact ⟨c, _, rfl, .inr hdigit⟩
  · obtain ⟨k, hk⟩ : ∃ k, (((c :: cs).length : Int) + exponent).toNat = k + 1 :=
      ⟨_, (Nat.succ_pred_eq_of_pos (by omega)).symm⟩
    rw [hk]
    exact ⟨c, _, rfl, .inr hdigit⟩
  · exact ⟨'0', _, rfl, .inr rfl⟩

theorem looksNumeric_scientificText (n : Nat) (exponent : Int) :
    LooksNumeric (Double.scientificText (Nat.toDigits 10 n) exponent) := by
  obtain ⟨c, cs, hcs, hdigit⟩ := exists_toDigits n
  unfold Double.scientificText
  rw [hcs]
  exact ⟨c, _, rfl, .inr hdigit⟩

/-- The text of a float looks like a number in every layout. -/
theorem looksNumeric_text (layout : Double.Layout) (x : Double) :
    LooksNumeric (layout.text x).toList := by
  unfold Double.Layout.text
  rw [String.toList_ofList]
  split_ifs
  · exact ⟨'-', _, rfl, .inl rfl⟩
  · rw [List.nil_append]
    unfold Double.Layout.magnitudeText
    dsimp only
    split_ifs
    · exact looksNumeric_positionalText _ _ _
    · exact looksNumeric_scientificText _ _

theorem point_mem_positionalText (digits : List Char) (exponent : Int) :
    '.' ∈ Double.positionalText true digits exponent := by
  unfold Double.positionalText
  rw [if_pos rfl]
  dsimp only
  split_ifs <;> simp

/-- A layout that writes whole numbers with a fraction has a point or an exponent in every text. -/
theorem mark_mem_text (layout : Double.Layout) (h : layout.wholeFraction = true) (x : Double) :
    '.' ∈ (layout.text x).toList ∨ 'e' ∈ (layout.text x).toList := by
  unfold Double.Layout.text
  rw [String.toList_ofList]
  suffices h : '.' ∈ layout.magnitudeText x.magnitude ∨ 'e' ∈ layout.magnitudeText x.magnitude from
    h.imp (List.mem_append_right _) (List.mem_append_right _)
  unfold Double.Layout.magnitudeText
  dsimp only
  split_ifs
  · left
    rw [h]
    exact point_mem_positionalText _ _
  · right
    unfold Double.scientificText
    simp

/-- **A float is not mistaken for an integer**, whatever its text is rounded to. -/
theorem not_integer_of_text {layout : Double.Layout} (h : layout.wholeFraction = true) {x : Double}
    {n : Int} : outcome number (layout.text x).toList ≠ .ok (.integer n, []) := by
  intro hread
  rcases mark_mem_text layout h x with hpoint | hexponent
  · exact (not_mark_of_integer hread _ hpoint).1 rfl
  · exact (not_mark_of_integer hread _ hexponent).2 rfl

end Reader

end SqlBuilder.Json
