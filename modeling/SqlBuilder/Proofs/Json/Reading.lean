import SqlBuilder.Json.Shape

/-!
# Readers and the texts they are given

`Gives r text out` says what a reader makes of a text wherever the text stands: whatever comes
after it, as long as that ends the text (`Ends`), the outcome is `out`, and a success leaves the
rest.
An end is needed for numbers, which are read as far as they go.

Readers are put together by `outcome_bind_ok` and `outcome_bind_error`, from the equations of the
single steps. `outcome_items` is the rule for an array: its items give the list of what the single
items give, or the error of the first one that fails. A record is read field by field
(`outcome_expectRecord`, `outcome_fields_first`, `outcome_fields_next`). Strings are read back from
their escaped text (`outcome_string`).
-/

namespace SqlBuilder.Json.Reader

variable {α β γ : Type} {r : Reader α} {f : α → Reader β} {a : α} {c : Char} {e : ReadError}
  {cs rest : List Char}

/-- What a reader makes of an input: a result and what is left of the input, or an error. -/
def outcome (r : Reader α) (cs : List Char) : Except ReadError (α × List Char) := StateT.run r cs

/-- What may come after a value: nothing, or a character that ends it. -/
def Ends (rest : List Char) : Prop := ∀ c ∈ rest.head?, c ∈ [',', ']', '}', ':']

/-- The outcome of a reader on a text, in front of anything that ends it. -/
def Gives (r : Reader α) (text : List Char) (out : Except ReadError α) : Prop :=
  ∀ rest, Ends rest → outcome r (text ++ rest) = out.map (·, rest)

theorem ends_nil : Ends [] := nofun

theorem ends_cons (h : c ∈ [',', ']', '}', ':']) (rest : List Char) : Ends (c :: rest) := by
  intro d hd
  obtain rfl := Option.some.inj hd
  exact h

/-! ## Steps -/

theorem outcome_bind_ok (h : outcome r cs = .ok (a, rest)) :
    outcome (r >>= f) cs = outcome (f a) rest := by
  unfold outcome at h ⊢
  rw [StateT.run_bind, h]
  rfl

theorem outcome_bind_error (h : outcome r cs = .error e) : outcome (r >>= f) cs = .error e := by
  unfold outcome at h ⊢
  rw [StateT.run_bind, h]
  rfl

/-- A reader that is refused on a condition, and what follows it otherwise. -/
theorem outcome_bind_ite {p : Prop} [Decidable p] {b : β} {left : List Char}
    (h : outcome r cs = Except.map (·, rest) (if p then .ok a else .error e))
    (hf : outcome (f a) rest = .ok (b, left)) :
    outcome (r >>= f) cs = Except.map (·, left) (if p then .ok b else .error e) := by
  by_cases hp : p
  · rw [if_pos hp] at h ⊢
    rw [outcome_bind_ok h, hf]
    rfl
  · rw [if_neg hp] at h ⊢
    exact outcome_bind_error h

/-- Only the outcome of the first reader matters to what follows. -/
theorem outcome_bind_congr {r' : Reader α} {cs' : List Char} (h : outcome r cs = outcome r' cs') :
    outcome (r >>= f) cs = outcome (r' >>= f) cs' := by
  unfold outcome at h ⊢
  rw [StateT.run_bind, StateT.run_bind, h]

theorem outcome_advance (c : Char) (cs : List Char) :
    outcome advance (c :: cs) = .ok ((), cs) := rfl

theorem outcome_fuel (cs : List Char) : outcome fuel cs = .ok (cs.length + 1, cs) := rfl

theorem outcome_peek (h : isSpace c = false) (cs : List Char) :
    outcome peek (c :: cs) = .ok (some c, c :: cs) := by
  have hdrop : (c :: cs).dropWhile isSpace = c :: cs := by simp [h]
  show Except.ok ((List.dropWhile isSpace (c :: cs)).head?, List.dropWhile isSpace (c :: cs)) = _
  rw [hdrop]
  rfl

theorem outcome_expect (h : isSpace c = false) (cs : List Char) :
    outcome (expect c) (c :: cs) = .ok ((), cs) := by
  rw [expect, outcome_bind_ok (outcome_peek h cs), if_pos (beq_self_eq_true _)]
  rfl

theorem outcome_lift_iff {read : List Char → Option (α × List Char)} :
    outcome (lift read) cs = .ok (a, rest) ↔ read cs = some (a, rest) := by
  rw [lift, outcome_bind_ok (show outcome get cs = .ok (cs, cs) from rfl)]
  cases read cs with
  | none => exact ⟨nofun, nofun⟩
  | some p =>
    constructor
    · exact fun h => congrArg some (Except.ok.inj h)
    · exact fun h => congrArg Except.ok (Option.some.inj h)

theorem outcome_word (letters : String) (rest : List Char) :
    outcome (word letters) (letters.toList ++ rest) = .ok ((), rest) := by
  refine outcome_lift_iff.mpr ?_
  rw [if_pos (List.isPrefixOf_iff_prefix.mpr (List.prefix_append _ _)), ← String.length_toList,
    List.drop_left]

/-! ## Strings -/

theorem hexDigit?_digitChar : ∀ n < 16, hexDigit? (Nat.digitChar n) = some n := by decide

/-- A control character is read from the four digits of its number. -/
theorem numberedEscape_control (h : c.toNat < 0x20) (cs : List Char) :
    numberedEscape ('0' :: '0' :: Nat.digitChar (c.toNat / 16) :: Nat.digitChar (c.toNat % 16) ::
      cs) = some (c, cs) := by
  have hhigh := hexDigit?_digitChar (c.toNat / 16) (by omega)
  have hlow := hexDigit?_digitChar (c.toNat % 16) (by omega)
  have hhex : hex4 ('0' :: '0' :: Nat.digitChar (c.toNat / 16) ::
      Nat.digitChar (c.toNat % 16) :: cs) = some (c.toNat, cs) := by
    rw [hex4, hhigh, hlow]
    have hzero : hexDigit? '0' = some 0 := rfl
    simp only [hzero, Option.bind_eq_bind, Option.bind_some, Option.pure_def]
    rw [show (0 * 16 + 0) * 256 + (c.toNat / 16 * 16 + c.toNat % 16) = c.toNat by omega]
  rw [numberedEscape, hhex]
  simp only [Option.bind_eq_bind, Option.bind_some, Option.pure_def]
  rw [if_neg (by omega), if_neg (by omega), Char.ofNat_toNat]

/-- How a character is escaped: by a letter, by its number, or not at all. -/
theorem escaped_cases (c : Char) :
    (∃ letter, letter ≠ 'u' ∧ simpleEscape? letter = some c ∧ escaped c = ['\\', letter]) ∨
    (c.toNat < 0x20 ∧ escaped c = ['\\', 'u', '0', '0', Nat.digitChar (c.toNat / 16),
      Nat.digitChar (c.toNat % 16)]) ∨
    (c ≠ '"' ∧ c ≠ '\\' ∧ 0x20 ≤ c.toNat ∧ escaped c = [c]) := by
  by_cases hquote : c = '"'
  · exact .inl ⟨'"', by decide, by rw [hquote]; rfl, by rw [hquote]; rfl⟩
  by_cases hslash : c = '\\'
  · exact .inl ⟨'\\', by decide, by rw [hslash]; rfl, by rw [hslash]; rfl⟩
  by_cases hb : c = '\x08'
  · exact .inl ⟨'b', by decide, by rw [hb]; rfl, by rw [hb]; rfl⟩
  by_cases hf : c = '\x0c'
  · exact .inl ⟨'f', by decide, by rw [hf]; rfl, by rw [hf]; rfl⟩
  by_cases hn : c = '\n'
  · exact .inl ⟨'n', by decide, by rw [hn]; rfl, by rw [hn]; rfl⟩
  by_cases hr : c = '\r'
  · exact .inl ⟨'r', by decide, by rw [hr]; rfl, by rw [hr]; rfl⟩
  by_cases ht : c = '\t'
  · exact .inl ⟨'t', by decide, by rw [ht]; rfl, by rw [ht]; rfl⟩
  unfold escaped
  rw [if_neg hquote, if_neg hslash, if_neg hb, if_neg hf, if_neg hn, if_neg hr, if_neg ht]
  by_cases hcontrol : c.toNat < 0x20
  · exact .inr (.inl ⟨hcontrol, if_pos hcontrol⟩)
  · exact .inr (.inr ⟨hquote, hslash, by omega, if_neg hcontrol⟩)

/-- **One character is read back from what it is escaped to.** -/
theorem stringChars_step (fuel : Nat) (c : Char) (cs : List Char) :
    stringChars (fuel + 1) (escaped c ++ cs) =
      (stringChars fuel cs).map fun (tail, rest) => (c :: tail, rest) := by
  rcases escaped_cases c with ⟨letter, hu, hletter, heq⟩ | ⟨hcontrol, heq⟩ | ⟨hq, hs, hle, heq⟩
  · rw [heq]
    simp only [List.cons_append, List.nil_append]
    rw [stringChars, hletter]
    · simp only [Option.bind_eq_bind, Option.bind_some]
      cases stringChars fuel cs <;> rfl
    · exact hu
  · rw [heq]
    simp only [List.cons_append, List.nil_append]
    rw [stringChars, numberedEscape_control hcontrol]
    simp only [Option.bind_eq_bind, Option.bind_some]
    cases stringChars fuel cs <;> rfl
  · have hplain : (c == '\\' || decide (c.toNat < 0x20)) = false := by simp [hs, hle]
    rw [heq, List.singleton_append, stringChars, hplain]
    · cases stringChars fuel cs <;> rfl
    · exact hq
    · exact fun _ h => absurd h hs
    · exact fun _ _ h => absurd h hs

/-- **A string is read back**, whatever comes after its closing quote. -/
theorem stringChars_escaped (s : List Char) (rest : List Char) {fuel : Nat} (h : s.length < fuel) :
    stringChars fuel (s.flatMap escaped ++ '"' :: rest) = some (s, rest) := by
  induction s generalizing fuel with
  | nil =>
    obtain ⟨fuel, rfl⟩ : ∃ n, fuel = n + 1 := ⟨fuel - 1, by omega⟩
    rfl
  | cons c s ih =>
    obtain ⟨fuel, rfl⟩ : ∃ n, fuel = n + 1 := ⟨fuel - 1, by omega⟩
    rw [List.flatMap_cons, List.append_assoc, stringChars_step, ih (by simpa using h)]
    rfl

theorem length_le_flatMap_escaped (s : List Char) : s.length ≤ (s.flatMap escaped).length := by
  induction s with
  | nil => exact Nat.le_refl _
  | cons c s ih =>
    have hc : 1 ≤ (escaped c).length := by
      rcases escaped_cases c with ⟨_, -, -, heq⟩ | ⟨-, heq⟩ | ⟨-, -, -, heq⟩ <;> simp [heq]
    rw [List.flatMap_cons, List.length_append, List.length_cons]
    omega

theorem toList_stringText (s : String) :
    (stringText s).toList = '"' :: (s.toList.flatMap escaped ++ ['"']) := by
  simp [stringText]

theorem outcome_string (s : String) (rest : List Char) :
    outcome string ((stringText s).toList ++ rest) = .ok (s, rest) := by
  rw [toList_stringText, List.cons_append, List.append_assoc, List.singleton_append, string,
    outcome_bind_ok (outcome_expect rfl _)]
  refine outcome_lift_iff.mpr ?_
  rw [stringChars_escaped]
  · simp
  · have := length_le_flatMap_escaped s.toList
    simp only [List.length_append]
    omega

/-! ## Items -/

/-- All outcomes of a list, where some items are refused. -/
theorem mapM_ite {f : γ → α} {p : γ → Prop} [DecidablePred p] {e : ReadError} (xs : List γ) :
    xs.mapM (fun x => if p x then Except.ok (f x) else .error e) =
      if ∀ x ∈ xs, p x then .ok (xs.map f) else .error e := by
  induction xs with
  | nil => rfl
  | cons x xs ih =>
    rw [List.mapM_cons, ih]
    simp only [List.forall_mem_cons]
    by_cases hx : p x
    · by_cases hxs : ∀ y ∈ xs, p y
      · rw [if_pos hx, if_pos hxs, if_pos (And.intro hx hxs)]
        rfl
      · rw [if_pos hx, if_neg hxs, if_neg (fun h : p x ∧ ∀ y ∈ xs, p y => hxs h.2)]
        rfl
    · rw [if_neg hx, if_neg (fun h : p x ∧ ∀ y ∈ xs, p y => hx h.1)]
      rfl

/-- The text of an item: it does not look like the end of the array. -/
def Begins (text : List Char) : Prop := ∃ c cs, text = c :: cs ∧ isSpace c = false ∧ c ≠ ']'

theorem outcome_nextItem_first (hspace : isSpace c = false) (hne : c ≠ ']') (cs : List Char) :
    outcome (nextItem true) (c :: cs) = .ok (true, c :: cs) := by
  rw [nextItem, outcome_bind_ok (outcome_peek hspace cs)]
  split
  · contradiction
  · rename_i heq
    exact absurd (Option.some.inj heq) hne
  · rfl

theorem outcome_nextItem (hspace : isSpace c = false) (hne : c ≠ ']') (cs : List Char) :
    outcome (nextItem false) (',' :: c :: cs) = .ok (true, c :: cs) := by
  rw [nextItem, outcome_bind_ok (outcome_peek rfl _)]
  show outcome (advance >>= fun _ => peek >>= _) (',' :: c :: cs) = _
  rw [outcome_bind_ok (outcome_advance _ _), outcome_bind_ok (outcome_peek hspace cs)]
  split
  · contradiction
  · rename_i heq
    exact absurd (Option.some.inj heq) hne
  · rfl

theorem outcome_nextItem_end (first : Bool) (cs : List Char) :
    outcome (nextItem first) (']' :: cs) = .ok (false, ']' :: cs) := by
  rw [nextItem, outcome_bind_ok (outcome_peek rfl cs)]
  rfl

theorem ends_rest (xs : List γ) (text : γ → List Char) (rest : List Char) :
    Ends (xs.flatMap (fun x => ',' :: text x) ++ ']' :: rest) := by
  cases xs with
  | nil => exact ends_cons (by decide) rest
  | cons x xs => exact ends_cons (by decide) _

/-- Texts with commas between them: each one but the first after a comma. -/
theorem intercalate_cons (x : γ) (xs : List γ) (text : γ → List Char) :
    [','].intercalate ((x :: xs).map text) = text x ++ xs.flatMap fun y => ',' :: text y := by
  induction xs generalizing x with
  | nil => simp
  | cons y xs ih =>
    rw [List.map_cons, List.map_cons, List.intercalate_cons_cons, ← List.map_cons, ih y,
      List.flatMap_cons]
    simp

section

variable {item : Reader α} {x : γ} {xs : List γ} {text : γ → List Char}
  {out : γ → Except ReadError α} {fuel : Nat}

/-- One item and those that follow it. -/
theorem outcome_items_cons {first : Bool} {later : List Char} (hitem : Gives item (text x) (out x))
    (hnext : outcome (nextItem first) cs = .ok (true, text x ++ later)) (hends : Ends later)
    (hlater : outcome (items item fuel false) later = (xs.mapM out).map (·, rest)) :
    outcome (items item (fuel + 1) first) cs = ((x :: xs).mapM out).map (·, rest) := by
  have hx := hitem later hends
  rw [items, outcome_bind_ok hnext, if_pos rfl, List.mapM_cons]
  cases hout : out x with
  | error e =>
    rw [hout] at hx
    exact outcome_bind_error hx
  | ok v =>
    rw [hout] at hx
    rw [outcome_bind_ok hx]
    cases htail : xs.mapM out with
    | error e =>
      rw [htail] at hlater
      exact outcome_bind_error hlater
    | ok vs =>
      rw [htail] at hlater
      exact outcome_bind_ok hlater

/-- Items that follow another one, up to the end of the array. -/
theorem outcome_items_rest (hitem : ∀ x ∈ xs, Gives item (text x) (out x))
    (hbegins : ∀ x ∈ xs, Begins (text x)) (hfuel : xs.length < fuel) (rest : List Char) :
    outcome (items item fuel false) (xs.flatMap (fun x => ',' :: text x) ++ ']' :: rest) =
      (xs.mapM out).map (·, ']' :: rest) := by
  induction xs generalizing fuel with
  | nil =>
    obtain ⟨fuel, rfl⟩ : ∃ n, fuel = n + 1 := ⟨fuel - 1, by omega⟩
    rw [List.flatMap_nil, List.nil_append, items, outcome_bind_ok (outcome_nextItem_end false rest)]
    rfl
  | cons x xs ih =>
    obtain ⟨fuel, rfl⟩ : ∃ n, fuel = n + 1 := ⟨fuel - 1, by omega⟩
    obtain ⟨hx, hxs⟩ := List.forall_mem_cons.mp hitem
    obtain ⟨⟨c, cs, htext, hspace, hne⟩, hrest⟩ := List.forall_mem_cons.mp hbegins
    have hlater := ih hxs hrest (by simpa using hfuel)
    refine outcome_items_cons hx ?_ (ends_rest xs text rest) hlater
    rw [List.flatMap_cons, htext]
    simp only [List.cons_append, List.append_assoc]
    exact outcome_nextItem hspace hne _

/-- **The items of an array** give what the single items give, up to the first error. -/
theorem outcome_items (hitem : ∀ x ∈ xs, Gives item (text x) (out x))
    (hbegins : ∀ x ∈ xs, Begins (text x)) (hfuel : xs.length < fuel) (rest : List Char) :
    outcome (items item fuel true) ([','].intercalate (xs.map text) ++ ']' :: rest) =
      (xs.mapM out).map (·, ']' :: rest) := by
  obtain ⟨fuel, rfl⟩ : ∃ n, fuel = n + 1 := ⟨fuel - 1, by omega⟩
  cases xs with
  | nil =>
    show outcome (items item (fuel + 1) true) (']' :: rest) = _
    rw [items, outcome_bind_ok (outcome_nextItem_end true rest)]
    rfl
  | cons x xs =>
    obtain ⟨hx, hxs⟩ := List.forall_mem_cons.mp hitem
    obtain ⟨⟨c, cs, htext, hspace, hne⟩, hrest⟩ := List.forall_mem_cons.mp hbegins
    have hlength : xs.length < fuel := by simpa using hfuel
    have hlater := outcome_items_rest hxs hrest hlength rest
    refine outcome_items_cons hx ?_ (ends_rest xs text rest) hlater
    rw [intercalate_cons, List.append_assoc, htext]
    exact outcome_nextItem_first hspace hne _

/-- The items of an array and its end, when some items are refused. -/
theorem outcome_items_end {p : γ → Prop} [DecidablePred p] {value : γ → α} {g : List α → β}
    (hitem : ∀ x ∈ xs, Gives item (text x) (if p x then .ok (value x) else .error e))
    (hbegins : ∀ x ∈ xs, Begins (text x)) (hfuel : xs.length < fuel) (rest : List Char) :
    outcome (items item fuel true >>= fun as => expect ']' >>= fun _ => pure (g as))
        ([','].intercalate (xs.map text) ++ ']' :: rest) =
      Except.map (·, rest) (if ∀ x ∈ xs, p x then .ok (g (xs.map value)) else .error e) := by
  have hread := outcome_items hitem hbegins hfuel rest
  rw [mapM_ite] at hread
  exact outcome_bind_ite hread (outcome_bind_ok (outcome_expect rfl rest))

end

/-! ## Records -/

section

variable {σ : Type} {field : String → σ → Reader σ} {s : σ} {fuel : Nat}

theorem outcome_fields_cons {text : List Char} {name : String} {first : Bool}
    (hnext : outcome (nextField first) cs = .ok (true, text))
    (hname : outcome string text = .ok (name, rest)) :
    outcome (fields string field (fuel + 1) first s) cs =
      outcome (field name s >>= fields string field fuel false) rest := by
  rw [fields, outcome_bind_ok hnext, if_pos rfl, outcome_bind_ok hname]

/-- The first field of an object, and those after it. -/
theorem outcome_fields_first (name : String) (cs : List Char) :
    outcome (fields string field (fuel + 1) true s) ((stringText name).toList ++ cs) =
      outcome (field name s >>= fields string field fuel false) cs := by
  refine outcome_fields_cons ?_ (outcome_string name cs)
  rw [toList_stringText, List.cons_append, nextField, outcome_bind_ok (outcome_peek rfl _)]
  rfl

/-- One of the other fields, after its comma. -/
theorem outcome_fields_next (name : String) (cs : List Char) :
    outcome (fields string field (fuel + 1) false s) (',' :: ((stringText name).toList ++ cs)) =
      outcome (field name s >>= fields string field fuel false) cs := by
  refine outcome_fields_cons ?_ (outcome_string name cs)
  rw [toList_stringText, List.cons_append, nextField, outcome_bind_ok (outcome_peek rfl _)]
  change outcome (advance >>= fun _ => peek >>= _) _ = _
  rw [outcome_bind_ok (outcome_advance _ _), outcome_bind_ok (outcome_peek rfl _)]
  rfl

theorem outcome_fields_end (first : Bool) (s : σ) (cs : List Char) :
    outcome (fields string field (fuel + 1) first s) ('}' :: cs) = .ok (s, '}' :: cs) := by
  have hend : outcome (nextField first) ('}' :: cs) = .ok (false, '}' :: cs) := by
    rw [nextField, outcome_bind_ok (outcome_peek rfl cs)]
    rfl
  rw [fields, outcome_bind_ok hend]
  rfl

/-- A field that was not there before, from its colon on. -/
theorem outcome_newField (name : String) (read : Reader α) (cs : List Char) :
    outcome (newField name none read) (':' :: cs) =
      outcome (read >>= fun a => pure (some a)) cs := by
  change outcome (expect ':' >>= fun _ => read >>= fun a => pure (some a)) _ = _
  exact outcome_bind_ok (outcome_expect rfl cs)

theorem outcome_expectRecord (name : String) (ofItems ofFields : Nat → Reader α)
    (depth : Nat) (cs : List Char) :
    outcome (expectRecord name (depth + 1) ofItems ofFields) ('{' :: cs) =
      outcome (ofFields depth >>= fun a => expect '}' >>= fun _ => pure a) cs := by
  rw [expectRecord, outcome_bind_ok (outcome_peek rfl _)]
  exact outcome_bind_ok (outcome_advance '{' cs)

end

end SqlBuilder.Json.Reader
