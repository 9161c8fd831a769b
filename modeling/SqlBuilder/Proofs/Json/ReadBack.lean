import SqlBuilder.Proofs.Json.Literals

/-!
# Statements are read back from JSON

A statement is written as an object with its text and its parameters. `ofJsonText_toJson`: it is
read back as the literals in it are, or refused if one of them nests too deep for its place, two
levels into the text. `json_read_back` says the same of literals and of statements.
-/

namespace SqlBuilder

namespace Statement

open Json.Reader

variable {q : Statement}

/-- The statement as JSON keeps it. -/
def storable (q : Statement) : Statement := ⟨q.sql, q.params.map Value.storable⟩

/-- The characters of the statement's JSON text. -/
def jsonChars (q : Statement) : List Char := q.toJson.text.toList

/-- The text between the braces. -/
def fieldChars (q : Statement) : List Char :=
  (Json.stringText "sql").toList ++ (':' :: ((Json.stringText q.sql).toList ++
    ',' :: ((Json.stringText "params").toList ++ (':' :: (Value.array q.params).jsonChars))))

theorem jsonChars_eq (q : Statement) : q.jsonChars = '{' :: (q.fieldChars ++ ['}']) := by
  have hfields : ",".intercalate [Json.stringText "sql" ++ ":" ++ Json.stringText q.sql,
      Json.stringText "params" ++ ":" ++ (Value.array q.params).toJson.text] =
      Json.stringText "sql" ++ ":" ++ Json.stringText q.sql ++ "," ++
        (Json.stringText "params" ++ ":" ++ (Value.array q.params).toJson.text) := rfl
  show ("\x7b" ++ ",".intercalate [Json.stringText "sql" ++ ":" ++ Json.stringText q.sql,
    Json.stringText "params" ++ ":" ++ (Value.array q.params).toJson.text] ++ "\x7d").toList = _
  rw [hfields]
  simp only [String.toList_append, fieldChars, List.append_assoc, Value.jsonChars]
  simp

/-- The parameters are read like the items of an array, one level deeper. -/
theorem gives_params {items : List Value} (depth : Nat) (h : ∀ item ∈ items, item.ReadsBack) :
    Gives (expectSequence (depth + 1) Value.reader) (Value.array items).jsonChars
      (if ∀ item ∈ items, item.depth ≤ depth then .ok (items.map Value.storable)
        else .error .malformed) := by
  intro rest _
  obtain ⟨hcount, -⟩ := Value.length_jsonChars_array items
  rw [Value.jsonChars_array] at hcount ⊢
  rw [List.cons_append, List.append_assoc, List.singleton_append]
  have hlong : items.length <
      ([','].intercalate (items.map Value.jsonChars) ++ ']' :: rest).length + 1 := by
    simp only [List.length_cons, List.length_append, List.length_nil] at hcount ⊢
    omega
  unfold expectSequence
  rw [outcome_bind_ok (outcome_peek rfl _)]
  change outcome (advance >>= fun _ => Json.Reader.fuel >>= fun n =>
    Json.Reader.items (Value.reader depth) n true >>= fun as =>
      expect ']' >>= fun _ => pure as) _ = _
  rw [outcome_bind_ok (outcome_advance _ _), outcome_bind_ok (outcome_fuel _)]
  exact outcome_items_end (fun item hitem => Value.gives_reader depth (h item hitem))
    (fun item _ => item.begins_jsonChars) hlong rest

/-- One field of a statement is taken, or passed if it is neither of the two. -/
def field (depth : Nat) (key : String) : Option String × Option (List Value) →
    Json.Reader (Option String × Option (List Value)) :=
  fun (s, p) => do
    match key with
    | "sql" => return (← newField key s (expectString .string), p)
    | "params" => return (s, ← newField key p (expectSequence depth Value.reader))
    | _ => expect ':'; skipValue; return (s, p)

/-- What is read between the braces. -/
def fieldsReader (depth : Nat) : Json.Reader Statement := do
  let (s, p) ← fields string (field depth) (← Json.Reader.fuel) true (none, none)
  return ⟨← required "sql" s, ← required "params" p⟩

theorem outcome_reader (depth : Nat) (cs : List Char) :
    outcome (reader (depth + 1)) ('{' :: cs) =
      outcome (fieldsReader depth >>= fun q => expect '}' >>= fun _ => pure q) cs :=
  outcome_expectRecord _ _ _ depth cs

theorem outcome_field_sql (depth : Nat) (s : String) (rest : List Char) :
    outcome (field depth "sql" (none, none)) (':' :: ((Json.stringText s).toList ++ rest)) =
      .ok ((some s, none), rest) := by
  have hstring := outcome_string s rest
  have hexpect : outcome (expectString .string) ((Json.stringText s).toList ++ rest) =
      .ok (s, rest) := by
    rw [toList_stringText, List.cons_append] at hstring ⊢
    rw [expectString, outcome_bind_ok (outcome_peek rfl _)]
    exact hstring
  refine outcome_bind_ok ?_
  rw [outcome_newField, outcome_bind_ok hexpect]
  rfl

theorem outcome_field_params (depth : Nat) (s : Option String) (cs : List Char) :
    outcome (field depth "params" (s, none)) (':' :: cs) =
      outcome (expectSequence depth Value.reader >>= fun items => pure (s, some items)) cs := by
  refine (outcome_bind_congr (outcome_newField "params" _ cs)).trans ?_
  rw [bind_assoc]
  simp only [pure_bind]

/-- The fields of a statement are read one after the other. -/
theorem outcome_fieldChars (depth fuel : Nat) (rest : List Char) :
    outcome (fields string (field depth) (fuel + 2) true (none, none)) (q.fieldChars ++ rest) =
      outcome (expectSequence depth Value.reader >>= fun items =>
          fields string (field depth) fuel false (some q.sql, some items))
        ((Value.array q.params).jsonChars ++ rest) := by
  have hparams := outcome_field_params depth (some q.sql)
    ((Value.array q.params).jsonChars ++ rest)
  rw [fieldChars]
  simp only [List.append_assoc, List.cons_append]
  rw [outcome_fields_first, outcome_bind_ok (outcome_field_sql _ _ _), outcome_fields_next,
    outcome_bind_congr hparams, bind_assoc]
  simp only [pure_bind]

theorem outcome_fieldsReader (h : ∀ v ∈ q.params, v.ReadsBack) (depth : Nat) (rest : List Char) :
    outcome (fieldsReader (depth + 1)) (q.fieldChars ++ '}' :: rest) = Except.map (·, '}' :: rest)
      (if ∀ v ∈ q.params, v.depth ≤ depth then .ok q.storable else .error .malformed) := by
  have hparams := gives_params depth h ('}' :: rest) (ends_cons (by decide) rest)
  -- two fields and the end
  obtain ⟨fuel, hfuel⟩ : ∃ n, (q.fieldChars ++ '}' :: rest).length + 1 = n + 1 + 2 := ⟨_, rfl⟩
  have hread : outcome (fields string (field (depth + 1)) (fuel + 1 + 2) true (none, none))
      (q.fieldChars ++ '}' :: rest) = Except.map (·, '}' :: rest)
        (if ∀ v ∈ q.params, v.depth ≤ depth then .ok (some q.sql, some q.storable.params)
          else .error .malformed) := by
    rw [outcome_fieldChars]
    exact outcome_bind_ite hparams (outcome_fields_end false _ rest)
  unfold fieldsReader
  rw [outcome_bind_ok (outcome_fuel _), hfuel]
  exact outcome_bind_ite hread rfl

/-- **The text of a statement is read as the statement**, if its parameters nest no deeper than
they may. -/
theorem gives_reader (h : ∀ v ∈ q.params, v.ReadsBack) (depth : Nat) :
    Gives (reader (depth + 2)) q.jsonChars
      (if ∀ v ∈ q.params, v.depth ≤ depth then .ok q.storable else .error .malformed) := by
  intro rest _
  rw [jsonChars_eq, List.cons_append, List.append_assoc, List.singleton_append, outcome_reader]
  exact outcome_bind_ite (outcome_fieldsReader h depth rest)
    (outcome_bind_ok (outcome_expect rfl rest))

/-- **The text of a statement is read back**, and refused if a parameter nests too deep. -/
theorem ofJsonText_toJson (h : ∀ v ∈ q.params, v.ReadsBack) : ofJsonText q.toJson.text =
    if ∀ v ∈ q.params, v.depth + 2 ≤ Json.maxDepth then .ok q.storable else .error .malformed := by
  have hdepth (v : Value) : v.depth + 2 ≤ Json.maxDepth ↔ v.depth ≤ 125 := by
    unfold Json.maxDepth
    omega
  simp only [hdepth]
  exact Value.run_of_gives (gives_reader h 125)

theorem storable_eq_self_iff : q.storable = q ↔
    ∀ v ∈ q.params, ∀ x ∈ v.floats, x.isFinite = true := by
  obtain ⟨sql, params⟩ := q
  rw [storable, mk.injEq, Value.map_eq_self_iff]
  simp only [true_and, Value.storable_eq_self_iff]

end Statement

/-! ## Both -/

/-- **Literals and statements are read back.** What is read is what was written, with null for every
float that is not finite: from a tree whatever its nesting, and from a text unless a literal nests
too deep, when the text is refused. -/
theorem json_read_back :
    (∀ v : Value, Value.ofJson? v.toJson = some v.storable ∧
      (v.storable = v ↔ ∀ x ∈ v.floats, x.isFinite = true)) ∧
    (∀ v : Value, v.ReadsBack → Value.ofJsonText v.toJson.text =
      if v.depth ≤ Json.maxDepth then .ok v.storable else .error .malformed) ∧
    (∀ q : Statement, q.storable = q ↔
      ∀ v ∈ q.params, ∀ x ∈ v.floats, x.isFinite = true) ∧
    (∀ q : Statement, (∀ v ∈ q.params, v.ReadsBack) → Statement.ofJsonText q.toJson.text =
      if ∀ v ∈ q.params, v.depth + 2 ≤ Json.maxDepth then .ok q.storable
      else .error .malformed) :=
  ⟨fun v => ⟨v.ofJson?_toJson, Value.storable_eq_self_iff⟩, fun _ => Value.ofJsonText_toJson,
    fun _ => Statement.storable_eq_self_iff, fun _ => Statement.ofJsonText_toJson⟩

/-- A whole float, the negative zero, a NaN, the least integer, a text with escapes and an empty
array. -/
def Value.mixed : Value := .array [.float ⟨0x3ff0000000000000⟩, .float ⟨0x8000000000000000⟩,
  .float ⟨0x7ff8000000000000⟩, .int Int64.minValue, .text "a\"\n", .array []]

/-- One of each kind, read back as a literal and as a parameter. -/
theorem json_read_back_mixed :
    Value.ofJsonText Value.mixed.toJson.text = .ok (.array [.float ⟨0x3ff0000000000000⟩,
      .float ⟨0x8000000000000000⟩, .null, .int Int64.minValue, .text "a\"\n", .array []]) ∧
    Statement.ofJsonText (Statement.mk "SELECT ?" [Value.mixed]).toJson.text =
      .ok ⟨"SELECT ?", [Value.mixed.storable]⟩ := by
  obtain ⟨-, hvalue, -, hstatement⟩ := json_read_back
  have hmixed : Value.mixed.ReadsBack := by decide +kernel
  have hparams : ∀ v ∈ [Value.mixed], v.ReadsBack := by
    intro v hv
    rwa [List.mem_singleton.mp hv]
  exact ⟨(hvalue .mixed hmixed).trans (if_pos (by decide)),
    (hstatement ⟨"SELECT ?", [Value.mixed]⟩ hparams).trans (if_pos (by decide))⟩

/-- An empty array in `n` more arrays. -/
def Value.nested : Nat → Value
  | 0 => .array []
  | n + 1 => .array [nested n]

theorem Value.depth_nested (n : Nat) : (nested n).depth = n + 1 := by
  induction n with
  | zero => rfl
  | succ n ih => simp [nested, depth, depthOf, ih]

theorem Value.floats_nested (n : Nat) : (nested n).floats = [] := by
  induction n with
  | zero => rfl
  | succ n ih =>
    rw [nested, floats, leaves_array, List.flatMap_singleton]
    exact ih

/-- One array more than a text may nest. The literal has no floats to lose, and is not read back. -/
theorem nested_refused :
    (Value.nested 127).storable = Value.nested 127 ∧ (Value.nested 127).ReadsBack ∧
      Value.ofJsonText (Value.nested 127).toJson.text = .error .malformed := by
  have hfloats := Value.floats_nested 127
  have hback : (Value.nested 127).ReadsBack := by
    rw [Value.ReadsBack, hfloats]
    exact nofun
  have hdepth : ¬ (Value.nested 127).depth ≤ Json.maxDepth := by
    rw [Value.depth_nested]
    decide
  refine ⟨Value.storable_eq_self_iff.mpr ?_, hback,
    (Value.ofJsonText_toJson hback).trans (if_neg hdepth)⟩
  rw [hfloats]
  exact nofun

end SqlBuilder
