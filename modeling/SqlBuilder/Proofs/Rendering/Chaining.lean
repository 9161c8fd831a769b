import SqlBuilder.Proofs.Rendering.Merging
import SqlBuilder.Proofs.Rendering.Parts

/-!
# Chained conditions

Appending to a condition extends its chain where the connective is the same, and puts the condition
into a new chain where it is not. What is appended is never taken apart. So one list of conditions
makes trees of different shapes, but all of them are written as the conditions in order with the
connective between each two (`template_append`, `template_all`), each in the session that the one
before leaves. The exception is an empty chain of the connective in front: it takes in what is
appended and writes no connective. `write_chained` states this for sessions.
-/

namespace SqlBuilder

namespace Template

variable (separator : String)

theorem joined_cons {ts : List Template} (h : ts ≠ []) (t : Template) :
    joined separator (t :: ts) = t ++ .text separator :: joined separator ts := by
  cases ts with
  | nil => exact absurd rfl h
  | cons => rfl

theorem joined_concat {ts : List Template} (h : ts ≠ []) (u : Template) :
    joined separator (ts ++ [u]) = joined separator ts ++ .text separator :: u := by
  induction ts with
  | nil => exact absurd rfl h
  | cons t ts ih =>
    by_cases hts : ts = []
    · rw [hts]
      rfl
    · rw [List.cons_append, joined_cons _ (by simp), ih hts, joined_cons _ hts, List.append_assoc]
      rfl

/-- Two templates that are joined already can stand first. -/
theorem joined_cons_append (t u : Template) (ts : List Template) :
    joined separator ((t ++ .text separator :: u) :: ts) = joined separator (t :: u :: ts) := by
  cases ts with
  | nil => rfl
  | cons v ts => simp [joined]

end Template

/-! ## Conditions -/

namespace Condition

variable {k : Connective} {a : Condition}

/-- The connective stands between what was there and what is appended, whatever their shapes. -/
theorem template_append (h : a ≠ .chain k []) (b : Condition) :
    (append k a b).template = a.template ++ .text (" " ++ k.keyword ++ " ") :: b.template := by
  have hnew : (chain k [a, b]).template =
      a.template ++ .text (" " ++ k.keyword ++ " ") :: b.template := by
    rw [Condition.template, templates_eq_map]
    rfl
  cases a with
  | chain k' items =>
    rw [append]
    split
    · rename_i hk
      subst hk
      have hitems : items.map Condition.template ≠ [] := fun e =>
        h (congrArg (chain k') (List.map_eq_nil_iff.mp e))
      rw [Condition.template, Condition.template, templates_eq_map, templates_eq_map,
        List.map_append, List.map_singleton, Template.joined_concat _ hitems]
    · exact hnew
  | _ => exact hnew

/-- An empty chain of the connective takes in what is appended. -/
theorem template_append_empty (k : Connective) (b : Condition) :
    (append k (.chain k []) b).template = b.template := by
  rw [append, if_pos rfl, Condition.template, templates_eq_map]
  rfl

theorem columnsOf_append (cs ds : List Condition) :
    columnsOf (cs ++ ds) = columnsOf cs ++ columnsOf ds := by
  induction cs with
  | nil => rfl
  | cons c cs ih => rw [List.cons_append, columnsOf, ih, columnsOf, List.append_assoc]

theorem columns_append (k : Connective) (a b : Condition) :
    (append k a b).columns = a.columns ++ b.columns := by
  have hnew : (chain k [a, b]).columns = a.columns ++ b.columns := by
    simp [columns, columnsOf]
  cases a with
  | chain k' items =>
    rw [append]
    split
    · simp [columns, columnsOf_append, columnsOf]
    · exact hnew
  | _ => exact hnew

theorem append_ne_empty (k : Connective) (a b : Condition) (k' : Connective) :
    append k a b ≠ .chain k' [] := by
  cases a with
  | chain k'' items =>
    rw [append]
    split <;> simp
  | _ => simp [append]

/-- The members of a list stand in order, whatever chains and groups they are. -/
theorem template_all {c : Condition} (h : c ≠ .chain .and []) (cs : List Condition) :
    (all (c :: cs)).template = Template.joined " AND " ((c :: cs).map Condition.template) := by
  rw [all]
  induction cs generalizing c with
  | nil => rfl
  | cons d cs ih =>
    have hkeyword : " " ++ Connective.and.keyword ++ " " = " AND " := by decide
    have hfirst : (c.and d).template = c.template ++ .text " AND " :: d.template := by
      rw [← hkeyword]
      exact template_append h d
    have hne : c.and d ≠ .chain .and [] := append_ne_empty .and c d .and
    rw [List.foldl_cons, ih hne, List.map_cons, hfirst, Template.joined_cons_append]
    rfl

end Condition

/-! ## Sessions -/

namespace Session

/-- The texts of nodes that are written one after the other, each in its context. -/
def texts (s : Session) : List (Context × Node) → List String
  | [] => []
  | part :: parts => (s.write part.1 part.2).1 :: (s.write part.1 part.2).2.texts parts

/-- Templates of nodes that are joined give the texts of the nodes one after the other. -/
theorem fill_joined (separator : String) :
    ∀ (parts : List (Context × Node)) (s : Session),
      s.fill (Template.joined separator (parts.map fun part => part.2.template part.1)) =
        (separator.intercalate (s.texts parts), s.writeAll parts)
  | [], s => rfl
  | [part], s => by
    show s.fill (part.2.template part.1) = (separator.intercalate [_], _)
    rw [String.intercalate_singleton]
    rfl
  | part :: next :: parts, s => by
    let s' := (s.write part.1 part.2).2
    have hrest := fill_joined separator (next :: parts) s'
    have htexts : separator.intercalate (s.texts (part :: next :: parts)) =
        (s.write part.1 part.2).1 ++ separator ++
          separator.intercalate (s'.texts (next :: parts)) := String.intercalate_cons_cons
    rw [List.map_cons, Template.joined_cons _ (by simp), fill_append, fill_text_cons, htexts,
      String.append_assoc]
    change ((s.write part.1 part.2).1 ++ (separator ++ (s'.fill _).1), (s'.fill _).2) = _
    rw [hrest]
    rfl

theorem write_append_condition (s : Session) (ctx : Context) {k : Connective} {a : Condition}
    (h : a ≠ .chain k []) (b : Condition) :
    let left := s.write ctx (.condition a)
    let right := left.2.write ctx (.condition b)
    s.write ctx (.condition (.append k a b)) =
      (left.1 ++ (" " ++ k.keyword ++ " ") ++ right.1, right.2) := by
  intro left right
  change s.fill (Condition.append k a b).template = _
  rw [Condition.template_append h b, fill_append, fill_text_cons, ← String.append_assoc]
  rfl

/-- **Chaining conditions puts their texts in a row**, in every session and for conditions of every
shape.

What is appended with a connective is written after the condition, the connective between them, in
the session that the condition leaves; its columns come after those of the condition. Only an empty
chain of that connective adds no text. So it makes no difference in which order a chain is put
together, and all conditions of a list are written with `AND` between each two. -/
theorem write_chained (s : Session) (ctx : Context) :
    (∀ (k : Connective) (a b : Condition), a ≠ .chain k [] →
      let left := s.write ctx (.condition a)
      let right := left.2.write ctx (.condition b)
      s.write ctx (.condition (.append k a b)) =
        (left.1 ++ (" " ++ k.keyword ++ " ") ++ right.1, right.2)) ∧
    (∀ (k : Connective) (b : Condition),
      s.write ctx (.condition (.append k (.chain k []) b)) = s.write ctx (.condition b)) ∧
    (∀ (k : Connective) (a b : Condition),
      (Condition.append k a b).columns = a.columns ++ b.columns) ∧
    (∀ (k : Connective) (a b c : Condition), a ≠ .chain k [] → b ≠ .chain k [] →
      s.write ctx (.condition (.append k (.append k a b) c)) =
        s.write ctx (.condition (.append k a (.append k b c)))) ∧
    ∀ (c : Condition) (cs : List Condition), c ≠ .chain .and [] →
      let members := (c :: cs).map Condition.part
      s.write ctx (.condition (.all (c :: cs))) =
        (" AND ".intercalate (s.texts members), s.writeAll members) := by
  refine ⟨fun k a b h => s.write_append_condition ctx h b, fun k b => ?_,
    Condition.columns_append, fun k a b c ha hb => ?_, fun c cs h => ?_⟩
  · change s.fill (Condition.append k (.chain k []) b).template = s.fill b.template
    rw [Condition.template_append_empty]
  · change s.fill (Condition.append k (.append k a b) c).template =
      s.fill (Condition.append k a (.append k b c)).template
    rw [Condition.template_append (Condition.append_ne_empty k a b k),
      Condition.template_append ha, Condition.template_append ha, Condition.template_append hb,
      List.append_assoc, List.cons_append]
  · intro members
    have hmembers : (c :: cs).map Condition.template =
        members.map fun part => part.2.template part.1 := by
      rw [List.map_map]
      rfl
    change s.fill (Condition.all (c :: cs)).template = _
    rw [Condition.template_all h, hmembers, fill_joined]

/-- A chain, a group and a leaf: put together from the left, where the first chain grows, and from
the right, where chains are nested. The literal that they share has one parameter. -/
theorem write_chained_shapes :
    let s := start .postgres
    let is (n : Int64) : Condition := .compareLiteral (.verbatim "x") .eq (.int n)
    let a : Condition := .and (is 1) (is 2)
    let b : Condition := .grouped (.or (is 3) (is 1))
    let c : Condition := .or (is 4) (is 2)
    let text := "x = $1 AND x = $2 AND (x = $3 OR x = $1) AND x = $4 OR x = $2"
    let left := s.write .reference (.condition a)
    let right := left.2.write .reference (.condition b)
    (s.write .reference (.condition (.and (.and a b) c))).1 = text ∧
      s.write .reference (.condition (.and a b)) = (left.1 ++ " AND " ++ right.1, right.2) ∧
      s.write .reference (.condition (.and (.and a b) c)) =
        s.write .reference (.condition (.and a (.and b c))) ∧
      s.texts ([a, b, c].map Condition.part) =
        ["x = $1 AND x = $2", "(x = $3 OR x = $1)", "x = $4 OR x = $2"] ∧
      s.write .reference (.condition (.all [a, b, c])) =
        (" AND ".intercalate (s.texts ([a, b, c].map Condition.part)),
          s.writeAll ([a, b, c].map Condition.part)) := by
  intro s is a b c text left right
  have ha : a ≠ .chain .and [] := by simp [a, Condition.and, Condition.append, is]
  have hb : b ≠ .chain .and [] := by simp [b]
  obtain ⟨hand, -, -, hassoc, hall⟩ := s.write_chained .reference
  exact ⟨by decide, hand .and a b ha, hassoc .and a b c ha hb, by decide, hall a [b, c] ha⟩

end Session
end SqlBuilder
