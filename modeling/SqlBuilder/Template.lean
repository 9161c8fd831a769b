import SqlBuilder.Column
import SqlBuilder.Dialect
import SqlBuilder.Parameters

/-!
# Templates

A `Template` is a statement before its literals are bound: verbatim text, columns, and slots for
literals, from left to right. It depends neither on the dialect nor on the parameters bound
before. `Template.write` goes through it once and binds each slot.

A *hidden* slot binds its literal and writes nothing: an aliased call in a sort key is written as
its alias, and the literals of its argument are bound all the same. The marks `enter` and `leave`
write nothing and enclose the clauses of a nested query.

Model of what `Render::render` does to a session: a slot is a call of `RenderSession::bind` or
`RenderSession::bind_node`, and `write` makes these calls in the order of the text.
-/

namespace SqlBuilder

/-- A piece of a statement. -/
inductive Piece where
  | text (text : String)
  | column (column : Column) (ctx : Context)
  /-- A placeholder. -/
  | slot (binding : Binding)
  /-- A literal that is bound without a placeholder. -/
  | hidden (binding : Binding)
  /-- The clauses of a nested query begin. -/
  | enter
  /-- The clauses of a nested query end. -/
  | leave

namespace Piece

/-- The literal that the piece binds. -/
def binding? : Piece → Option Binding
  | slot b | hidden b => some b
  | text _ | column _ _ | enter | leave => none

/-- The text of the piece, and the parameters after it. -/
def write (dialect : Dialect) (params : Parameters) : Piece → String × Parameters
  | text s => (s, params)
  | column c ctx => (c.text ctx, params)
  | slot b => let (ordinal, params) := params.bind b; (dialect.placeholder ordinal, params)
  | hidden b => ("", (params.bind b).2)
  | enter => ("", params)
  | leave => ("", params)

end Piece

/-- The pieces of a statement, from left to right. -/
abbrev Template := List Piece

namespace Template

/-- The literals that the template binds, from left to right. -/
def bindings (t : Template) : List Binding := t.filterMap Piece.binding?

/-- Binds what the template binds and writes nothing. -/
def hide (t : Template) : Template := t.bindings.map .hidden

/-- Templates in order, with a text between each two. -/
def joined (separator : String) : List Template → Template
  | [] => []
  | [t] => t
  | t :: ts => t ++ .text separator :: joined separator ts

/-- The text of the template in a dialect, and the parameters after it. -/
def write (dialect : Dialect) (params : Parameters) : Template → String × Parameters
  | [] => ("", params)
  | piece :: rest =>
    let (head, params) := piece.write dialect params
    let (tail, params) := write dialect params rest
    (head ++ tail, params)

end Template
end SqlBuilder
