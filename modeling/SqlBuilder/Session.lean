import SqlBuilder.Node.Template

/-!
# Sessions

A `Session` writes nodes in one dialect with one set of parameters. Nodes written in the same
session share parameters; a text and the parameters bound so far make a `Statement`.

Model of `RenderSession`, of `RenderedQuery`, and of `Render::to_sql_with`.
-/

namespace SqlBuilder

/-- A statement ready to run. -/
structure Statement where
  sql : String
  /-- The value of parameter `n + 1` at position `n`. -/
  params : List Value

namespace Statement

def paramCount (q : Statement) : Nat := q.params.length

def hasParams (q : Statement) : Bool := !q.params.isEmpty

end Statement

structure Session where
  dialect : Dialect
  params : Parameters

namespace Session

/-- A session without parameters. -/
def start (dialect : Dialect) : Session := ⟨dialect, .empty⟩

/-- Binds a literal and gives its placeholder. -/
def placeholder (s : Session) (v : Value) : String × Session :=
  let (ordinal, params) := s.params.bindValue v
  (s.dialect.placeholder ordinal, { s with params })

/-- Binds the value of a node and gives its placeholder. -/
def nodePlaceholder (s : Session) (id : Nat) (v : Value) : String × Session :=
  let (ordinal, params) := s.params.bindNodeValue id v
  (s.dialect.placeholder ordinal, { s with params })

/-- Writes a node in a context. -/
def write (s : Session) (ctx : Context) (node : Node) : String × Session :=
  let (text, params) := Template.write s.dialect s.params (node.template ctx)
  (text, { s with params })

/-- The statement with the parameters bound so far. -/
def statement (s : Session) (sql : String) : Statement := ⟨sql, s.params.values⟩

end Session

/-- The node in a session of its own, in a context. -/
def Node.statementIn (node : Node) (ctx : Context) (dialect : Dialect) : Statement :=
  let (text, session) := (Session.start dialect).write ctx node
  session.statement text

/-- The node as a statement. -/
def Node.statement (node : Node) (dialect : Dialect) : Statement := node.statementIn .output dialect

end SqlBuilder
