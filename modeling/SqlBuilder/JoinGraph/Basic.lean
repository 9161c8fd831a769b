import SqlBuilder.Condition
import SqlBuilder.TableMap

/-!
# Join graphs

A `JoinGraph` knows which columns tables are joined on. Every link is stored under both of its
tables, once in each direction, and between two tables a pair of column names is stored at most
once. Tables, neighbours and links keep the order in which they were added, and an entry that has
lost its last link is dropped.

Model of `JoinGraph`, `Link` and `ForeignKey`: `insertLink` is `JoinGraph::insert`, `eraseLink` is
`JoinGraph::delete`.
-/

namespace SqlBuilder

/-- A pair of columns on which two tables are joined, seen from the source's table. -/
structure Link where
  source : Column
  target : Column

namespace Link

/-- The equality of the two columns. -/
def equation (l : Link) : Condition := .compare (.column l.source) .eq (.column l.target)

/-- Whether the link joins columns of these names. -/
def hasNames (l : Link) (source target : Column) : Bool :=
  l.source.name == source.name && l.target.name == target.name

def text (l : Link) : String := l.source.qualifiedName ++ " = " ++ l.target.qualifiedName

end Link

/-- A column pair by names, as a schema declares it. -/
structure ForeignKey where
  fromTable : String
  fromColumn : String
  toTable : String
  toColumn : String
deriving DecidableEq

/-- For each table its neighbours, for each neighbour the links that lead to it. -/
structure JoinGraph where
  edges : TableMap (TableMap (List Link))

/-- The table of a column that takes part in a link. -/
def Column.requireTable (c : Column) : Except BuildError Table :=
  match c.table? with
  | some table => pure table
  | none => throw (.unbound c)

namespace JoinGraph

def empty : JoinGraph := ⟨[]⟩

instance : Inhabited JoinGraph := ⟨empty⟩

/-! ## Look-up -/

def tables (g : JoinGraph) : List Table := g.edges.keys

def neighbours (g : JoinGraph) (t : Table) : List Table := ((g.edges.get? t).getD []).keys

/-- The links that lead from one table to another. -/
def links (g : JoinGraph) (a b : Table) : List Link :=
  ((g.edges.get? a).bind (·.get? b)).getD []

def isEmpty (g : JoinGraph) : Bool := g.edges.isEmpty

/-! ## Adding -/

/-- Adds a link to the links that lead from its source's table, unless its names are there. -/
def Link.addTo (link : Link) (links : Option (List Link)) : List Link :=
  let links := links.getD []
  if links.any (·.hasNames link.source link.target) then links else links ++ [link]

/-- Stores a link under table `a`, with neighbour `b`. -/
def insertLink (g : JoinGraph) (a : Table) (x : Column) (b : Table) (y : Column) : JoinGraph :=
  ⟨g.edges.alter (fun neighbours => (neighbours.getD []).alter (Link.addTo ⟨x, y⟩) b) a⟩

/-- Links column `x` of table `a` with column `y` of table `b`, in both directions. -/
def connect (g : JoinGraph) (a : Table) (x : Column) (b : Table) (y : Column) : JoinGraph :=
  (g.insertLink a x b y).insertLink b y a x

/-- Links two columns that have tables. -/
def linkColumns (g : JoinGraph) (source target : Column) : Except BuildError JoinGraph :=
  return g.connect (← source.requireTable) source (← target.requireTable) target

/-- The graph that a schema's keys declare, in order. -/
def ofForeignKeys (keys : List ForeignKey) : JoinGraph :=
  keys.foldl (fun g key =>
    let a := Table.ofName key.fromTable
    let b := Table.ofName key.toTable
    g.connect a (a.column key.fromColumn .any) b (b.column key.toColumn .any)) empty

/-! ## Removing -/

/-- Removes the links of these names to table `b`, and the entry of `b` with the last link. -/
def dropLink (b : Table) (x y : Column) (neighbours : TableMap (List Link)) :
    TableMap (List Link) :=
  match neighbours.get? b with
  | none => neighbours
  | some links =>
    let kept := links.filter fun link => !link.hasNames x y
    if kept.isEmpty then neighbours.erase b else neighbours.alter (fun _ => kept) b

/-- Removes the links of these names that lead from table `a` to `b`. -/
def eraseLink (g : JoinGraph) (a : Table) (x : Column) (b : Table) (y : Column) : JoinGraph :=
  match g.edges.get? a with
  | none => g
  | some neighbours =>
    let left := dropLink b x y neighbours
    if left.isEmpty then ⟨g.edges.erase a⟩ else ⟨g.edges.alter (fun _ => left) a⟩

/-- Removes the link between two columns, in both directions. -/
def disconnect (g : JoinGraph) (a : Table) (x : Column) (b : Table) (y : Column) : JoinGraph :=
  (g.eraseLink a x b y).eraseLink b y a x

/-- Removes the link between two columns that have tables. -/
def unlinkColumns (g : JoinGraph) (source target : Column) : Except BuildError JoinGraph :=
  return g.disconnect (← source.requireTable) source (← target.requireTable) target

/-- Removes a table and every link to it. -/
def eraseTable (g : JoinGraph) (t : Table) : JoinGraph :=
  let others := (g.edges.erase t).map fun (u, neighbours) => (u, neighbours.erase t)
  ⟨others.filter fun (_, neighbours) => !neighbours.isEmpty⟩

end JoinGraph
end SqlBuilder
