import Joinery.Graph.Basic
import Joinery.Registry

/-!
# Projections

What a query shows: under each output name one column of one node, in ascending order
of the names. Nodes make their claims root first and then in declaration order, and the
first claim on a name keeps it.

`insert` is the projection's `insert`, and `JoinGraph.projection` is `accumulate`.
-/

namespace Joinery

/-- A column of the result: whose it is, under which alias its table stands, and what it is called
there and in the result. -/
structure ProjectedColumn where
  node : Nat
  tableAlias : String
  column : String
  output : String
  deriving DecidableEq, Repr

/-- Columns of a result by output name. -/
abbrev Projection := Registry ProjectedColumn

namespace Projection

/-- Adds a column unless its output name is taken, and says whether it was added. -/
def insert (p : Projection) (c : ProjectedColumn) : Bool × Projection :=
  (!p.holds c.output, p.claim c.output c)

/-- The projection after the columns of a list have been added in order. -/
def ofColumns (columns : List ProjectedColumn) : Projection :=
  Registry.ofList (columns.map fun c => (c.output, c))

/-- Under an output name stands the first column that was added under it. -/
theorem get?_ofColumns (columns : List ProjectedColumn) (output : String) :
    (ofColumns columns).get? output = columns.find? (·.output == output) :=
  Registry.get?_ofList_map output

/-- Among the columns added, first claims stay and no others. -/
theorem mem_entries_ofColumns {columns : List ProjectedColumn} {output : String}
    {c : ProjectedColumn} :
    (output, c) ∈ (ofColumns columns).entries ↔
      columns.find? (·.output == output) = some c :=
  Registry.mem_entries_ofList_map

/-- A column stays exactly if it is the first with its output name. -/
theorem mem_values_ofColumns {columns : List ProjectedColumn} {c : ProjectedColumn} :
    c ∈ (ofColumns columns).values ↔ columns.find? (·.output == c.output) = some c :=
  Registry.mem_values_ofList_map

/-- Every column stands under its own output name. -/
theorem names_ofColumns (columns : List ProjectedColumn) :
    (ofColumns columns).names = (ofColumns columns).values.map (·.output) :=
  Registry.names_ofList_map

/-- Looking an output name up finds the column that shows itself under it. -/
theorem get?_ofColumns_eq_some_iff {columns : List ProjectedColumn} {output : String}
    {c : ProjectedColumn} :
    (ofColumns columns).get? output = some c ↔
      c ∈ (ofColumns columns).values ∧ c.output = output := by
  rw [get?_ofColumns, mem_values_ofColumns]
  constructor
  · intro hfind
    have hout := List.find?_some hfind
    rw [beq_iff_eq] at hout
    rw [hout]
    exact ⟨hfind, rfl⟩
  · rintro ⟨hfind, rfl⟩
    exact hfind

/-- Every output name that a column asks for is there, and no other. -/
theorem mem_names_ofColumns {columns : List ProjectedColumn} {output : String} :
    output ∈ (ofColumns columns).names ↔ ∃ c ∈ columns, c.output = output := by
  rw [Registry.mem_names_iff, get?_ofColumns, List.find?_isSome]
  simp only [beq_iff_eq]

end Projection

namespace JoinGraph

/-- The columns that a node shows, in the order in which they were asked for. -/
def shownBy (p : PlacedNode) : List ProjectedColumn :=
  p.1.projection.map fun (column, output) => ⟨p.2, p.1.tableAlias, column, output⟩

/-- The columns that the nodes show, in the order of the nodes. -/
def shown (g : JoinGraph) : List ProjectedColumn :=
  g.placed.flatMap shownBy

def projection (g : JoinGraph) : Projection :=
  Projection.ofColumns g.shown

end JoinGraph

end Joinery
