/-!
# Arenas

An arena holds nodes and directed edges by position. Both are added at the end, so a
position stays good until something is removed. Removing a node takes the edges that
touch it along and moves the last node into the gap; whoever removes any other node
than the last has to expect that.

`removeNode_addNode` is the one case that matters here: a node that was just added and
has no edges yet can be taken out again without a trace.

This is the directed graph that a join graph is kept in.
-/

namespace Joinery

/-- An edge between two positions, and what it carries. -/
structure Edge (β : Type) where
  source : Nat
  target : Nat
  weight : β
  deriving DecidableEq, Repr

/-- Nodes and edges by position, in the order in which they were added. -/
structure Arena (α β : Type) where
  nodes : List α
  edges : List (Edge β)
  deriving DecidableEq, Repr

/-- A list without the element at a position, into which the last element moves. -/
def swapRemove {α : Type} (l : List α) (i : Nat) : List α :=
  match l.getLast? with
  | some last => (l.set i last).dropLast
  | none => []

namespace Arena

variable {α β : Type}

def empty : Arena α β :=
  ⟨[], []⟩

def node? (a : Arena α β) (i : Nat) : Option α :=
  a.nodes[i]?

def edge? (a : Arena α β) (e : Nat) : Option (Edge β) :=
  a.edges[e]?

/-- The nodes with their positions, in order. -/
def placed (a : Arena α β) : List (α × Nat) :=
  a.nodes.zipIdx

/-- The position of the newest edge into a node. -/
def lastInto? (a : Arena α β) (i : Nat) : Option Nat :=
  (a.edges.zipIdx.reverse.find? (·.1.target == i)).map (·.2)

/-- Adds a node, and says where it is. -/
def addNode (a : Arena α β) (node : α) : Arena α β × Nat :=
  ({ a with nodes := a.nodes ++ [node] }, a.nodes.length)

/-- Adds an edge, and says where it is. -/
def addEdge (a : Arena α β) (source target : Nat) (weight : β) : Arena α β × Nat :=
  ({ a with edges := a.edges ++ [⟨source, target, weight⟩] }, a.edges.length)

/-- Changes the node at a position; where there is none, nothing changes. -/
def modifyNode (a : Arena α β) (i : Nat) (change : α → α) : Arena α β :=
  { a with nodes := a.nodes.modify i change }

/-- Removes a node and the edges that touch it; the last node moves into the gap. -/
def removeNode (a : Arena α β) (i : Nat) : Arena α β :=
  if i < a.nodes.length then
    let moved (j : Nat) : Nat := if j = a.nodes.length - 1 then i else j
    { nodes := swapRemove a.nodes i
      edges := (a.edges.filter fun e => e.source != i && e.target != i).map fun e =>
        { e with source := moved e.source, target := moved e.target } }
  else a

/-! ## What the operations do -/

/-- The node a list just grew by is the one that `swapRemove` takes off again. -/
theorem swapRemove_append_singleton (l : List α) (x : α) :
    swapRemove (l ++ [x]) l.length = l := by
  have hset : (l ++ [x]).set l.length x = l ++ [x] := by
    rw [List.set_append_right _ _ (Nat.le_refl _), Nat.sub_self]
    rfl
  rw [swapRemove, List.getLast?_concat]
  show ((l ++ [x]).set l.length x).dropLast = l
  rw [hset, List.dropLast_concat]

/-- A list that grew by one element has it at the end and nothing else new. -/
theorem getElem?_append_singleton {γ : Type} (l : List γ) (x : γ) (i : Nat) :
    (l ++ [x])[i]? = if i = l.length then some x else l[i]? := by
  rcases Nat.lt_trichotomy i l.length with hlt | heq | hgt
  · rw [List.getElem?_append_left hlt, if_neg (by omega)]
  · rw [if_pos heq, heq, List.getElem?_concat_length]
  · rw [if_neg (by omega), List.getElem?_eq_none (by simp; omega),
      List.getElem?_eq_none (by omega)]

/-- A new node stands behind all others, which keep their positions. -/
theorem node?_addNode (a : Arena α β) (node : α) (i : Nat) :
    (a.addNode node).1.node? i = if i = a.nodes.length then some node else a.node? i :=
  getElem?_append_singleton a.nodes node i

/-- A new edge stands behind all others, which keep their positions. -/
theorem edge?_addEdge (a : Arena α β) (source target : Nat) (weight : β) (e : Nat) :
    (a.addEdge source target weight).1.edge? e =
      if e = a.edges.length then some ⟨source, target, weight⟩ else a.edge? e :=
  getElem?_append_singleton a.edges _ e

theorem placed_addNode (a : Arena α β) (node : α) :
    (a.addNode node).1.placed = a.placed ++ [(node, a.nodes.length)] := by
  show (a.nodes ++ [node]).zipIdx = a.nodes.zipIdx ++ [(node, a.nodes.length)]
  rw [List.zipIdx_append, Nat.zero_add]
  rfl

/-- Changing one node leaves the nodes at all other positions alone. -/
theorem node?_modifyNode (a : Arena α β) (i : Nat) (change : α → α) (j : Nat) :
    (a.modifyNode i change).node? j =
      (a.node? j).map fun n => if i = j then change n else n :=
  List.getElem?_modify change i a.nodes j

/-- Changing a node changes nothing that is read off the rest of it. -/
theorem map_placed_modifyNode {γ : Type} (a : Arena α β) (i : Nat) {change : α → α}
    {read : α × Nat → γ} (h : ∀ n j, read (change n, j) = read (n, j)) :
    (a.modifyNode i change).placed.map read = a.placed.map read := by
  apply List.ext_getElem?
  intro j
  show (((a.nodes.modify i change).zipIdx).map read)[j]? = ((a.nodes.zipIdx).map read)[j]?
  rw [List.getElem?_map, List.getElem?_map, List.getElem?_zipIdx, List.getElem?_zipIdx,
    List.getElem?_modify]
  cases a.nodes[j]? with
  | none => rfl
  | some n =>
    by_cases hij : i = j
    · simp [hij, h]
    · simp [hij]

/-- A node is listed with a position exactly if it stands there. -/
theorem mem_placed {a : Arena α β} {p : α × Nat} : p ∈ a.placed ↔ a.node? p.2 = some p.1 :=
  List.mem_zipIdx_iff_getElem?

/-- The only edge into a node is the one that was added last. -/
theorem lastInto?_eq_some {a : Arena α β} {i e : Nat} {edge : Edge β}
    (he : a.edge? e = some edge) (ht : edge.target = i)
    (honly : ∀ f edge', a.edge? f = some edge' → edge'.target = i → f = e) :
    a.lastInto? i = some e := by
  have hmem : (edge, e) ∈ a.edges.zipIdx.reverse :=
    List.mem_reverse.mpr (List.mem_zipIdx_iff_getElem?.mpr he)
  cases hfind : a.edges.zipIdx.reverse.find? (·.1.target == i) with
  | none =>
    have hno := List.find?_eq_none.mp hfind _ hmem
    exact absurd (beq_iff_eq.mpr ht) hno
  | some q =>
    have hq : a.edge? q.2 = some q.1 :=
      List.mem_zipIdx_iff_getElem?.mp (List.mem_reverse.mp (List.mem_of_find?_eq_some hfind))
    have hqt := List.find?_some hfind
    rw [lastInto?, hfind, Option.map_some, honly _ _ hq (beq_iff_eq.mp hqt)]

theorem lastInto?_eq_none {a : Arena α β} {i : Nat}
    (hno : ∀ e edge, a.edge? e = some edge → edge.target ≠ i) : a.lastInto? i = none := by
  rw [lastInto?, Option.map_eq_none_iff, List.find?_eq_none]
  intro q hq hqt
  exact hno _ _ (List.mem_zipIdx_iff_getElem?.mp (List.mem_reverse.mp hq)) (beq_iff_eq.mp hqt)

/-- Every edge runs between nodes of the arena. -/
def Closed (a : Arena α β) : Prop :=
  ∀ edge ∈ a.edges, edge.source < a.nodes.length ∧ edge.target < a.nodes.length

/-- A node without edges that was added last leaves no trace when it is removed: no edge of
the arena touches it, and the node that would move into its place is itself. -/
theorem removeNode_addNode {a : Arena α β} (h : a.Closed) (node : α) :
    (a.addNode node).1.removeNode (a.addNode node).2 = a := by
  have hkeep : a.edges.filter (fun e => e.source != a.nodes.length && e.target != a.nodes.length)
      = a.edges := by
    rw [List.filter_eq_self]
    intro edge hedge
    obtain ⟨hs, ht⟩ := h edge hedge
    rw [Bool.and_eq_true, bne_iff_ne, bne_iff_ne]
    exact ⟨by omega, by omega⟩
  have hstay : a.edges.map (fun e => { e with
      source := if e.source = a.nodes.length then a.nodes.length else e.source
      target := if e.target = a.nodes.length then a.nodes.length else e.target }) = a.edges := by
    refine (List.map_congr_left fun edge _ => ?_).trans (List.map_id _)
    have hself (j : Nat) : (if j = a.nodes.length then a.nodes.length else j) = j := by
      split
      next hj => exact hj.symm
      next => rfl
    rw [hself, hself]
    rfl
  have hlen : (a.nodes ++ [node]).length - 1 = a.nodes.length := by simp
  show removeNode ⟨a.nodes ++ [node], a.edges⟩ a.nodes.length = a
  rw [removeNode, if_pos (by simp)]
  simp only [hlen, hkeep, hstay, swapRemove_append_singleton]

end Arena

end Joinery
