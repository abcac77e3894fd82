import Joinery.Graph.Build

/-!
# Building several graphs at once

A workshop holds graphs under construction that take their aliases from one issuer.
Graphs go by the order in which they were started. Every step but a start is an attempt
on one of them, and what the attempt leaves behind takes its place.

This is how builders share one alias allocator.
-/

namespace Joinery

/-- One step in the building of graphs. -/
inductive BuildStep
  | start (entity : Entity)
  | project (graph node : Nat) (column output : String)
  | projectAll (graph node : Nat)
  -- one more node for a graph, joined to a parent in it
  | join (graph parent : Nat) (spec : JoinSpec)
  deriving DecidableEq, Repr

/-- Graphs under construction and the issuer of their aliases. -/
structure Workshop where
  aliases : AliasIssuer
  graphs : List JoinGraph
  deriving DecidableEq, Repr

namespace Workshop

/-- A workshop without graphs, over an issuer. -/
def ofIssuer (aliases : AliasIssuer) : Workshop :=
  ⟨aliases, []⟩

def graph? (w : Workshop) (i : Nat) : Option JoinGraph :=
  w.graphs[i]?

/-- Tries a step on one graph. What it leaves behind stays, whether it succeeded or not. -/
def attempt {α : Type} (w : Workshop) (i : Nat) (tried : JoinGraph → Attempt α × AliasIssuer) :
    Except DeclarationError Unit × Workshop :=
  match w.graph? i with
  | none => (.error .unknownParent, w)
  | some g =>
    let (result, aliases) := tried g
    (result.outcome.map fun _ => (), ⟨aliases, w.graphs.set i result.graph⟩)

/-- One step: what came of it, and the workshop afterwards. -/
def step (w : Workshop) : BuildStep → Except DeclarationError Unit × Workshop
  | .start entity =>
    match JoinGraph.start w.aliases entity with
    | (.ok g, aliases) => (.ok (), ⟨aliases, w.graphs ++ [g]⟩)
    | (.error e, aliases) => (.error e, { w with aliases })
  | .project i node column output => w.attempt i fun g => (g.project node column output, w.aliases)
  | .projectAll i node => w.attempt i fun g => (g.projectAll node, w.aliases)
  | .join i parent spec => w.attempt i fun g => g.join w.aliases parent spec

/-- A run of steps: what came of each, and the workshop afterwards. -/
def run (w : Workshop) : List BuildStep → List (Except DeclarationError Unit) × Workshop
  | [] => ([], w)
  | s :: rest =>
    let (outcome, next) := w.step s
    let (outcomes, last) := next.run rest
    (outcome :: outcomes, last)

end Workshop

end Joinery
