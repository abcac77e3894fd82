import Joinery.Proofs.Compiler.Clauses
import Joinery.Proofs.Graph.Coherence
import Joinery.View.Basic

/-!
# A view is published as it is queried

The statement that creates a view is a heading and then, behind a line break, the very text that
queries the view: the query is written inside another statement and comes out as it does alone, also
on one line. The heading, the statement that drops the view and each query that reads from it name
it by the same text (`View.published`).

The statements are `View.createStatement` and `View.dropStatement`.
-/

namespace Joinery

open Tokens

/-- The keywords before the name in a statement that creates a view. -/
def Dialect.createKeywords (d : Dialect) : List Keyword :=
  if d.hasCreateOrReplaceView then [.CREATE, .OR, .REPLACE, .VIEW] else [.CREATE, .VIEW]

/-- A statement that creates a view is its keywords, the name and the query on lines below. -/
theorem CreateView.tokens_eq (d : Dialect) (name : ObjectName) (q : Query) :
    CreateView.tokens d ⟨true, name, q⟩
      = ((d.createKeywords.flatMap fun k => [Token.keyword k, .space])
          ++ ([Token.qualified name] ++ .space :: [Token.keyword .AS]))
        ++ .newline :: q.tokens d := by
  cases h : d.hasCreateOrReplaceView <;> simp [CreateView.tokens, Dialect.createKeywords, h]

namespace Compiler

variable (c : Compiler)

/-- What the statement that creates a view begins with. -/
def createHeading (name : String) : String :=
  "CREATE " ++ (if c.dialect.hasCreateOrReplaceView then "OR REPLACE " else "") ++ "VIEW "
    ++ c.dialect.objectText name ++ " AS"

/-- The keywords of a statement that creates a view, as text. -/
theorem join_createKeywords :
    String.join (c.dialect.createKeywords.map (·.text ++ " "))
      = "CREATE " ++ (if c.dialect.hasCreateOrReplaceView then "OR REPLACE " else "") ++ "VIEW " := by
  unfold Dialect.createKeywords
  split <;> rfl

/-- The query of a view is written behind the heading as it is written alone. -/
theorem renderTokens_createView (name : String) (q : Query) :
    c.renderTokens (CreateView.tokens c.dialect ⟨true, ObjectName.ofText name, q⟩)
      = c.createHeading name ++ c.lineBreak ++ c.render q := by
  have has : (Token.keyword .AS).IsVisible c.dialect := Token.isVisible_of_isRegular rfl rfl
  have hends : EndsVisibly c.dialect [.qualified (ObjectName.ofText name)] :=
    endsVisibly_append rfl rfl []
  have hstarts : StartsVisibly c.dialect [.qualified (ObjectName.ofText name)] :=
    startsVisibly_cons rfl rfl []
  have hname : c.renderTokens
        ([Token.qualified (ObjectName.ofText name)] ++ .space :: [Token.keyword .AS])
      = c.dialect.objectText name ++ " " ++ "AS" := by
    rw [c.renderTokens_space hends ⟨_, [], rfl, has⟩, renderTokens_name, c.renderTokens_singleton has]
    rfl
  have hheading : c.renderTokens
        ((c.dialect.createKeywords.flatMap fun k => [Token.keyword k, .space])
          ++ ([Token.qualified (ObjectName.ofText name)] ++ .space :: [Token.keyword .AS]))
      = c.createHeading name := by
    rw [c.renderTokens_keywords _ (hstarts.append _), hname, join_createKeywords, createHeading]
    simp only [String.append_assoc]
    rfl
  rw [CreateView.tokens_eq, c.renderTokens_newline, hheading]
  · rfl
  · exact (endsVisibly_append rfl rfl [.qualified (ObjectName.ofText name), .space]).append _
  · exact startsVisibly_cons rfl rfl _

theorem renderTokens_dropView (name : String) :
    c.renderTokens (DropView.tokens c.dialect ⟨true, ObjectName.ofText name⟩)
      = "DROP VIEW IF EXISTS " ++ c.dialect.objectText name := by
  have htokens : DropView.tokens c.dialect ⟨true, ObjectName.ofText name⟩
      = ([Keyword.DROP, .VIEW, .IF, .EXISTS].flatMap fun k => [Token.keyword k, .space])
        ++ [.qualified (ObjectName.ofText name)] := by
    cases c.dialect <;> rfl
  rw [htokens, c.renderTokens_keywords _ (startsVisibly_cons rfl rfl []), renderTokens_name]
  rfl

end Compiler

namespace View

/-- The statement that creates a view fails as its query does, and otherwise is a heading and the
text of the query. The heading, the statement that drops the view and, in the text of any graph,
each clause about a node that has the view as its entity give it the same name. -/
theorem published (v : View) :
    (∀ e, v.createStatement = .error e ↔ v.toSql = .error e)
      ∧ (∀ text, v.createStatement = .ok text ↔ ∃ sql, v.toSql = .ok sql ∧
        text = "CREATE " ++ (if v.compiler.dialect.hasCreateOrReplaceView then "OR REPLACE " else "")
          ++ "VIEW " ++ v.compiler.dialect.objectText v.name ++ " AS" ++ v.compiler.lineBreak ++ sql)
      ∧ v.dropStatement = "DROP VIEW IF EXISTS " ++ v.compiler.dialect.objectText v.name
      ∧ ∀ (c : Compiler) (g : JoinGraph) (p : Projection) (q : Query), c.compileWith g p = .ok q →
        c.render q = c.lineBreak.intercalate
          (c.selectClause p :: c.fromClause g.rootNode :: g.links.map (c.joinClause g))
        ∧ ∀ n : Node, n.entity = v.toEntity →
          c.tableText n
            = c.dialect.objectText v.name ++ " " ++ c.dialect.quoteIdentifier n.tableAlias := by
  have hcreate : v.createStatement
      = v.toSql.map (v.compiler.createHeading v.name ++ v.compiler.lineBreak ++ ·) := by
    unfold createStatement toSql
    cases v.query with
    | error e => rfl
    | ok q => exact congrArg Except.ok (v.compiler.renderTokens_createView v.name q)
  refine ⟨fun e => ?_, fun text => ?_, ?_, fun c g p q hq => ⟨?_, fun n hn => ?_⟩⟩
  · rw [hcreate]
    cases v.toSql <;> simp [Except.map]
  · rw [hcreate]
    cases v.toSql with
    | error e => simp [Except.map]
    | ok sql =>
      constructor
      · intro htext
        exact ⟨sql, rfl, (Except.ok.inj htext).symm⟩
      · rintro ⟨_, hsql, rfl⟩
        rw [← Except.ok.inj hsql]
        rfl
  · exact Compiler.renderTokens_dropView ⟨v.compiler.dialect, .negated, true⟩ v.name
  · obtain ⟨_, _, rfl⟩ := Compiler.compileWith_eq_ok_iff.mp hq
    exact c.render_queryOf g p
  · rw [Compiler.tableText, hn]
    rfl

end View

namespace Warehouse

/-- A view with dots and a quote in its name, for text on one line. -/
def shelf : View :=
  { name := "store.shelf \"a\".v2", graph, relations := .empty
    compiler := { dialect := .postgres, pretty := false } }

/-- A graph that starts from that view and joins it to itself. -/
def shelves : JoinGraph :=
  let first := AliasIssuer.standard.next shelf.name .root
  let root := JoinGraph.ofRoot (JoinGraph.rootOf shelf.toEntity first.1)
  ((root.project 0 "widget" "widget").graph.join first.2 0 {
    entity := shelf.toEntity, kind := .left, relation := some "other"
    restrictions := [⟨.notEquals, .ofText "detail", .ofText "widget"⟩] }).1.graph

/-- A view with dots and a quote in its name is spelled alike where it is joined and where it is
dropped. -/
theorem published_shelf :
    ∃ q, shelf.compiler.compile shelves = .ok q ∧ shelves.rootNode.entity = shelf.toEntity
      ∧ shelf.compiler.tableText shelves.rootNode
        = "\"store\".\"shelf \"\"a\"\".v2\" \"t1_store_shelf__a__v2\""
      ∧ shelf.dropStatement = "DROP VIEW IF EXISTS \"store\".\"shelf \"\"a\"\".v2\"" := by
  obtain ⟨q, hq⟩ := exists_of_isOk
    (show (shelf.compiler.compile shelves).isOk = true by decide +kernel)
  have hroot : shelves.rootNode.entity = shelf.toEntity := by decide +kernel
  obtain ⟨_, _, hdrop, hquery⟩ := shelf.published
  have htable := (hquery shelf.compiler shelves shelves.projection q hq).2 shelves.rootNode hroot
  refine ⟨q, hq, hroot, htable.trans ?_, hdrop.trans ?_⟩
  · decide +kernel
  · decide +kernel

end Warehouse

end Joinery
