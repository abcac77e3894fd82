import Joinery.Proofs.Alias.Uniqueness
import Joinery.Proofs.Graph.Resolution
import Joinery.Proofs.Settings.Prefixes

/-!
# What an alias is good for

An alias stands in a statement as it is: under a prefix that is a plain identifier it is one itself,
whatever the table is called (`isUsable_of_mem_issue`).

It also says whose column is meant. A column is read up to its last dot, and aliases go before
relation names and table names, so the alias of a node, a dot and a column lead to that node in
every further join, also where other nodes are called the same in another way
(`JoinGraph.Inv.reaches`). All it takes is that no two nodes share the alias.

The functions in question are `AliasIssuer.next`, `ColumnSpec.ofText` and `JoinGraph.pin`.
-/

namespace Joinery

/-! ## Aliases in statements -/

/-- The text can stand in a statement as it is, and before the dot of a qualified column. -/
structure IsUsable (text : String) : Prop where
  plain : Text.isPlainIdentifier text.toList = true
  bare : Dialect.generic.quoteIdentifier text = text
  dotless : '.' ∉ text.toList

/-- A plain identifier is usable: every dialect writes it bare, and it has no dot. -/
theorem isUsable_of_isPlainIdentifier {text : String}
    (h : Text.isPlainIdentifier text.toList = true) : IsUsable text where
  plain := h
  bare := by
    show String.ofList (Dialect.quotedIfNeeded text.toList) = text
    rw [Dialect.quotedIfNeeded, if_pos h, String.ofList_toList]
  dotless := by
    intro hdot
    have hpart := List.all_eq_true.mp (Text.all_isIdentifierPart_of_isPlainIdentifier h) '.' hdot
    exact absurd hpart (by decide)

namespace AliasIssuer

/-- Prefix, number and what is left of a table's name make a plain identifier. -/
theorem isPlainIdentifier_aliasChars {start : List Char} (h : Text.isPlainIdentifier start = true)
    (number : Nat) (table : List Char) :
    Text.isPlainIdentifier (aliasChars start number table) = true := by
  cases start with
  | nil => exact nomatch h
  | cons c start =>
    obtain ⟨hstart, hrest⟩ := Bool.and_eq_true_iff.mp h
    have hdigits : (Nat.toDigits 10 number).all Text.isIdentifierPart = true :=
      List.all_eq_true.mpr fun _ hc => isIdentifierPart_of_isDigit (isDigit_of_mem_toDigits hc)
    have hunderscore : Text.isIdentifierPart '_' = true := rfl
    rw [aliasChars, List.cons_append, List.cons_append, Text.isPlainIdentifier, hstart,
      List.all_append, List.all_append, List.all_cons, hrest, hdigits, hunderscore,
      all_identifierSafe]
    rfl

/-- Under prefixes that are plain identifiers every alias is one. -/
theorem isUsable_of_mem_issue {a : AliasIssuer}
    (h : ∀ role, Text.isPlainIdentifier (a.prefixOf role).toList = true)
    {calls : List (String × Role)} {tableAlias : String} (halias : tableAlias ∈ (a.issue calls).1) :
    IsUsable tableAlias := by
  obtain ⟨i, hi⟩ := List.mem_iff_getElem?.mp halias
  rw [getElem?_issue] at hi
  obtain ⟨call, _, rfl⟩ := Option.map_eq_some_iff.mp hi
  apply isUsable_of_isPlainIdentifier
  rw [String.toList_ofList]
  exact isPlainIdentifier_aliasChars (h call.2) _ _

/-- The standard prefixes are plain identifiers. -/
theorem isPlainIdentifier_prefixOf_standard (role : Role) :
    Text.isPlainIdentifier (standard.prefixOf role).toList = true := by
  cases role <;> rfl

end AliasIssuer

/-- Prefixes that the check lets pass are plain identifiers. -/
theorem Settings.isPlainIdentifier_prefixOf {s : Settings} (h : s.check = .ok ()) (role : Role) :
    Text.isPlainIdentifier (s.aliasIssuer.prefixOf role).toList = true := by
  obtain ⟨hroot, hjoin⟩ := check_eq_ok_iff.mp h
  cases role with
  | root => exact hroot
  | joined => exact hjoin

/-! ## Aliases in restrictions -/

/-- A column without a dot is read back from behind its qualifier, dots in the qualifier or not. -/
theorem ColumnSpec.ofText_qualified (qualifier : String) {column : String}
    (h : '.' ∉ column.toList) : ofText (qualifier ++ "." ++ column) = ⟨some qualifier, column⟩ := by
  have htext : (qualifier ++ "." ++ column).toList = qualifier.toList ++ '.' :: column.toList := by
    simp
  rw [ofText, htext, Text.cutLast_append_cons h]
  simp

namespace JoinGraph

/-- Written as the text, a side of a restriction is on the column of the node: in every join to the
graph, on either side, and wherever the other side is. So it is pinned to that column in every
reference that comes of a join. -/
structure Reaches (g : JoinGraph) (text : String) (p : PlacedNode) (column : String) : Prop where
  read : (ColumnSpec.ofText text).column = column
  localSide : ∀ (n : Node) (home : PlacedNode), (g.pending n).1.locate home (.ofText text) = .ok p
  remoteSide : ∀ (n : Node) (child parent near : PlacedNode),
    (g.pending n).1.locateRemote child parent near (.ofText text) = .ok p
  pinned : ∀ (aliases : AliasIssuer) (parent : Nat) (spec : JoinSpec) (i : Nat),
    (g.join aliases parent spec).1.outcome = .ok i →
    ∃ l, (g.join aliases parent spec).1.graph.incoming? i = some l ∧
      l.reference.pinned.length = spec.restrictions.length ∧
      ∀ q ∈ spec.restrictions.zip l.reference.pinned,
        (q.1.localSide = .ofText text → q.2.localSide = p.column column) ∧
        (q.1.remoteSide = .ofText text → q.2.remoteSide = p.column column)

/-- With distinct aliases a node has its alias alone, but for the node about to be joined, which does
not count. -/
theorem Inv.aliased_pending {g : JoinGraph} (h : g.Inv) (hd : g.DistinctAliases) {p : PlacedNode}
    (hp : g.node? p.2 = some p.1) (n : Node) :
    (g.pending n).1.Aliased g.size p.1.tableAlias p := by
  have hne : p.2 ≠ g.size := Nat.ne_of_lt (lt_size_of_node? hp)
  refine ⟨by rw [node?_pending_of_ne hne, hp], rfl, fun q hq hqname hqne => ⟨hne, ?_⟩⟩
  rw [node?_pending_of_ne hqne] at hq
  have hindex := (h.nodeByAlias?_eq_some_iff hd).mpr ⟨q.1, hq, hqname⟩
  rw [(h.nodeByAlias?_eq_some_iff hd).mpr ⟨p.1, hp, rfl⟩, Option.some.injEq] at hindex
  exact Nat.le_of_eq hindex.symm

/-- The restrictions of a reference are pinned as they were while its node was about to be joined. -/
theorem Inv.pin_of_join {g : JoinGraph} (h : g.Inv) {aliases : AliasIssuer} {parent i : Nat}
    {spec : JoinSpec} (hok : (g.join aliases parent spec).1.outcome = .ok i) :
    ∃ n p l, (g.join aliases parent spec).1.graph.incoming? i = some l ∧
      l.reference.pinned.length = spec.restrictions.length ∧
      ∀ q ∈ spec.restrictions.zip l.reference.pinned,
        (g.pending n).1.pin (n, g.size) p q.1 = .ok q.2 := by
  have hinv := inv_join h aliases parent spec
  rcases join_of_inv h aliases parent spec with ⟨e, hjoin⟩ | ⟨p, n, pinned, hp, _, hpinned, hjoin⟩
  · rw [hjoin] at hok
    exact nomatch hok
  · rw [hjoin] at hok hinv ⊢
    obtain ⟨hposition, hpos, _⟩ := checkJoin_eq_ok_iff.mp hp
    rw [← hpos] at hposition
    rw [← Except.ok.inj hok]
    exact ⟨n, p, _, h.incoming?_grown hposition hinv, (length_eq_of_map_eq_map_ok hpinned).symm,
      eq_ok_of_mem_zip hpinned⟩

/-- The alias of a node, a dot and one of its columns reach the node. -/
theorem Inv.reaches {g : JoinGraph} (h : g.Inv) (hd : g.DistinctAliases) {p : PlacedNode}
    (hp : g.node? p.2 = some p.1) {column : String} (hcolumn : p.1.entity.hasColumn column = true)
    (hdot : '.' ∉ column.toList) : g.Reaches (p.1.tableAlias ++ "." ++ column) p column := by
  have hread := ColumnSpec.ofText_qualified p.1.tableAlias hdot
  have hlocate (n : Node) (home : PlacedNode) :
      (g.pending n).1.locate home (.ofText (p.1.tableAlias ++ "." ++ column)) = .ok p := by
    have halias := h.byAlias?_eq_some_iff.mpr (h.aliased_pending hd hp n)
    rw [hread]
    exact (locate_eq_ok_of_some rfl).mpr ⟨named_eq_ok_iff.mpr (.inl halias), hcolumn⟩
  have hremote (n : Node) (child parent near : PlacedNode) :
      (g.pending n).1.locateRemote child parent near
        (.ofText (p.1.tableAlias ++ "." ++ column)) = .ok p := by
    rw [locateRemote, if_neg (by simp [hread])]
    exact hlocate n parent
  refine ⟨by rw [hread], hlocate, hremote, fun aliases parent spec i hok => ?_⟩
  obtain ⟨n, q, l, hl, hlength, hpins⟩ := h.pin_of_join hok
  refine ⟨l, hl, hlength, fun s hs => ?_⟩
  obtain ⟨near, far, hnear, hfar, _, hpinned⟩ := pin_eq_ok_iff.mp (hpins s hs)
  constructor
  · intro hside
    rw [hside, hlocate] at hnear
    rw [hpinned, hside, hread, Except.ok.inj hnear]
  · intro hside
    rw [hside, hremote] at hfar
    rw [hpinned, hside, hread, Except.ok.inj hfar]

end JoinGraph

/-- Graphs that are built side by side have distinct aliases if their issuer issues no alias
twice. -/
theorem Workshop.distinctAliases_of_nodup {a : AliasIssuer}
    (h : ∀ calls, (a.issue calls).1.Nodup) {steps : List BuildStep} {g : JoinGraph}
    (hg : g ∈ ((ofIssuer a).run steps).2.graphs) : g.DistinctAliases := by
  obtain ⟨more, hmore, hperm⟩ := tableAliases_run (w := ofIssuer a)
    (fun g hg => absurd hg List.not_mem_nil) steps
  have hnodup : ((ofIssuer a).run steps).2.tableAliases.Nodup :=
    hperm.nodup_iff.mpr ((h _).sublist hmore)
  exact (List.nodup_flatMap.mp hnodup).1 g hg

/-- Whatever tables are called, their aliases are plain identifiers under the standard prefixes and
under those of accepted settings. An issuer that issues no alias twice gives graphs distinct aliases;
and in every graph with distinct aliases, however its relations and tables are called, the alias of
a node, a dot and a column of it lead further joins to that column. -/
theorem aliases_usable :
    (∀ a : AliasIssuer, (a = .standard ∨ ∃ s : Settings, s.check = .ok () ∧ a = s.aliasIssuer) →
      ∀ calls, ∀ tableAlias ∈ (a.issue calls).1, IsUsable tableAlias) ∧
    (∀ a : AliasIssuer, (∀ calls, (a.issue calls).1.Nodup) → ∀ steps,
      ∀ g ∈ ((Workshop.ofIssuer a).run steps).2.graphs, g.Reachable ∧ g.DistinctAliases) ∧
    ∀ g : JoinGraph, g.Reachable → g.DistinctAliases →
      ∀ (i : Nat) (n : Node) (column : String), g.node? i = some n →
        n.entity.hasColumn column = true → '.' ∉ column.toList →
        g.Reaches (n.tableAlias ++ "." ++ column) (n, i) column := by
  refine ⟨?_, ?_, ?_⟩
  · rintro a (rfl | ⟨s, hs, rfl⟩) calls tableAlias halias
    · exact AliasIssuer.isUsable_of_mem_issue AliasIssuer.isPlainIdentifier_prefixOf_standard halias
    · exact AliasIssuer.isUsable_of_mem_issue (Settings.isPlainIdentifier_prefixOf hs) halias
  · intro a ha steps g hg
    exact ⟨Workshop.reachable_run (fun g hg => absurd hg List.not_mem_nil) steps g hg,
      Workshop.distinctAliases_of_nodup ha hg⟩
  · intro g hg hd i n column hn hcolumn hdot
    exact @JoinGraph.Inv.reaches g hg.inv hd (n, i) hn column hcolumn hdot

namespace Warehouse

/-- Widgets with parts that go by the alias of the widgets, and with a table that is called so. -/
def impostors : JoinGraph :=
  let first := AliasIssuer.standard.next "widgets" .root
  let second := (JoinGraph.ofRoot (JoinGraph.rootOf widgets first.1)).join first.2 0 {
    entity := parts, kind := .left, relation := some "t1_widgets"
    restrictions := [⟨.equals, .ofText "id", .ofText "part_id"⟩] }
  (second.1.graph.join second.2 0 {
    entity := (Entity.ofTable "t1_widgets").withColumn "name" .text, kind := .left
    relation := some "copies"
    restrictions := [⟨.equals, .ofText "name", .ofText "t1_widgets.name"⟩] }).1.graph

theorem reachable_impostors : impostors.Reachable :=
  .join _ _ _ (.join _ _ _ (@JoinGraph.Reachable.start .standard widgets _ rfl))

/-- Usable aliases from odd table names, and a graph whose tables go by names that look like
aliases. -/
theorem aliases_usable_impostors :
    letterSettings.check = .ok () ∧
      (letterSettings.aliasIssuer.issue [("", .root), ("store.größe", .joined)]).1 =
        ["t1_", "t1a2_store_gr__e"] ∧ IsUsable "t1_" ∧ IsUsable "t1a2_store_gr__e" ∧
      (∀ calls, (zeroIssuer.issue calls).1.Nodup) ∧
      (∀ g ∈ ((Workshop.ofIssuer zeroIssuer).run steps).2.graphs, g.DistinctAliases) ∧
      impostors.Reachable ∧ impostors.DistinctAliases ∧ impostors.size = 3 ∧
      ∃ n, impostors.node? 0 = some n ∧ n.tableAlias = "t1_widgets" ∧
        impostors.Reaches "t1_widgets.name" (n, 0) "name" := by
  obtain ⟨husable, hdistinct, hreaches⟩ := aliases_usable
  have hcheck : letterSettings.check = .ok () := by decide
  have hissued : (letterSettings.aliasIssuer.issue [("", .root), ("store.größe", .joined)]).1 =
      ["t1_", "t1a2_store_gr__e"] := by decide +kernel
  have hletters := husable letterSettings.aliasIssuer (.inr ⟨letterSettings, hcheck, rfl⟩)
    [("", .root), ("store.größe", .joined)]
  rw [hissued] at hletters
  have hnodup := AliasIssuer.nodup_issue separated_zeroIssuer.apart
  have hd : impostors.DistinctAliases := by decide +kernel
  have hsize : impostors.size = 3 := by decide +kernel
  have hwidgets : impostors.node? 0 = some (JoinGraph.rootOf widgets "t1_widgets") := by
    decide +kernel
  exact ⟨hcheck, hissued, hletters _ (by simp), hletters _ (by simp), hnodup,
    fun g hg => (hdistinct zeroIssuer hnodup steps g hg).2, reachable_impostors, hd, hsize, _,
    hwidgets, rfl,
    hreaches impostors reachable_impostors hd 0 _ "name" hwidgets (by decide +kernel) (by decide)⟩

-- the last join speaks of the widgets
example : (impostors.incoming? 2).map (·.reference.pinned) =
    some [⟨.equals, ⟨2, "name"⟩, ⟨0, "name"⟩⟩] := by
  decide +kernel

end Warehouse

end Joinery
