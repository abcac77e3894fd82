import Joinery.Graph.Workshop
import Joinery.Settings.Load
import Joinery.View.Load
import Joinery.Proofs.Graph.Invariant
import Joinery.Proofs.Graph.Coherence
import Joinery.Proofs.Graph.Touching
import Joinery.Proofs.Graph.Atomicity
import Joinery.Proofs.Graph.Growth
import Joinery.Proofs.Graph.Resolution
import Joinery.Proofs.Alias.Collisions
import Joinery.Proofs.Alias.Uniqueness
import Joinery.Proofs.Alias.Renaming
import Joinery.Proofs.Alias.RenamedSteps
import Joinery.Proofs.Alias.Cosmetics
import Joinery.Proofs.Alias.Usability
import Joinery.Proofs.Settings.Prefixes
import Joinery.Proofs.Compiler.Completeness
import Joinery.Proofs.Compiler.Scoping
import Joinery.Proofs.Compiler.Lossless
import Joinery.Proofs.Compiler.FirstClaims
import Joinery.Proofs.Compiler.Clauses
import Joinery.Proofs.Text.Words
import Joinery.Proofs.Sql.Lexing
import Joinery.Proofs.Sql.Reading
import Joinery.Proofs.Sql.Statements
import Joinery.Proofs.Sql.Keywords
import Joinery.Proofs.Sql.Layouts
import Joinery.Proofs.Sql.Literals
import Joinery.Proofs.Sql.Alike
import Joinery.Proofs.Sql.Regrouping
import Joinery.Proofs.Sql.Precedence
import Joinery.Proofs.Sql.JoinKinds
import Joinery.Proofs.Sql.Concatenation
import Joinery.Proofs.Sql.Compact
import Joinery.Proofs.Sql.Quoting
import Joinery.Proofs.View.Entities
import Joinery.Proofs.View.Sources
import Joinery.Proofs.View.Keys
import Joinery.Proofs.View.Loading
import Joinery.Proofs.View.Relations
import Joinery.Proofs.View.Names
import Joinery.Proofs.View.NaturalJoins
import Joinery.Proofs.View.Seeding
import Joinery.Proofs.View.Contributions
import Joinery.Proofs.View.Transparency
import Joinery.Proofs.View.Publishing
