import AccessPolicy.Shelf
import AccessPolicy.Statement.Document
import AccessPolicy.Proofs.Choice.Text
import AccessPolicy.Proofs.Choice.Expansion
import AccessPolicy.Proofs.Choice.Budget
import AccessPolicy.Proofs.Glob.Fit
import AccessPolicy.Proofs.Glob.Expression
import AccessPolicy.Proofs.Shelf.Session
import AccessPolicy.Proofs.Shelf.Recency
import AccessPolicy.Proofs.Pattern.Acceptance
import AccessPolicy.Proofs.Statement.Dependence
import AccessPolicy.Proofs.Statement.Outcome
import AccessPolicy.Proofs.Pattern.Quiet
import AccessPolicy.Proofs.Placeholder.Template
import AccessPolicy.Proofs.Placeholder.Isolation
import AccessPolicy.Proofs.Placeholder.Leaves
import AccessPolicy.Proofs.Shelf.Reuse
import AccessPolicy.Proofs.Json.Lexing
import AccessPolicy.Proofs.Datum.Shape
import AccessPolicy.Proofs.Decimal.Finite
import AccessPolicy.Proofs.Json.Reading
import AccessPolicy.Proofs.Statement.Storage
import AccessPolicy.Proofs.Statement.Names
import AccessPolicy.Proofs.Statement.Comparison
import AccessPolicy.Proofs.Placeholder.Absent
import AccessPolicy.Proofs.Pattern.Verbatim
import AccessPolicy.Proofs.Placeholder.Literal
import AccessPolicy.Proofs.Pattern.Size
import AccessPolicy.Proofs.Pattern.Empty
import AccessPolicy.Proofs.Pattern.Trimming
import AccessPolicy.Proofs.Calendar.Order
import AccessPolicy.Proofs.Decimal.Digits
import AccessPolicy.Proofs.Placeholder.Substitution
import AccessPolicy.Proofs.Calendar.Comparison
import AccessPolicy.Proofs.Text.Squeeze
import AccessPolicy.Proofs.Placeholder.Tidied
import AccessPolicy.Proofs.Glob.Stars
import AccessPolicy.Proofs.Choice.Gluing
import AccessPolicy.Proofs.Text.Bytes
import AccessPolicy.Proofs.Choice.Bytewise
