import TableQuery.Main
import TableQuery.Query.Item
import TableQuery.Table.Catalog
import TableQuery.Table.Document
import TableQuery.Table.Written
import TableQuery.Proofs.Command.Params
import TableQuery.Proofs.Command.Start
import TableQuery.Proofs.Query.Composed
import TableQuery.Proofs.Query.Given
import TableQuery.Proofs.Query.Items
import TableQuery.Proofs.Query.Kinds
import TableQuery.Proofs.Query.Literals
import TableQuery.Proofs.Query.Pairs
import TableQuery.Proofs.Query.Seams
import TableQuery.Proofs.Table.Repeated
import TableQuery.Proofs.Table.RoundTrip
import TableQuery.Proofs.Table.Shared
import TableQuery.Proofs.Table.Statement
import TableQuery.Proofs.Table.Violations
import TableQuery.Proofs.Table.Declared
import TableQuery.Proofs.Table.Unambiguous
import TableQuery.Proofs.Query.WrittenBack
import TableQuery.Proofs.Query.Cuts
import TableQuery.Proofs.Decimal.Reread
