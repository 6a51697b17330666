import DocQuery.Main
import DocQuery.Store.Staged
import DocQuery.Client.Methods
import DocQuery.Proofs.Filter.Outline
import DocQuery.Proofs.Number.Order
import DocQuery.Proofs.Value.WellFormed
import DocQuery.Proofs.Value.Equality
import DocQuery.Proofs.Query.Update
import DocQuery.Proofs.Store.Memory
import DocQuery.Proofs.Store.Updating
import DocQuery.Proofs.Store.Identity
import DocQuery.Proofs.Client.Terminal
import DocQuery.Proofs.Value.Reader
import DocQuery.Proofs.Value.Order
import DocQuery.Proofs.Query.SortOrder
import DocQuery.Proofs.Filter.Congruence
import DocQuery.Proofs.Filter.Nesting
import DocQuery.Proofs.Value.Leaves
import DocQuery.Proofs.Query.Projection
import DocQuery.Proofs.Filter.Clauses
import DocQuery.Proofs.Filter.Promotion
import DocQuery.Proofs.Query.Arrangement
import DocQuery.Proofs.Client.Finding
import DocQuery.Proofs.Store.Batch
import DocQuery.Proofs.Client.Building
import DocQuery.Proofs.Client.Confinement
import DocQuery.Proofs.Filter.Rendering
import DocQuery.Proofs.Client.Interleaving
import DocQuery.Proofs.Filter.Proper
import DocQuery.Proofs.Filter.Reading
import DocQuery.Proofs.Client.Grouping
import DocQuery.Proofs.Client.Agreement
import DocQuery.Proofs.Number.Exactness
import DocQuery.Proofs.Query.ListedPaths
import DocQuery.Proofs.Client.Secrecy
import DocQuery.Proofs.Store.Counting
import DocQuery.Proofs.Filter.Rearranging
import DocQuery.Proofs.Text.Words
import DocQuery.Proofs.Shell.Expression
import DocQuery.Proofs.Client.Address
import DocQuery.Proofs.Number.Decimal
import DocQuery.Proofs.Text.Digits
import DocQuery.Proofs.Number.Numeral
import DocQuery.Proofs.Value.Text
import DocQuery.Proofs.Value.RoundTrip
import DocQuery.Proofs.Shell.Written
import DocQuery.Proofs.Shell.Pattern
import DocQuery.Proofs.Query.SortKeys
import DocQuery.Proofs.Client.Creating
import DocQuery.Proofs.Client.Options
import DocQuery.Proofs.Value.Ties
import DocQuery.Proofs.Client.Environment
import DocQuery.Proofs.Shell.Options
import DocQuery.Proofs.Shell.Conditions
import DocQuery.Proofs.Shell.Explaining
