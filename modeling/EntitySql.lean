import EntitySql.Execution.Writer
import EntitySql.Json.Reading
import EntitySql.MySql.Connection
import EntitySql.Composer
import EntitySql.Schema.Registry
import EntitySql.Proofs.Build
import EntitySql.Proofs.ConditionMeaning
import EntitySql.Proofs.Placeholders
import EntitySql.Proofs.Variants
import EntitySql.Proofs.UniformBuild
import EntitySql.Proofs.UniformText
import EntitySql.Proofs.ShapeText
import EntitySql.Proofs.UpdateScript
import EntitySql.Proofs.ScriptText
import EntitySql.Proofs.UpdatedRows
import EntitySql.Proofs.RecordWrites
import EntitySql.Proofs.KeyedUpdates
import EntitySql.Proofs.Aliases
import EntitySql.Proofs.RowCounts
import EntitySql.Proofs.RowQuery
import EntitySql.Proofs.RowQueryGrammar
import EntitySql.Proofs.RowQueryMeaning
import EntitySql.Proofs.Success
import EntitySql.Proofs.JoinScopes
import EntitySql.Proofs.WrittenMembers
import EntitySql.Proofs.PreparedStatements
import EntitySql.Proofs.SelectedColumns
import EntitySql.Proofs.WriteAliases
import EntitySql.Proofs.DialectAgreement
import EntitySql.Proofs.Terminals
import EntitySql.Proofs.Pages
import EntitySql.Proofs.PlainAliases
import EntitySql.Proofs.ComposerHistory
import EntitySql.Proofs.AcceptedConditions
import EntitySql.Proofs.RecoveredClauses
import EntitySql.Proofs.SelfJoinSides
import EntitySql.Proofs.PageOrders
import EntitySql.Proofs.TextSearches
import EntitySql.Proofs.SentParts
import EntitySql.Proofs.PositionalScan
import EntitySql.Proofs.FoldedRows
import EntitySql.Proofs.JoinAliases
import EntitySql.Proofs.QuotedStatements
import EntitySql.Proofs.WholeDecimals
import EntitySql.Proofs.RememberedEntities
import EntitySql.Proofs.CheckedEntities
import EntitySql.Proofs.ResultColumns
import EntitySql.Proofs.ParameterNames
