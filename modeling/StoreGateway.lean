import StoreGateway.Batch.Executor
import StoreGateway.Batch.Operation
import StoreGateway.Batch.Result
import StoreGateway.Batch.Selection
import StoreGateway.Batch.UndoLog
import StoreGateway.Batch.Verb
import StoreGateway.CommandLine.Archive
import StoreGateway.CommandLine.Command
import StoreGateway.CommandLine.Fault
import StoreGateway.CommandLine.Listing
import StoreGateway.CommandLine.Options
import StoreGateway.CommandLine.Paint
import StoreGateway.CommandLine.Run
import StoreGateway.CommandLine.Usage
import StoreGateway.CommandLine.Workspace
import StoreGateway.Compile.Coercion
import StoreGateway.Compile.Document
import StoreGateway.Compile.Entity
import StoreGateway.Compile.Plan
import StoreGateway.Compile.Query
import StoreGateway.Config.Basic
import StoreGateway.Config.Json
import StoreGateway.Dialect
import StoreGateway.Document.Basic
import StoreGateway.Document.Query
import StoreGateway.Document.Select
import StoreGateway.Document.Store
import StoreGateway.Field
import StoreGateway.Filter.Basic
import StoreGateway.Filter.Evaluation
import StoreGateway.Filter.Fault
import StoreGateway.Filter.Literal
import StoreGateway.Filter.Params
import StoreGateway.Filter.Parser
import StoreGateway.Filter.Token
import StoreGateway.Gateway.Basic
import StoreGateway.Gateway.Request
import StoreGateway.Json.Lexeme
import StoreGateway.Json.Number
import StoreGateway.Json.Reader
import StoreGateway.Json.Skip
import StoreGateway.Json.Value
import StoreGateway.Json.Writer
import StoreGateway.Kind
import StoreGateway.Main
import StoreGateway.Number.Binary64
import StoreGateway.Number.Decimal
import StoreGateway.Number.Shortest
import StoreGateway.Proofs.AbsentFields
import StoreGateway.Proofs.Addressed
import StoreGateway.Proofs.AddressedRequests
import StoreGateway.Proofs.AllOrNothing
import StoreGateway.Proofs.Answers
import StoreGateway.Proofs.AppliedItems
import StoreGateway.Proofs.AtomicBatches
import StoreGateway.Proofs.BatchRun
import StoreGateway.Proofs.BatchSequences
import StoreGateway.Proofs.BatchUndo
import StoreGateway.Proofs.ClauseWords
import StoreGateway.Proofs.Clauses
import StoreGateway.Proofs.Coerced
import StoreGateway.Proofs.Compensation
import StoreGateway.Proofs.Conjunction
import StoreGateway.Proofs.Continuing
import StoreGateway.Proofs.DefaultPartition
import StoreGateway.Proofs.DocumentAnswers
import StoreGateway.Proofs.DocumentIdentities
import StoreGateway.Proofs.DocumentMeaning
import StoreGateway.Proofs.DocumentReads
import StoreGateway.Proofs.DocumentUndo
import StoreGateway.Proofs.Embedding
import StoreGateway.Proofs.EntityMeaning
import StoreGateway.Proofs.Equality
import StoreGateway.Proofs.FailedCalls
import StoreGateway.Proofs.Faultless
import StoreGateway.Proofs.FaultyStore
import StoreGateway.Proofs.Fetched
import StoreGateway.Proofs.FieldsAndOrder
import StoreGateway.Proofs.Grammar
import StoreGateway.Proofs.GuardedRequests
import StoreGateway.Proofs.Identities
import StoreGateway.Proofs.Integers
import StoreGateway.Proofs.ItemRuns
import StoreGateway.Proofs.JoinedClauses
import StoreGateway.Proofs.KeptRecords
import StoreGateway.Proofs.KeyBlocks
import StoreGateway.Proofs.KeyLists
import StoreGateway.Proofs.Languages
import StoreGateway.Proofs.Lexing
import StoreGateway.Proofs.Lifecycle
import StoreGateway.Proofs.LiteralTokens
import StoreGateway.Proofs.Literals
import StoreGateway.Proofs.LookedUpItems
import StoreGateway.Proofs.Meaning
import StoreGateway.Proofs.MixedKinds
import StoreGateway.Proofs.NativeTexts
import StoreGateway.Proofs.Nearest
import StoreGateway.Proofs.NormalForm
import StoreGateway.Proofs.NumberTexts
import StoreGateway.Proofs.OneByOne
import StoreGateway.Proofs.Operands
import StoreGateway.Proofs.OrderedReads
import StoreGateway.Proofs.OrderedRecords
import StoreGateway.Proofs.Outcomes
import StoreGateway.Proofs.OwnTerms
import StoreGateway.Proofs.PatternRanges
import StoreGateway.Proofs.Patterns
import StoreGateway.Proofs.Phrase
import StoreGateway.Proofs.Pieces
import StoreGateway.Proofs.Placeholders
import StoreGateway.Proofs.ReadValues
import StoreGateway.Proofs.Readback
import StoreGateway.Proofs.Recompiled
import StoreGateway.Proofs.Records
import StoreGateway.Proofs.References
import StoreGateway.Proofs.Refusals
import StoreGateway.Proofs.RefusedCalls
import StoreGateway.Proofs.Reports
import StoreGateway.Proofs.Rereading
import StoreGateway.Proofs.Rollback
import StoreGateway.Proofs.Rounding
import StoreGateway.Proofs.RowKeys
import StoreGateway.Proofs.Runs
import StoreGateway.Proofs.ServerConditions
import StoreGateway.Proofs.Shape
import StoreGateway.Proofs.SingleAnswers
import StoreGateway.Proofs.Sorting
import StoreGateway.Proofs.Spans
import StoreGateway.Proofs.StatementReads
import StoreGateway.Proofs.StoredRecords
import StoreGateway.Proofs.TableUndo
import StoreGateway.Proofs.Traces
import StoreGateway.Proofs.Undo
import StoreGateway.Proofs.Views
import StoreGateway.Proofs.WrittenPlans
import StoreGateway.Reading
import StoreGateway.RequestError
import StoreGateway.SortOrder
import StoreGateway.Store.Backend
import StoreGateway.Store.Clock
import StoreGateway.Store.Fault
import StoreGateway.Store.Key
import StoreGateway.Store.Observed
import StoreGateway.Table.Store
import StoreGateway.Text.Alphanumeric
import StoreGateway.Text.Ascii
import StoreGateway.Text.Blank
import StoreGateway.Text.Cased
import StoreGateway.Text.LowerCase
import StoreGateway.Text.Runs
import StoreGateway.Text.Search
