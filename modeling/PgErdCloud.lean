import PgErdCloud.Api.Noninterference
import PgErdCloud.Api.Share
import PgErdCloud.Api.Snapshots
import PgErdCloud.Api.Store
import PgErdCloud.Auth.ApiKeys
import PgErdCloud.Auth.Csrf
import PgErdCloud.Auth.JwksCache
import PgErdCloud.Auth.Revocation
import PgErdCloud.Auth.Tokens
import PgErdCloud.Auth.UserCache
import PgErdCloud.Canvas.Cardinality
import PgErdCloud.Canvas.Dictionary
import PgErdCloud.Canvas.DictionaryMarkdown
import PgErdCloud.Canvas.EditSession
import PgErdCloud.Canvas.Editor
import PgErdCloud.Canvas.Exporters
import PgErdCloud.Canvas.ForeignKeys
import PgErdCloud.Canvas.Graph
import PgErdCloud.Canvas.HandleIds
import PgErdCloud.Canvas.IndexExport
import PgErdCloud.Canvas.InferTargets
import PgErdCloud.Canvas.InferTwice
import PgErdCloud.Canvas.Integrity
import PgErdCloud.Canvas.Mermaid
import PgErdCloud.Canvas.NodeView
import PgErdCloud.Canvas.Prisma
import PgErdCloud.Canvas.SnapshotEdges
import PgErdCloud.Canvas.TableShape
import PgErdCloud.Dbml.ColumnLines
import PgErdCloud.Dbml.Consistency
import PgErdCloud.Dbml.Content
import PgErdCloud.Dbml.ForeignKeys
import PgErdCloud.Dbml.Headers
import PgErdCloud.Dbml.LineFacts
import PgErdCloud.Dbml.Notes
import PgErdCloud.Dbml.Parse
import PgErdCloud.Dbml.PlainTables
import PgErdCloud.Dbml.Syntax
import PgErdCloud.Ddl.Agreement
import PgErdCloud.Ddl.Comments
import PgErdCloud.Ddl.Concurrently
import PgErdCloud.Ddl.Containment
import PgErdCloud.Ddl.Export
import PgErdCloud.Ddl.ExportFacts
import PgErdCloud.Ddl.Kinds
import PgErdCloud.Ddl.Migration
import PgErdCloud.Ddl.MigrationCatalog
import PgErdCloud.Ddl.MigrationContainment
import PgErdCloud.Ddl.MigrationEffect
import PgErdCloud.Ddl.MigrationFacts
import PgErdCloud.Ddl.Mirror
import PgErdCloud.Ddl.NameContainment
import PgErdCloud.Ddl.OidIndependence
import PgErdCloud.Ddl.RiskCoverage
import PgErdCloud.Ddl.Safety
import PgErdCloud.Ddl.SnapshotCatalog
import PgErdCloud.Ddl.TypeAgreement
import PgErdCloud.Ddl.TypeRoundtrip
import PgErdCloud.Ddl.Types
import PgErdCloud.Ddl.WeaklyTyped
import PgErdCloud.Diff.Antisymmetry
import PgErdCloud.Diff.Completeness
import PgErdCloud.Diff.IndexFacts
import PgErdCloud.Diff.Logical
import PgErdCloud.Diff.SchemaDiff
import PgErdCloud.Diff.Snapshot
import PgErdCloud.ForwardDdl.Batch
import PgErdCloud.ForwardDdl.CreateIndex
import PgErdCloud.ForwardDdl.Roundtrip
import PgErdCloud.ForwardDdl.Subset
import PgErdCloud.ForwardDdl.Validate
import PgErdCloud.Integrations.Clearfolio
import PgErdCloud.Integrations.Verification
import PgErdCloud.Introspect.Catalog
import PgErdCloud.Introspect.DsnGuard
import PgErdCloud.Introspect.DsnPort
import PgErdCloud.Introspect.DsnSafety
import PgErdCloud.Introspect.ScriptIndexes
import PgErdCloud.Introspect.ScriptOrder
import PgErdCloud.Jobs.AtMostOnce
import PgErdCloud.Jobs.Consistency
import PgErdCloud.Jobs.Lifecycle
import PgErdCloud.Jobs.Orphans
import PgErdCloud.Jobs.Queue
import PgErdCloud.Jobs.SnapshotJob
import PgErdCloud.Jobs.Survival
import PgErdCloud.Jobs.Worker
import PgErdCloud.Lib.Base64
import PgErdCloud.Lib.Csv
import PgErdCloud.Lib.Cut
import PgErdCloud.Lib.Dict
import PgErdCloud.Lib.DictLoops
import PgErdCloud.Lib.Exclusive
import PgErdCloud.Lib.Fallible
import PgErdCloud.Lib.Firsts
import PgErdCloud.Lib.Hex
import PgErdCloud.Lib.JsStr
import PgErdCloud.Lib.Json
import PgErdCloud.Lib.Lines
import PgErdCloud.Lib.Loop
import PgErdCloud.Lib.Machine
import PgErdCloud.Lib.Markdown
import PgErdCloud.Lib.Masking
import PgErdCloud.Lib.Nesting
import PgErdCloud.Lib.ParenList
import PgErdCloud.Lib.PyGrammar
import PgErdCloud.Lib.PyInt
import PgErdCloud.Lib.PyLex
import PgErdCloud.Lib.PyStr
import PgErdCloud.Lib.PyValue
import PgErdCloud.Lib.Reach
import PgErdCloud.Lib.Regex
import PgErdCloud.Lib.RegexReads
import PgErdCloud.Lib.RegexRun
import PgErdCloud.Lib.RegexWords
import PgErdCloud.Lib.Relational
import PgErdCloud.Lib.Reservation
import PgErdCloud.Lib.Script
import PgErdCloud.Lib.SqlIdent
import PgErdCloud.Lib.SqlLex
import PgErdCloud.Lib.SqlStatements
import PgErdCloud.Lib.SqlTokens
import PgErdCloud.Lib.Trim
import PgErdCloud.Lib.Url
import PgErdCloud.Lib.Utf8
import PgErdCloud.Lib.Words
import PgErdCloud.Mysql.ForeignKeys
import PgErdCloud.Mysql.Introspect
import PgErdCloud.Mysql.Names
import PgErdCloud.Projects.Members
import PgErdCloud.Projects.Ownership
import PgErdCloud.RateLimit.Exact
import PgErdCloud.RateLimit.Limiter
import PgErdCloud.RateLimit.RetryAfter
import PgErdCloud.Redaction.Dsn
import PgErdCloud.Redaction.Idempotent
import PgErdCloud.Routing.PoolerDetection
import PgErdCloud.Snowflake.Introspect
import PgErdCloud.Snowflake.Keys
import PgErdCloud.Spec.DataDictionary
import PgErdCloud.Spec.FkCycleReport
import PgErdCloud.Spec.FkCycles
import PgErdCloud.Spec.IndexCandidates
import PgErdCloud.Spec.IndexDefinition
import PgErdCloud.Spec.IndexDesign
import PgErdCloud.Spec.IndexRedundancy
import PgErdCloud.Spec.IndexSafety
import PgErdCloud.Spec.IndexSoundness
import PgErdCloud.Spec.Inference
import PgErdCloud.Spec.InferenceMatches
import PgErdCloud.Spec.InferenceOrder
import PgErdCloud.Spec.InferenceSoundness
import PgErdCloud.Spec.OrmCodegen
import PgErdCloud.Spec.OrmDistinct
import PgErdCloud.Spec.OrmLines
import PgErdCloud.Spec.OrmNames
import PgErdCloud.Spec.OrmParses
import PgErdCloud.Spec.OrmRows
import PgErdCloud.Spec.ParenGroup
import PgErdCloud.Spec.PrismaFields
import PgErdCloud.Spec.Reversing
import PgErdCloud.Spec.SearchInvariant
import PgErdCloud.Spec.Snapshot
import PgErdCloud.Spec.TablesIntact
import PgErdCloud.Spec.Tarjan
import PgErdCloud.Storage.Sanitize
