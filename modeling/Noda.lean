import Noda.Lib.Transition
import Noda.Lib.GoMap
import Noda.Lib.Duration
import Noda.Lib.Strconv
import Noda.Engine.Config
import Noda.Engine.Refs
import Noda.Lib.UnionFind
import Noda.Lib.Worklist
import Noda.Engine.Compiler
import Noda.Engine.Graph
import Noda.Engine.Context
import Noda.Engine.Depth
import Noda.Engine.Eviction
import Noda.Engine.Executor
import Noda.Engine.Trace
import Noda.Engine.Steps
import Noda.Engine.Local
import Noda.Engine.Invariants
import Noda.Engine.Scheduling
import Noda.Lib.Conflict
import Noda.Engine.Joins
import Noda.Engine.Exclusivity
import Noda.Engine.Result
import Noda.Engine.Confluence
import Noda.Engine.EvictionSafety
import Noda.Engine.SubWorkflow
import Noda.Engine.Transactions
import Noda.Lib.StreamGroup
import Noda.Worker.Runtime
import Noda.Worker.Safety
import Noda.Lib.Base64
import Noda.Lib.Scanf
import Noda.Auth.Crypto
import Noda.Lib.Sql
import Noda.Auth.Database
import Noda.Auth.Nodes
import Noda.Auth.Effects
import Noda.Auth.Passwords
import Noda.Auth.Tokens
import Noda.Auth.Minting
import Noda.Lib.Pool
import Noda.Http.Redirect
import Noda.Trace.Redact
import Noda.Server.Response
import Noda.Server.Casbin
import Noda.Server.Errors
import Noda.Db.QuerySafety
import Noda.Lifecycle.Manager
import Noda.Lifecycle.Budget
import Noda.Scheduler.Runtime
import Noda.Lib.SortBy
import Noda.Migrate.Runner
import Noda.Migrate.History
import Noda.Lib.TopoSort
import Noda.Lib.Assoc
import Noda.Lib.Ddl
import Noda.Generate.Models
import Noda.Generate.Scripts
import Noda.Generate.Schema
import Noda.Generate.Changes
import Noda.Generate.Tables
import Noda.Generate.Covered
import Noda.Generate.Created
import Noda.Generate.Joined
import Noda.Generate.Up
import Noda.Lib.Undo
import Noda.Generate.Undone
import Noda.Generate.Down
import Noda.Devmode.Reload
import Noda.Lib.Index
import Noda.Connmgr.Manager
import Noda.Lib.Utf8
import Noda.Connmgr.Sync
import Noda.Wasm.Async
import Noda.Wasm.Stop
import Noda.Wasm.Gateway
import Noda.Wasm.Timers
import Noda.Lib.Json
import Noda.Editor.Workflow
import Noda.Editor.Store
import Noda.Editor.RoundTrip
import Noda.Editor.Clipboard
import Noda.Config.Resolved
import Noda.Server.Middleware
import Noda.Registry.Validator
import Noda.Expr.Template
import Noda.Expr.Compiler
import Noda.Expr.Resolver
import Noda.Engine.References
import Noda.Engine.Parse
import Noda.Engine.Retry
import Noda.Engine.Edges
import Noda.Lib.Dfs
import Noda.Lib.DfsReports
import Noda.Config.WorkflowCycles
import Noda.Engine.Cycles
import Noda.Lib.JsonMap
import Noda.Config.Merge
import Noda.Lib.FilePath
import Noda.Pathutil.Root
import Noda.Upload.Handle
import Noda.Config.SchemaRegistry
import Noda.Config.SchemaNames
import Noda.Config.Refs
import Noda.Config.ResolveRefs
import Noda.Registry.ConfigSchema
import Noda.Registry.SchemaMeaning
import Noda.Lib.HashJoin
import Noda.Transform.Merge
import Noda.Lib.Cidr
import Noda.Netguard.Policy
import Noda.Http.Transport
import Noda.Lib.Rewrite
import Noda.Lib.Reader
import Noda.Lib.EventSource
import Noda.Lib.Fifo
import Noda.Connmgr.Pattern
import Noda.Connmgr.Sse
import Noda.Auth.Service
import Noda.Bounded.Queue
import Noda.Bounded.Consumer
import Noda.Connmgr.Writer
import Noda.Lib.KeepFirst
import Noda.Server.Groups
import Noda.Config.MiddlewareRefs
import Noda.Openapi.Generate
import Noda.Lib.Writes
import Noda.Generate.Crud
import Noda.Generate.CrudFits
import Noda.Editor.Events
import Noda.Editor.History
import Noda.Editor.SchemaInference
import Noda.Editor.LearnedSchemas
import Noda.Editor.Coverage
import Noda.Generate.CreateOrder
import Noda.Engine.Cache
import Noda.Config.Settings
import Noda.Config.CrossRefs
import Noda.Engine.Calls
import Noda.Auth.Sessions
import Noda.Auth.SessionSafety
import Noda.Registry.Services
import Noda.Registry.ServiceSafety
import Noda.Config.Substitute
import Noda.Devmode.Watcher
