import Skuld.Lib.Peg
import Skuld.Lib.BoolExpr
import Skuld.Label.Basic
import Skuld.Label.Grammar
import Skuld.Label.Tokens
import Skuld.Label.Words
import Skuld.Label.Language
import Skuld.Label.Format
import Skuld.Label.Filter
import Skuld.Label.Correctness
import Skuld.Coordination.Storage
import Skuld.Lib.Precedence
import Skuld.Lib.Transducer
import Skuld.Lib.Sql
import Skuld.Coordination.Database
import Skuld.Coordination.Depth
import Skuld.Coordination.Query
import Skuld.Lib.Transaction
import Skuld.Coordination.Statements
import Skuld.Lib.Loop
import Skuld.Lib.Dfs
import Skuld.Coordination.Publish
import Skuld.Fixture.Registry
import Skuld.Fixture.GraphCheck
import Skuld.Fixture.Closure
import Skuld.Fixture.Serial
import Skuld.Fixture.Runtime
import Skuld.Fixture.Ownership
import Skuld.Fixture.Effects
import Skuld.Fixture.Singletons
import Skuld.Fixture.Teardown
import Skuld.Macros.SerialExpr
import Skuld.Lib.Separated
import Skuld.Lib.Drops
import Skuld.Macros.TestBody
import Skuld.Runner.Collect
import Skuld.Macros.Arguments
import Skuld.Macros.TestDefinition
import Skuld.Runner.ModuleDefaults
import Skuld.Runner.Metadata
import Skuld.Lib.Buckets
import Skuld.Runner.Startup
import Skuld.Lib.Descriptors
import Skuld.Runner.Capture
import Skuld.Runner.Observability
import Skuld.CargoSkuld.Graph
import Skuld.Lib.UnionFind
import Skuld.CargoSkuld.Groups
import Skuld.Lib.Delimited
import Skuld.CargoSkuld.GroupNames
import Skuld.Lib.Transition
import Skuld.Coordination.World
import Skuld.Coordination.Exclusion
import Skuld.Coordination.Progress
import Skuld.Coordination.Scrub
import Skuld.Coordination.Migration
import Skuld.Coordination.Moved
import Skuld.Coordination.InitLock
import Skuld.Lib.Bfs
import Skuld.Coordination.DbDir
import Skuld.Coordination.Location
import Skuld.CargoSkuld.Emit
import Skuld.CargoSkuld.Collect
import Skuld.CargoSkuld.Generate
import Skuld.CargoSkuld.Schedule
import Skuld.Xtask.Version
import Skuld.Xtask.ReleaseCheck
import Skuld.Lib.Budget
import Skuld.Fixtures.TempDir
import Skuld.Lib.UndoLog
import Skuld.Fixtures.Cwd
import Skuld.Fixtures.Env
