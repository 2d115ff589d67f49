import Dinamite.Transition
import Dinamite.LeaseAllocator
import Dinamite.LeaseExactness
import Dinamite.Maps.JsonFile
import Dinamite.Maps.Json11
import Dinamite.Maps.Json11RoundTrip
import Dinamite.Maps.Json11Prefix
import Dinamite.Maps.ChunkPool
import Dinamite.Maps.PoolRefinement
import Dinamite.Maps.Processes
import Dinamite.Maps.Bindings
import Dinamite.Maps.Published
import Dinamite.Maps.Documented
import Dinamite.Maps.Uniqueness
import Dinamite.Maps.Accounting
import Dinamite.Maps.Interrupted
import Dinamite.Maps.LockedRuns
import Dinamite.BlockLog
import Dinamite.CursorLoop
import Dinamite.Instrument.AccessInstrument
import Dinamite.Instrument.Insertions
import Dinamite.Instrument.Survival
import Dinamite.Instrument.ControlFlow
import Dinamite.Instrument.Outcomes
import Dinamite.Instrument.Runs
import Dinamite.Instrument.Balance
import Dinamite.Instrument.Arguments
import Dinamite.Instrument.StoreKinds
import Dinamite.Instrument.CompiledTraces
import Dinamite.Instrument.WellTyped
import Dinamite.Instrument.Dominance
import Dinamite.Util.ExplorePath
import Dinamite.Util.LongestPath
import Dinamite.Util.OwnLines
import Dinamite.Glob
import Dinamite.Filter.InstrumentationFilter
import Dinamite.Filter.GlobMatch
import Dinamite.Filter.FunctionSizes
import Dinamite.Filter.FunctionDecision
import Dinamite.Instrument.MainEvents
import Dinamite.Instrument.AllocRecords
import Dinamite.Metadata.LookupKeys
import Dinamite.Metadata.TraverseCalls
import Dinamite.Trace.Completeness
import Dinamite.Trace.ThreadIds
import Dinamite.Trace.Writers
import Dinamite.Trace.ExcludedTids
import Dinamite.Fields
import Dinamite.Text.Summaries
import Dinamite.Text.Cycles
