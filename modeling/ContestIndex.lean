import ContestIndex.Results.MatchDuplicates
import ContestIndex.Results.MultisetRefinement
import ContestIndex.Results.FailedCalls
import ContestIndex.Results.Atomicity
import ContestIndex.Results.Registry
import ContestIndex.Results.RangeQuery
import ContestIndex.Results.InUse
import ContestIndex.Results.Dependents
import ContestIndex.Results.Resolution
import ContestIndex.Results.Catalogue
import ContestIndex.Results.ReadBack
import ContestIndex.Results.LifeCycle
import ContestIndex.Results.OpenHandles
import ContestIndex.Schemes.Linearization
import ContestIndex.Results.Linearizability
import ContestIndex.Results.Terminator
import ContestIndex.Results.Deadlock
import ContestIndex.Results.Positions
import ContestIndex.Results.HandleSets
import ContestIndex.Results.CloseLoop
import ContestIndex.Results.Assertions
import ContestIndex.Results.KeyEncoding
import ContestIndex.Results.KeyOrder
import ContestIndex.Results.HelpText
import ContestIndex.Results.MaximumKey
import ContestIndex.Results.Keystore
import ContestIndex.Results.Sessions
import ContestIndex.Results.QueryShape
import ContestIndex.Results.Races
import ContestIndex.Results.Clients
