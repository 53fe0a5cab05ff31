import WineRedRose.Tokens.Filter
import WineRedRose.Sync.FsyncSemaphore
import WineRedRose.Registry.Values
import WineRedRose.Registry.Flush
import WineRedRose.Registry.Subtrees
import WineRedRose.Fsync.Refinement
import WineRedRose.Fsync.Rollback
import WineRedRose.Pipes.Delivery
import WineRedRose.Asyncs.LiveFd
import WineRedRose.Completions.Orderly
import WineRedRose.Views.Exact
import WineRedRose.Time.Fields
import WineRedRose.Der.Integers
import WineRedRose.Decimals.Rounding
import WineRedRose.Handles.Runs
import WineRedRose.Lookup.Creation
import WineRedRose.Lookup.Finishing
import WineRedRose.RegText.Values
import WineRedRose.Regions.Canonical
import WineRedRose.Regions.Requests
import WineRedRose.Tokens.Maximum
import WineRedRose.Tokens.DefaultDacl
import WineRedRose.Sections.Committed
import WineRedRose.Views.ReservedAreas
import WineRedRose.Views.Protections
import WineRedRose.Queues.Word
import WineRedRose.Processes.StartupInfo
import WineRedRose.TimerQueues.Deletion
import WineRedRose.Paths.MatchSpec
