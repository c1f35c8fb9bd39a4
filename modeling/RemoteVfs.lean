import RemoteVfs.Base.Program
import RemoteVfs.Base.Program.Rules
import RemoteVfs.Base.SortedSet
import RemoteVfs.Base.SortedMap
import RemoteVfs.Base.KeyedMap
import RemoteVfs.Base.FlatFile
import RemoteVfs.Base.LittleEndian
import RemoteVfs.Base.Protobuf
import RemoteVfs.Base.Prefixed
import RemoteVfs.Wire
import RemoteVfs.Wire.Encoding
import RemoteVfs.Types
import RemoteVfs.Pages
import RemoteVfs.Pages.Lemmas
import RemoteVfs.Pages.Evict
import RemoteVfs.Pages.Sound
import RemoteVfs.Pages.Flat
import RemoteVfs.Pages.Moves
import RemoteVfs.Pages.Store
import RemoteVfs.Pages.Progress
import RemoteVfs.Pages.Calls
import RemoteVfs.Pages.Journal
import RemoteVfs.Pages.Formed
import RemoteVfs.Pages.Recency
import RemoteVfs.Env
import RemoteVfs.Client
import RemoteVfs.Client.Frames
import RemoteVfs.Identity
import RemoteVfs.Loads
import RemoteVfs.Local
import RemoteVfs.Local.Thread
import RemoteVfs.Database
import RemoteVfs.Local.Calls
import RemoteVfs.Session.Calls
import RemoteVfs.Server
import RemoteVfs.Server.Lemmas
import RemoteVfs.Network
import RemoteVfs.Network.Invariant
import RemoteVfs.Network.Link
import RemoteVfs.Network.Client
import RemoteVfs.Network.Fetch
import RemoteVfs.Network.Commit
import RemoteVfs.Session.Wait
import RemoteVfs.Session.Broken
import RemoteVfs.Session.Load
import RemoteVfs.Session.Commit
import RemoteVfs.Session.Heal
import RemoteVfs.Session.Run
import RemoteVfs.Session.Once
import RemoteVfs.Session.Diverge
import RemoteVfs.Session.Snapshot
import RemoteVfs.Session.Publish
import RemoteVfs.LocalDatabase.Keeper
import RemoteVfs.Session.Disk
import RemoteVfs.Session.Copy
import RemoteVfs.Session.Preload
import RemoteVfs.Session.Cache
import RemoteVfs.Session.Mend
import RemoteVfs.FileStore
import RemoteVfs.FileStore.Present
import RemoteVfs.FileStore.Format
import RemoteVfs.FileStore.Header
import RemoteVfs.FileStore.Map
import RemoteVfs.FileStore.Run
import RemoteVfs.FileStore.Store
import RemoteVfs.FileStore.Crash
import RemoteVfs.FileStore.Background
import RemoteVfs.Worker
import RemoteVfs.Worker.Fencing
import RemoteVfs.Worker.Lock
import RemoteVfs.Worker.Exclusive
import RemoteVfs.LocalDatabase
import RemoteVfs.Instance
import RemoteVfs.Bridge
import RemoteVfs.Bridge.InStep
import RemoteVfs.Bridge.Slots
import RemoteVfs.Bridge.Tasks
import RemoteVfs.Bridge.Handshake
import RemoteVfs.Bridge.Answers
import RemoteVfs.Bridge.Pings
import RemoteVfs.Takeover
import RemoteVfs.Instance.Open
import RemoteVfs.Instance.Keeper
import RemoteVfs.Opening
import RemoteVfs.Session.Failed
import RemoteVfs.Session.Block
import RemoteVfs.MainFile
import RemoteVfs.Inner
import RemoteVfs.Plaintext
import RemoteVfs.Pages.Resident
import RemoteVfs.Loads.Lasting
import RemoteVfs.Loads.Complete
import RemoteVfs.Loads.Memory
import RemoteVfs.Loads.Sizes
import RemoteVfs.Parts
import RemoteVfs.Transfer
import RemoteVfs.CopyHead
import RemoteVfs.Caches
import RemoteVfs.Observer
import RemoteVfs.Session.Fenced
import RemoteVfs.Ranges
import RemoteVfs.Session.FromCopy
import RemoteVfs.MainFile.Calls
import RemoteVfs.Counters
import RemoteVfs.Counters.Run
import RemoteVfs.Conduct
import RemoteVfs.Conduct.Login
import RemoteVfs.Conduct.Session
import RemoteVfs.Conduct.Run
