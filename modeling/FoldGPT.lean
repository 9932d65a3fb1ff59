import FoldGPT.Environment.Pattern
import FoldGPT.Wire.Managed
import FoldGPT.Process.Read
import FoldGPT.Process.Write
import FoldGPT.ExecServer.InFlight
import FoldGPT.ExecServer.Stdio
import FoldGPT.ExecServer.Output
import FoldGPT.Routing.Disabled
import FoldGPT.Routing.Adapter
import FoldGPT.Mux.Order
import FoldGPT.Direct.Forwarding
import FoldGPT.Direct.Startup
import FoldGPT.Direct.Keep
import FoldGPT.Files.PathUri
import FoldGPT.Files.Tighten
import FoldGPT.Files.Walk
import FoldGPT.Files.MakeDirectories
import FoldGPT.Files.CopyNative
import FoldGPT.Acquire.Worker
import FoldGPT.Host.Discipline
import FoldGPT.Host.Transfer
import FoldGPT.Profiles.Ownership
import FoldGPT.Streams.Custody
import FoldGPT.Artifact.Converge
import FoldGPT.App.Retries
import FoldGPT.App.Callback
import FoldGPT.App.Gates
import FoldGPT.Install.Container
import FoldGPT.Install.Links
import FoldGPT.App.Conversations
import FoldGPT.Bridge.Relay
import FoldGPT.Host.Stdin
