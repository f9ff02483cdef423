import MemSandbox.Lib.Coroutine
import MemSandbox.CommandExecutor.TokenizerLaws
import MemSandbox.CommandExecutor.SortLaws
import MemSandbox.CommandExecutor.FindLaws
import MemSandbox.CommandExecutor.TransferLaws
import MemSandbox.Workspace.PathLaws
import MemSandbox.Workspace.NodeGraph
import MemSandbox.Workspace.Transfers
import MemSandbox.Workspace.Reads
import MemSandbox.Workspace.Exports
import MemSandbox.Workspace.ArchiveErrors
import MemSandbox.Workspace.PaxTiling
import MemSandbox.Workspace.RestoreRaces
import MemSandbox.Snapshots.CodecErrors
import MemSandbox.Network.Sending
import MemSandbox.Network.ChunkedBody
import MemSandbox.Network.RequestEncoding
import MemSandbox.OpenAIAgents.Argv
import MemSandbox.Workspace.PatchRoundTrip
import MemSandbox.Workspace.PatchErrors
import MemSandbox.Secrets.BrokerRuns
import MemSandbox.Events.DeliveryRuns
import MemSandbox.Service.LifecycleSafety
import MemSandbox.Snapshots.StoreRuns
import MemSandbox.Events.RedactionUtf8
import MemSandbox.CommandExecutor.UnitFrames
import MemSandbox.Session.ExecutionRuns
import MemSandbox.Session.SnapshotRuns
import MemSandbox.Network.ResponseAgreement
