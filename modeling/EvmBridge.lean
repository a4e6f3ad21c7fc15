import EvmBridge.Binary64.Basic
import EvmBridge.Binary64.Shortest
import EvmBridge.Blake3
import EvmBridge.Buffers
import EvmBridge.Bytes
import EvmBridge.Codec.Basic
import EvmBridge.Codec.Record
import EvmBridge.Engine.EntryPoint
import EvmBridge.Engine.Executor
import EvmBridge.Engine.Outgoing
import EvmBridge.Engine.Pool
import EvmBridge.Engine.Request
import EvmBridge.Engine.Service
import EvmBridge.Error
import EvmBridge.Files
import EvmBridge.FixedBytes
import EvmBridge.HandleTable
import EvmBridge.Hex
import EvmBridge.Host.Callback
import EvmBridge.Host.Config
import EvmBridge.Host.Error
import EvmBridge.Host.Event
import EvmBridge.Host.Gateway
import EvmBridge.Host.Proxy
import EvmBridge.Host.Registry
import EvmBridge.Host.Resource
import EvmBridge.Host.Script
import EvmBridge.Json.Basic
import EvmBridge.Json.Doc
import EvmBridge.Json.Fault
import EvmBridge.Json.Printer
import EvmBridge.Log
import EvmBridge.Merkle
import EvmBridge.OrdMap
import EvmBridge.Proofs.AccessAnswers
import EvmBridge.Proofs.AccessHistory
import EvmBridge.Proofs.AccountAt
import EvmBridge.Proofs.AccountProofs
import EvmBridge.Proofs.AccountWrites
import EvmBridge.Proofs.AloofCallbacks
import EvmBridge.Proofs.Answers
import EvmBridge.Proofs.ApplyRecordings
import EvmBridge.Proofs.Atomicity
import EvmBridge.Proofs.BufferLedger
import EvmBridge.Proofs.CallTrees
import EvmBridge.Proofs.CallbackAnswers
import EvmBridge.Proofs.CallbackFaults
import EvmBridge.Proofs.Calls
import EvmBridge.Proofs.CanonicalStates
import EvmBridge.Proofs.Captures
import EvmBridge.Proofs.Commits
import EvmBridge.Proofs.CommittedStates
import EvmBridge.Proofs.Directories
import EvmBridge.Proofs.DiskSessions
import EvmBridge.Proofs.DumpedRoots
import EvmBridge.Proofs.EachAccount
import EvmBridge.Proofs.Encoding
import EvmBridge.Proofs.Ends
import EvmBridge.Proofs.EnvelopeReading
import EvmBridge.Proofs.ExecutorSteps
import EvmBridge.Proofs.FailedCommits
import EvmBridge.Proofs.Footprints
import EvmBridge.Proofs.FrameDepth
import EvmBridge.Proofs.HandleAllocation
import EvmBridge.Proofs.HandleCalls
import EvmBridge.Proofs.HashTree
import EvmBridge.Proofs.HexReading
import EvmBridge.Proofs.HexTexts
import EvmBridge.Proofs.HostResources
import EvmBridge.Proofs.InclusionProofs
import EvmBridge.Proofs.InsertionHistory
import EvmBridge.Proofs.JsonReading
import EvmBridge.Proofs.LeftOverGas
import EvmBridge.Proofs.LiveSnapshots
import EvmBridge.Proofs.LostHandles
import EvmBridge.Proofs.MemberOrder
import EvmBridge.Proofs.NulFree
import EvmBridge.Proofs.ObjectHandles
import EvmBridge.Proofs.ObjectMembers
import EvmBridge.Proofs.Overflow
import EvmBridge.Proofs.PayloadRoundTrip
import EvmBridge.Proofs.Pruning
import EvmBridge.Proofs.ReadOnlyApplies
import EvmBridge.Proofs.RecordReading
import EvmBridge.Proofs.Refusals
import EvmBridge.Proofs.RegistryOwnership
import EvmBridge.Proofs.RequestSteps
import EvmBridge.Proofs.Revisions
import EvmBridge.Proofs.RootBinding
import EvmBridge.Proofs.RoundTrip
import EvmBridge.Proofs.ServiceCalls
import EvmBridge.Proofs.Since
import EvmBridge.Proofs.SortedMap
import EvmBridge.Proofs.StateFiles
import EvmBridge.Proofs.StrictRecords
import EvmBridge.Proofs.SuccessfulApply
import EvmBridge.Proofs.TopFrames
import EvmBridge.Proofs.TraceReading
import EvmBridge.Proofs.TracedApplies
import EvmBridge.Proofs.Transparency
import EvmBridge.Proofs.UnawareHosts
import EvmBridge.Proofs.UseAfterClose
import EvmBridge.Proofs.ViewIsolation
import EvmBridge.Proofs.ViewOp
import EvmBridge.Proofs.WordQuantities
import EvmBridge.Proofs.WorldSteps
import EvmBridge.State.Account
import EvmBridge.State.Inspect
import EvmBridge.State.Store
import EvmBridge.State.View
import EvmBridge.Text.Blank
import EvmBridge.Text.Quoted
import EvmBridge.Text.Unprintable
import EvmBridge.Text.Utf8
import EvmBridge.Tracer
import EvmBridge.Wire.Context
import EvmBridge.Wire.Envelope
import EvmBridge.Wire.Invocation
import EvmBridge.Wire.Method
import EvmBridge.Wire.Params
import EvmBridge.Wire.Payload
import EvmBridge.Wire.Results
import EvmBridge.Wire.TracerParams
import EvmBridge.World
