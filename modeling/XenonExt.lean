import XenonExt.Effects.Traced
import XenonExt.StateMachine.Config
import XenonExt.StateMachine.Firing
import XenonExt.StateMachine.CallLog
import XenonExt.StateMachine.FiringCorrectness
import XenonExt.Service.FSMService
import XenonExt.Service.Patching
import XenonExt.Service.ExpiryRecord
import XenonExt.Service.ExpiryTimers
import XenonExt.Service.History
import XenonExt.Feature.FeaturesCache
import XenonExt.Feature.Interference
import XenonExt.Java.Replace
import XenonExt.Java.Split
import XenonExt.JaxRs.UriUtils
import XenonExt.JaxRs.MethodInfo
import XenonExt.JaxRs.RoutingOperationHandler
import XenonExt.JaxRs.Answering
import XenonExt.Dispatch.FirstMatch
import XenonExt.JaxRs.RequestRouterBuilder
import XenonExt.JaxRs.Dispatch
import XenonExt.JaxRs.ProxyHandler
import XenonExt.JaxRs.Template
import XenonExt.JaxRs.WireForm
import XenonExt.Util.Chains
import XenonExt.Util.HttpError
import XenonExt.Util.Relay
import XenonExt.Util.CauseCycles
import XenonExt.JaxRs.Placeholders
import XenonExt.StateMachine.Revalidation
import XenonExt.Feature.Lookups
import XenonExt.Effects.LastWrite
import XenonExt.Feature.Versions
import XenonExt.Java.Substitution
import XenonExt.JaxRs.PathSubstitution
import XenonExt.JaxRs.PathFrames
import XenonExt.JaxRs.PathIsolation
import XenonExt.JaxRs.ClientFutures
import XenonExt.Service.Registration
import XenonExt.StateMachine.PermittedTriggers
import XenonExt.Java.Separators
import XenonExt.StateMachine.EdgeReadings
import XenonExt.JaxRs.ClientBuilder
import XenonExt.Effects.Simulation
import XenonExt.Service.Automaton
import XenonExt.Service.TimerLedger
import XenonExt.Service.VisitExpiry
import XenonExt.Service.HostedDocuments
import XenonExt.JaxRs.Answers
import XenonExt.JaxRs.CallParts
import XenonExt.JaxRs.RemoteCalls
import XenonExt.Effects.Replica
import XenonExt.Feature.Replication
import XenonExt.Dispatch.Patterns
import XenonExt.JaxRs.Overlap
import XenonExt.Effects.Network
import XenonExt.Feature.RemoteFeatures
import XenonExt.Client.StatefulServiceContract
import XenonExt.Service.Causes
import XenonExt.Service.RemoteDocuments
import XenonExt.Service.Monitoring
import XenonExt.JaxRs.QueryCalls
import XenonExt.Service.RemoteMonitoring
