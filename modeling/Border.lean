import Border.ARecords
import Border.AddressChecks
import Border.Authentication
import Border.Balancer
import Border.Capture
import Border.CommandLine
import Border.Config
import Border.ConfigChain
import Border.ConfigDocument
import Border.ConfigRounds
import Border.ConfigSync
import Border.ConfigUpdate
import Border.ControlClient
import Border.ControlServer
import Border.CrashSafety
import Border.Disk
import Border.DnsLookup
import Border.DnsMessage
import Border.DnsNames
import Border.DnsServer
import Border.Election
import Border.Endpoints
import Border.ForwardedFor
import Border.Gathering
import Border.GoLibraries
import Border.GoMap
import Border.HTTPBalancer
import Border.HTTPRelay
import Border.HealthActions
import Border.HealthCheck
import Border.HealthLocking
import Border.HealthRounds
import Border.IPText
import Border.Json
import Border.JsonEncode
import Border.JsonRender
import Border.JsonText
import Border.LBAgreement
import Border.Launcher
import Border.LeastLoaded
import Border.Leftover
import Border.ListenerLifetime
import Border.Listeners
import Border.Literal
import Border.LiteralLists
import Border.LoadSafety
import Border.Messages
import Border.Mutators
import Border.NetAddr
import Border.NonceRace
import Border.NonceTable
import Border.ObjectHeap
import Border.PeerRecovery
import Border.Persistence
import Border.PointerMap
import Border.PublisherRace
import Border.RWMutex
import Border.RecordTags
import Border.Reflection
import Border.Registrations
import Border.Relaunch
import Border.Request
import Border.RequestHistory
import Border.RequestIsolation
import Border.Rest
import Border.Restart
import Border.RetryLoop
import Border.RunCheck
import Border.SaveStages
import Border.SealedMessages
import Border.Serialize
import Border.Services
import Border.SharedZones
import Border.TCPBalancer
import Border.TCPPipeline
import Border.TCPPlacement
import Border.TextSplit
import Border.Transition
import Border.Wedging
import Border.WriteBack
