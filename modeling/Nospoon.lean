import Nospoon.AddClient
import Nospoon.Address
import Nospoon.AllOrNothing
import Nospoon.Allocation
import Nospoon.AuthMode
import Nospoon.Backoff
import Nospoon.Client
import Nospoon.ClientHost
import Nospoon.CommandSteps
import Nospoon.Commands
import Nospoon.Comments
import Nospoon.Config
import Nospoon.ConfigText
import Nospoon.Delivery
import Nospoon.Disk
import Nospoon.FailClosed
import Nospoon.Framing
import Nospoon.FullOrNothing
import Nospoon.FullTunnel
import Nospoon.Hex
import Nospoon.HostAllocation
import Nospoon.HostileInput
import Nospoon.Independence
import Nospoon.Insertion
import Nospoon.Ipv6Text
import Nospoon.Js.Admission
import Nospoon.Js.Agreement
import Nospoon.Js.ByValue
import Nospoon.Js.Checks
import Nospoon.Js.Client
import Nospoon.Js.ClientHost
import Nospoon.Js.Compatible
import Nospoon.Js.Fields
import Nospoon.Js.Formatters
import Nospoon.Js.FullTunnel
import Nospoon.Js.Growth
import Nospoon.Js.KeepsValid
import Nospoon.Js.LatestHolder
import Nospoon.Js.LoadConfig
import Nospoon.Js.Pacing
import Nospoon.Js.PeerArithmetic
import Nospoon.Js.Peers
import Nospoon.Js.Porting
import Nospoon.Js.Readers
import Nospoon.Js.Retrying
import Nospoon.Js.Server
import Nospoon.Js.SideBySide
import Nospoon.Js.SourceControl
import Nospoon.Js.Wire
import Nospoon.JsonText
import Nospoon.KeySearch
import Nospoon.KillSwitch
import Nospoon.Layout
import Nospoon.LearnedRoutes
import Nospoon.Library.Carrier
import Nospoon.Library.Hub
import Nospoon.Library.Json
import Nospoon.Library.JsonComments
import Nospoon.Library.JsonGrammar
import Nospoon.Library.JsonInsertion
import Nospoon.Library.JsonTokens
import Nospoon.Library.Machine
import Nospoon.Library.Mask
import Nospoon.Library.Runs
import Nospoon.Library.Scan
import Nospoon.Library.Shell
import Nospoon.Library.Simulation
import Nospoon.Library.Splits
import Nospoon.Library.Streaming
import Nospoon.Library.Switchboard
import Nospoon.Library.Table
import Nospoon.Library.Undo
import Nospoon.Library.Wiring
import Nospoon.NatSubnet
import Nospoon.Network
import Nospoon.NetworkClients
import Nospoon.NetworkServers
import Nospoon.OpenMode
import Nospoon.PartialTunnel
import Nospoon.PeerRules
import Nospoon.PfConf
import Nospoon.ProvisionText
import Nospoon.Provisioning
import Nospoon.Reconnect
import Nospoon.Relaying
import Nospoon.Restoring
import Nospoon.Routing
import Nospoon.SeedsHidden
import Nospoon.SeedsKept
import Nospoon.Server
import Nospoon.ServerBoard
import Nospoon.ServerNat
import Nospoon.ShellLines
import Nospoon.StreamStart
import Nospoon.Validation
