import Psrt.Lib.Interaction
import Psrt.Lib.Concurrent
import Psrt.Lib.Wire
import Psrt.Lib.Wildcard
import Psrt.Protocol.Basic
import Psrt.Protocol.Stream
import Psrt.Server.Topic
import Psrt.Server.Acl
import Psrt.Server.Registry
import Psrt.Server.ListMap
import Psrt.Server.Auth
import Psrt.Server.Operations
import Psrt.Server.Control
import Psrt.Server.Session
import Psrt.Server.Udp
import Psrt.Server.Datagram
import Psrt.Server.State
import Psrt.Server.Calls
import Psrt.Server.Peers
import Psrt.Server.RegistryView
import Psrt.Server.Registration
import Psrt.Client.Udp
import Psrt.Client.DataStream
import Psrt.Server.DataStream
import Psrt.Publish.Admission
import Psrt.Publish.Agreement
import Psrt.Publish.Codec
import Psrt.Publish.Integrity
import Psrt.Publish.Authorised
import Psrt.Subscribe.Filter
import Psrt.Subscribe.Subscriptions
import Psrt.Subscribe.Deliveries
import Psrt.Subscribe.ReadAccess
import Psrt.Lib.Transition
import Psrt.DataChannel.Model
import Psrt.DataChannel.Basic
import Psrt.DataChannel.Channels
import Psrt.DataChannel.Dead
import Psrt.DataChannel.Orphan
import Psrt.DataChannel.Stall
import Psrt.DataChannel.Ownership
import Psrt.DataChannel.Publishes
import Psrt.DataChannel.Delivery
import Psrt.Publish.Topics
import Psrt.Publish.Replies
import Psrt.Publish.Confirmed
import Psrt.Subscribe.Requests
import Psrt.Subscribe.Alike
import Psrt.Client.Control
import Psrt.Client.Commands
import Psrt.Server.RegistryRuns
import Psrt.Server.Stats
import Psrt.Server.Anonymous
import Psrt.Lib.Duplex
import Psrt.Lib.Lockstep
import Psrt.Client.ControlStream
import Psrt.Client.Rounds
import Psrt.Server.Turns
import Psrt.Client.Lockstep
import Psrt.Access.Masks
import Psrt.Access.MaskText
import Psrt.Publish.NormalForm
import Psrt.Publish.Latency
import Psrt.Server.KeyFile
import Psrt.Server.Checked
import Psrt.Publish.NoPanic
import Psrt.Lib.Interpret
import Psrt.Lib.Network
import Psrt.Client.Connect
import Psrt.Server.Launch
import Psrt.Handshake.Client
import Psrt.Handshake.Server
import Psrt.Handshake.Exchange
import Psrt.Handshake.World
import Psrt.Handshake.Network
import Psrt.Handshake.Script
import Psrt.Handshake.Completion
import Psrt.Handshake.Agreement
import Psrt.Delivery.Stream
import Psrt.Delivery.Network
import Psrt.Lib.Heartbeat
import Psrt.Timed.Server
import Psrt.Timed.Erasure
import Psrt.Timed.Waits
import Psrt.Timed.DataStream
import Psrt.Timed.ClientTasks
import Psrt.Timed.KeepAlive
import Psrt.Timed.Connect
import Psrt.Timed.Client
