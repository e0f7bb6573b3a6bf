import Vaux.Wire.Decoder
import Vaux.Wire.Loop
import Vaux.Wire.Layout
import Vaux.Mqtt.Types
import Vaux.Mqtt.VarInt
import Vaux.Mqtt.Primitive
import Vaux.Mqtt.FixedHeader
import Vaux.Mqtt.Codec
import Vaux.Mqtt.UserProperty
import Vaux.Mqtt.Derive
import Vaux.Mqtt.DeriveLayout
import Vaux.Mqtt.Acknowledge
import Vaux.Mqtt.Subscribe
import Vaux.Mqtt.Publish
import Vaux.Mqtt.Connect
import Vaux.Mqtt.Packet
import Vaux.Mqtt.Framing
import Vaux.Mqtt.PropertySection
import Vaux.Mqtt.SectionRoundTrip
import Vaux.Mqtt.DerivedRoundTrip
import Vaux.Mqtt.PacketLaws
import Vaux.Mqtt.RoundTrip
import Vaux.Mqtt.PublishRoundTrip
import Vaux.Mqtt.ConnectRoundTrip
import Vaux.Mqtt.PacketRoundTrip
import Vaux.Mqtt.BinaryProperties
import Vaux.Mqtt.ConnectBuilder
import Vaux.Mqtt.ConnectTail
import Vaux.Mqtt.PubRespRoundTrip
import Vaux.Mqtt.EncodedSize
import Vaux.Mqtt.Parts
import Vaux.Mqtt.Limits
import Vaux.Mqtt.Reference
import Vaux.Mqtt.ReferenceItems
import Vaux.Mqtt.ConnectLayout
import Vaux.Mqtt.ConnectReading
import Vaux.Mqtt.ConnectConformance
import Vaux.Mqtt.Declaration
import Vaux.Mqtt.DeclaredSize
import Vaux.Async.PacketStream
import Vaux.Async.Reassembly
import Vaux.Async.ReadInternal
import Vaux.Async.ReadRaw
import Vaux.Async.BufferBounds
import Vaux.Async.EndOfStream
import Vaux.Async.Transport
import Vaux.Machine.Run
import Vaux.Machine.Simulation
import Vaux.Machine.Table
import Vaux.Machine.While
import Vaux.Broker.Session
import Vaux.Broker.Deliveries
import Vaux.Broker.Redelivery
import Vaux.Broker.Forward
import Vaux.Broker.TopicTree
import Vaux.Broker.TopicPaths
import Vaux.Broker.TopicMatch
import Vaux.Broker.TreeLinks
import Vaux.Broker.NodeCount
import Vaux.Broker.Subscriptions
import Vaux.Broker.Pool
import Vaux.Broker.Handler
import Vaux.Broker.System
import Vaux.Broker.Transitions
import Vaux.Broker.Effects
import Vaux.Broker.Invariant
import Vaux.Broker.Counts
import Vaux.Broker.Ownership
import Vaux.Broker.Takeover
import Vaux.Broker.Exits
import Vaux.Broker.Late
import Vaux.Broker.Locks
import Vaux.Broker.CircularWait
import Vaux.Broker.WillFidelity
import Vaux.Broker.Wills
import Vaux.Broker.WillTimers
import Vaux.Broker.Registry
import Vaux.Broker.Negotiation
import Vaux.Broker.CleanStart
import Vaux.Broker.Traffic
import Vaux.Broker.ManyFilters
import Vaux.Broker.InOrder
import Vaux.Broker.ReturnedOnce
import Vaux.Broker.SlowSubscribers
import Vaux.Broker.Origins
import Vaux.Broker.Addressed
import Vaux.Broker.Writes
import Vaux.Broker.Outboxes
import Vaux.Client.Session
import Vaux.Client.SendWindow
import Vaux.Client.ReceiveWindow
import Vaux.Client.HandOver
import Vaux.Client.Manual
import Vaux.Client.Task
import Vaux.Client.Consumers
import Vaux.Client.Handshake
import Vaux.Client.Connack
import Vaux.Client.ProtocolErrors
import Vaux.Client.CarryOver
import Vaux.Client.PacketIds
import Vaux.Client.Calls
import Vaux.Network.Carriage
import Vaux.Network.System
import Vaux.Network.Moves
import Vaux.Network.Wired
import Vaux.Network.Handshake
import Vaux.Network.Exchange
import Vaux.Network.Deliveries
import Vaux.Network.Window
import Vaux.Network.Projection
import Vaux.Network.Provenance
import Vaux.Sockets.System
import Vaux.Sockets.Refinement
import Vaux.Sockets.EndToEnd
