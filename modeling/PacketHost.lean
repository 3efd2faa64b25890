import PacketHost.Bytes
import PacketHost.Engine.Basic
import PacketHost.Engine.Direct
import PacketHost.Engine.Packing
import PacketHost.Engine.Source
import PacketHost.Flat.Encoding
import PacketHost.Flat.Engine
import PacketHost.Flat.Size
import PacketHost.Flat.Table
import PacketHost.Flat.Writer
import PacketHost.Halt
import PacketHost.Header
import PacketHost.HostError
import PacketHost.Interleaving
import PacketHost.Json.Decimal
import PacketHost.Json.Grammar
import PacketHost.Json.Reader
import PacketHost.Json.Token
import PacketHost.Json.Value
import PacketHost.Limits
import PacketHost.Packet.Admission
import PacketHost.Packet.Attempt
import PacketHost.Packet.Basic
import PacketHost.Packet.Desk
import PacketHost.Packet.Lifecycle
import PacketHost.Packet.Location
import PacketHost.Packet.Memory
import PacketHost.Packet.Reading
import PacketHost.Packet.Session
import PacketHost.Packet.Worker
import PacketHost.Proofs.Association
import PacketHost.Proofs.Flat.Acceptance
import PacketHost.Proofs.Flat.Build
import PacketHost.Proofs.Flat.Canonical
import PacketHost.Proofs.Flat.Contract
import PacketHost.Proofs.Flat.Corruption
import PacketHost.Proofs.Flat.Decode
import PacketHost.Proofs.Flat.Decoder
import PacketHost.Proofs.Flat.Destination
import PacketHost.Proofs.Flat.Layout
import PacketHost.Proofs.Flat.Reading
import PacketHost.Proofs.Flat.RoundTrip
import PacketHost.Proofs.Flat.Safety
import PacketHost.Proofs.Flat.Scan
import PacketHost.Proofs.Flat.Search
import PacketHost.Proofs.Flat.Size
import PacketHost.Proofs.Flat.Words
import PacketHost.Proofs.Flat.Write
import PacketHost.Proofs.Halt
import PacketHost.Proofs.Interleaving
import PacketHost.Proofs.Json.Decimal
import PacketHost.Proofs.Json.Printing
import PacketHost.Proofs.Json.Reading
import PacketHost.Proofs.Json.Scanning
import PacketHost.Proofs.Json.Spelling
import PacketHost.Proofs.Limits.Draft
import PacketHost.Proofs.Limits.Object
import PacketHost.Proofs.Limits.RoundTrip
import PacketHost.Proofs.Packet.Admission
import PacketHost.Proofs.Packet.AnyEngine
import PacketHost.Proofs.Packet.Concurrent
import PacketHost.Proofs.Packet.Confinement
import PacketHost.Proofs.Packet.Lifecycle
import PacketHost.Proofs.Packet.Location
import PacketHost.Proofs.Packet.OneShot
import PacketHost.Proofs.Packet.Outcome
import PacketHost.Proofs.Packet.Request
import PacketHost.Proofs.Packet.RoundTrip
import PacketHost.Proofs.Packet.Views
import PacketHost.Proofs.Packet.Worker
import PacketHost.Proofs.Registry.Course
import PacketHost.Proofs.Registry.Cut
import PacketHost.Proofs.Registry.Events
import PacketHost.Proofs.Registry.Guards
import PacketHost.Proofs.Registry.History
import PacketHost.Proofs.Registry.Invoking
import PacketHost.Proofs.Registry.Nesting
import PacketHost.Proofs.Registry.Ownership
import PacketHost.Proofs.Registry.Races
import PacketHost.Proofs.Registry.Reentrant
import PacketHost.Proofs.Registry.Slots
import PacketHost.Proofs.Registry.Termination
import PacketHost.Proofs.Span
import PacketHost.Proofs.Word
import PacketHost.Registry.Action
import PacketHost.Registry.Allocation
import PacketHost.Registry.Basic
import PacketHost.Registry.Crowd
import PacketHost.Registry.Fiber
import PacketHost.Registry.Ownership
import PacketHost.Registry.Run
import PacketHost.Registry.Scope
import PacketHost.Span
import PacketHost.Status
import PacketHost.Text.Hidden
import PacketHost.Text.Quoted
import PacketHost.Word
