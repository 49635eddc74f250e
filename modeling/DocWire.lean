import DocWire.Main
import DocWire.Connection.Script
import DocWire.Shell.Screen
import DocWire.Transport.Memory
import DocWire.Proofs.Command.Effects
import DocWire.Proofs.Pool.Limits
import DocWire.Proofs.Session.Isolation
import DocWire.Proofs.Wire.Canonical
import DocWire.Proofs.Message.Payload
import DocWire.Proofs.Message.Tiling
import DocWire.Proofs.Message.RoundTrip
import DocWire.Proofs.Transport.FailStop
import DocWire.Proofs.Transport.Delivery
import DocWire.Proofs.Pool.Waiting
import DocWire.Proofs.Datum.Dynamic
import DocWire.Proofs.Session.Topology
import DocWire.Proofs.Session.Modification
import DocWire.Proofs.Session.Sharing
import DocWire.Proofs.Pool.Teardown
import DocWire.Proofs.Connection.Construction
import DocWire.Proofs.Connection.Return
import DocWire.Proofs.Session.Finding
import DocWire.Proofs.Document.History
import DocWire.Proofs.Document.Equality
import DocWire.Proofs.Wire.Balance
import DocWire.Proofs.Wire.Safety
import DocWire.Proofs.Codec.Resolution
import DocWire.Proofs.Server.Selection
import DocWire.Proofs.Document.IntegerView
import DocWire.Proofs.Message.RequestIds
import DocWire.Proofs.Shell.Phrases
import DocWire.Proofs.Server.Address
import DocWire.Proofs.Wire.Appending
import DocWire.Proofs.Codec.Ending
