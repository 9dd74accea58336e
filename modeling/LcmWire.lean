import LcmWire.Assembler.Receive
import LcmWire.Packet.Split
import LcmWire.Proofs.Assembler.Capacity
import LcmWire.Proofs.Assembler.Epoch
import LcmWire.Proofs.Assembler.Fate
import LcmWire.Proofs.Assembler.Provenance
import LcmWire.Proofs.Assembler.Renewal
import LcmWire.Proofs.Assembler.Sweeping
import LcmWire.Proofs.Assembler.Validity
import LcmWire.Proofs.Datagram.Grammar
import LcmWire.Proofs.Delivery.Routing
import LcmWire.Proofs.Delivery.Traffic
import LcmWire.Proofs.Packet.Canonical
import LcmWire.Proofs.Packet.Numbering
import LcmWire.Proofs.Report.Accounts
import LcmWire.Proofs.Report.Lines
import LcmWire.Report.Log
import LcmWire.Router
import LcmWire.Table.Lemmas
import LcmWire.Proofs.Router.Description
import LcmWire.Proofs.Router.History
