import Reticulum.AccessCode
import Reticulum.Activity
import Reticulum.Advertised
import Reticulum.Agreement
import Reticulum.Atomicity
import Reticulum.Authentication
import Reticulum.Binding
import Reticulum.Charging
import Reticulum.ClosedLink
import Reticulum.Codec
import Reticulum.Completion
import Reticulum.Connection
import Reticulum.Conservation
import Reticulum.ControlMessages
import Reticulum.Deadlock
import Reticulum.Direct
import Reticulum.Discovery
import Reticulum.Exchange
import Reticulum.Expiry
import Reticulum.Forwarding
import Reticulum.Handshake
import Reticulum.HashmapUpdate
import Reticulum.KeyAgreement
import Reticulum.Lib.Framed
import Reticulum.Lib.Simulation
import Reticulum.Mail
import Reticulum.Online
import Reticulum.Opportunistic
import Reticulum.Overheard
import Reticulum.PlainDelivery
import Reticulum.Preference
import Reticulum.Propagation
import Reticulum.Pruning
import Reticulum.Pump
import Reticulum.Receipts
import Reticulum.Removal
import Reticulum.Reporting
import Reticulum.ResourceAgreement
import Reticulum.Sample
import Reticulum.Serial
import Reticulum.Serving
import Reticulum.Skipping
import Reticulum.Snapshot
import Reticulum.Stamp
import Reticulum.Supersede
import Reticulum.Tcp
import Reticulum.Timeout
import Reticulum.Uart
import Reticulum.Unrelayed
import Reticulum.WireFlag
