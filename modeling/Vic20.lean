import Vic20.Bus.Flat
import Vic20.Bus.Trace
import Vic20.Config.Json
import Vic20.Machine.Inspect
import Vic20.Machine.Media
import Vic20.Program.Lines
import Vic20.Storage.HostDirectory
import Vic20.Storage.Pair
import Vic20.Video.Trace
import Vic20.Proofs.Drive.Bystander
import Vic20.Proofs.Drive.Unseen
import Vic20.Proofs.Serial.Load
import Vic20.Proofs.Serial.Save
import Vic20.Proofs.Video.Renewal
import Vic20.Proofs.Machine.Resting
import Vic20.Proofs.Machine.Lockstep
import Vic20.Proofs.Machine.Edges
import Vic20.Proofs.Serial.Conversations
import Vic20.Proofs.Memory.Decoding
import Vic20.Proofs.Memory.History
import Vic20.Proofs.Cpu.Accesses
import Vic20.Proofs.Cpu.Transparent
import Vic20.Proofs.Drive.Logged
import Vic20.Proofs.Machine.Twin
import Vic20.Proofs.Machine.Reset
import Vic20.Proofs.Cpu.Compound
import Vic20.Proofs.Cpu.Digits
import Vic20.Proofs.Via.Sampling
import Vic20.Proofs.Via.FreeRun
import Vic20.Proofs.Via.Accumulators
import Vic20.Proofs.Via.Acknowledge
import Vic20.Proofs.Via.Ports
import Vic20.Proofs.Drive.Sending
import Vic20.Proofs.Drive.Waiting
import Vic20.Proofs.Video.RasterClock
import Vic20.Proofs.Video.Derived
import Vic20.Proofs.Drive.Listing
import Vic20.Proofs.Machine.Typing
import Vic20.Proofs.Machine.Scanning
import Vic20.Proofs.Via.Driving
import Vic20.Proofs.Machine.Peeking
import Vic20.Proofs.Memory.Written
import Vic20.Proofs.Machine.Loading
import Vic20.Proofs.Memory.Cartridges
import Vic20.Proofs.Machine.Cartridges
import Vic20.Proofs.Storage.HostDirectory
import Vic20.Proofs.Text.Address
import Vic20.Proofs.Via.Counters
