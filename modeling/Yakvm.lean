import Yakvm.Radix.Reach
import Yakvm.Proof.Entry
import Yakvm.Spec.Npt
import Yakvm.Proof.Tree
import Yakvm.Proof.Npt
import Yakvm.Proof.PageMap
import Yakvm.Proof.Requests
import Yakvm.Proof.Teardown
import Yakvm.Proof.Race
import Yakvm.Proof.Lifecycle
import Yakvm.Proof.Isolation
import Yakvm.Spec.Emulator
import Yakvm.Proof.Emulator
import Yakvm.Proof.Mapping
import Yakvm.Bytes.Memory
import Yakvm.Spec.Switch
import Yakvm.Proof.Switch
import Yakvm.Proof.Host
import Yakvm.Proof.RoundTrip
import Yakvm.Proof.Devices
import Yakvm.Proof.Module
import Yakvm.Spec.Ports
import Yakvm.Proof.Ports
import Yakvm.Proof.Asid
import Yakvm.Proof.Unique
import Yakvm.Proof.Populate
import Yakvm.Proof.Alias
import Yakvm.Proof.Unwind
import Yakvm.Proof.Evolve
import Yakvm.Proof.Failures
import Yakvm.Bytes.Layout
import Yakvm.Spec.Copy
import Yakvm.Proof.Disclosure
import Yakvm.Spec.Loader
import Yakvm.Proof.Loader
import Yakvm.Spec.Access
import Yakvm.Proof.Access
import Yakvm.Spec.Tables
import Yakvm.Proof.Tables
import Yakvm.Spec.Smp
import Yakvm.Proof.Smp
import Yakvm.Proof.Progress
import Yakvm.Proof.Account
import Yakvm.Spec.Guests
import Yakvm.Proof.Guests
import Yakvm.Runs.Fold
import Yakvm.Proof.Fatal
import Yakvm.Paging.Demand
import Yakvm.Proof.Flat
import Yakvm.Spec.Program
import Yakvm.Proof.Program
import Yakvm.Paging.Space
import Yakvm.Spec.Users
import Yakvm.Proof.Users
