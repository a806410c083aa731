import PandaProof.SleepMutex
import PandaProof.IoApics
import PandaProof.Shootdown
import PandaProof.Completion
import PandaProof.Keyboard
import PandaProof.Residue
import PandaProof.FsFailure
import PandaProof.FsPermissions
import PandaProof.IpcDelivery
import PandaProof.Abandoned
import PandaProof.RingHandshake
import PandaProof.RingDelivery
import PandaProof.Waits
import PandaProof.NetChecksum
import PandaProof.Heap
import PandaProof.NetAcks
import PandaProof.ControlLoop
import PandaProof.NetOwners
import PandaProof.Accounts
import PandaProof.ConfigSpace
import PandaProof.DiskSlots
import PandaProof.FsSpace
import PandaProof.Partition
import PandaProof.CompositorFrames
import PandaProof.UserBuffer
import PandaProof.Creation
import PandaProof.Processors
import PandaProof.SchedulerParking
