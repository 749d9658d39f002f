import Bpfman.FilterSwap
import Bpfman.SetReuse
import Bpfman.SharedRun
import Bpfman.Image.Trust
import Bpfman.Image.Chain
import Bpfman.Image.ExtractFiles
import Bpfman.Csi.Contract
import Bpfman.DeletePrograms
import Bpfman.LastMember
import Bpfman.StaffedRun
import Bpfman.Shell.Integer
import Bpfman.Shell.Null
import Bpfman.Shell.Placement
import Bpfman.Shell.Matches
import Bpfman.Shell.Returned
import Bpfman.Shell.CheckArgs
import Bpfman.Shell.Diagnostic
import Bpfman.ReapPlan
import Bpfman.SnapshotOrder
import Bpfman.ReturnedRecord
import Bpfman.InspectProof
import Bpfman.MapStatus
import Bpfman.Strdist
