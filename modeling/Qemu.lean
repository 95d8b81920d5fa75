import Qemu.Exec.JmpPages
import Qemu.Exec.CodeBitmap
import Qemu.Exec.MemRun
import Qemu.Exec.PhysMapRun
import Qemu.Tcg.LivenessSound
import Qemu.Block.MultiwriteSpec
import Qemu.Block.MultiwriteAio
import Qemu.Block.DmaSpec
import Qemu.Block.Qcow2Backing
import Qemu.Async.BottomHalfSpec
import Qemu.Arm.Banks
import Qemu.Arm.MmuSpec
import Qemu.Hw.OnedramIn
import Qemu.Hw.OnedramOut
import Qemu.Hw.Pl192Runs
import Qemu.Migration.SavevmLoad
import Qemu.Migration.VmstateSpec
import Qemu.Migration.FdMigrationSpec
import Qemu.Migration.QemuFile
import Qemu.Hw.VirtioAvail
import Qemu.Migration.RamSaveSpec
import Qemu.Migration.BlockResourcesSpec
import Qemu.Net.QueueSpec
import Qemu.Hw.GicChain
import Qemu.Hw.OtgIrq
import Qemu.Hw.OtgPackets
import Qemu.Hw.Uart
import Qemu.Hw.PcmFrames
import Qemu.Hw.LcdRedraw
import Qemu.Hw.MmcCarry
import Qemu.Async.TimersSpec
import Qemu.Block.VdiParallel
import Qemu.Async.CpuTicks
import Qemu.Hw.PtimerRuns
import Qemu.Hw.RtcDate
import Qemu.Hw.SysTimerRuns
import Qemu.Hw.PwmRuns
import Qemu.Hw.GicHistory
import Qemu.Hw.VirtioNetFilter
import Qemu.Hw.LcdBlend
import Qemu.Hw.SdProtect
import Qemu.Hw.PtimerCount
import Qemu.Opts.OptionsSpec
import Qemu.Arm.MediaSpec
import Qemu.Hw.I2sPlayback
import Qemu.Hw.Pl330Events
import Qemu.Hw.Pl330Fifo
import Qemu.Hw.Pl330Queue
import Qemu.Block.ImageCreate
import Qemu.Arm.NeonLsSound
import Qemu.Arm.NeonShiftSound
import Qemu.Block.BdrvBytes
import Qemu.Block.DirtyBitmap
import Qemu.Tcg.Shift64
import Qemu.Tcg.Pool
import Qemu.Json.ParserSafe
import Qemu.Block.AllocCluster
import Qemu.Block.SnapshotCreate
