import TinyClr.Core.ArrayCopySpec
import TinyClr.Core.ArrayListSpec
import TinyClr.Core.AvlTreeSpec
import TinyClr.Core.DelegateListSpec
import TinyClr.Core.EmitValueSpec
import TinyClr.Core.EmulatedFloatIeee
import TinyClr.Core.EqualityAgrees
import TinyClr.Core.EventCacheRuns
import TinyClr.Core.HeapBlockTimerSpec
import TinyClr.Core.HeapRecoveryRuns
import TinyClr.Core.LocalsRuns
import TinyClr.Core.LockSpec
import TinyClr.Core.ObjectCreation
import TinyClr.Core.ProcessTimerSleep
import TinyClr.Core.QueueSpec
import TinyClr.Core.SchedulerSpec
import TinyClr.Core.StackFrameRuns
import TinyClr.Core.StaticConstructors
import TinyClr.Core.StringSplitSpec
import TinyClr.Core.Utf8EncodingSpec
import TinyClr.Core.VirtualMethodTableSpec
import TinyClr.Core.WaitForObjectRuns
import TinyClr.Drivers.FatDirectoryAgree
import TinyClr.Drivers.FatLookupKeeps
import TinyClr.Drivers.FileHandleRuns
import TinyClr.Drivers.LogicDiskAgree
import TinyClr.Drivers.SectorCacheRuns
import TinyClr.Drivers.SystemTimer
import TinyClr.Pal.BlockStorageRuns
import TinyClr.Pal.CompletionsRuns
import TinyClr.Pal.GraphicsSpec
import TinyClr.Pal.HalQueueSpec
import TinyClr.Pal.I2cSpec
import TinyClr.Pal.MFUpdatePacketsSpec
import TinyClr.Pal.MFUpdateRuns
import TinyClr.Pal.SimpleHeapRuns
import TinyClr.Pal.TimeDriverSpec
import TinyClr.Pal.UsbControlSpec
import TinyClr.Pal.UsbStreamsRuns
import TinyClr.Support.CompressionWrap
import TinyClr.Support.WireProtocolDelivery
import TinyClr.TinyBooter.BitFieldManagerRuns
