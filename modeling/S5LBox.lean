import S5LBox.App.HleContract
import S5LBox.App.LoadedInstances
import S5LBox.App.Recording
import S5LBox.App.SnapshotIds
import S5LBox.App.TouchDelivery
import S5LBox.App.WorkAdoption
import S5LBox.Arm.Parallel
import S5LBox.Arm.PerOctet
import S5LBox.Arm.Return
import S5LBox.Arm.ThumbArm
import S5LBox.Arm.WideSums
import S5LBox.Block.BridgeRejection
import S5LBox.Block.CowCrash
import S5LBox.Block.CowProtocol
import S5LBox.Block.CowReplay
import S5LBox.Block.SourceExact
import S5LBox.Boot.Started
import S5LBox.Boot.TreeBlob
import S5LBox.Boot.TreePatched
import S5LBox.Firmware.DmgSealed
import S5LBox.Firmware.Img3Load
import S5LBox.Firmware.InflateStream
import S5LBox.Firmware.Ksyms
import S5LBox.Firmware.Lzss
import S5LBox.Firmware.PlistNested
import S5LBox.Firmware.Sha1Stream
import S5LBox.Firmware.ZipSizes
import S5LBox.Net.Handles
import S5LBox.Net.RightEdge
import S5LBox.Ppp.Conformance
import S5LBox.Ppp.Parameters
import S5LBox.Soc.Buttons
import S5LBox.Soc.DeviceTime
import S5LBox.Soc.DmaSpi
import S5LBox.Soc.Routing
import S5LBox.Soc.SerialLine
import S5LBox.Soc.Storage
import S5LBox.Tools.BitmapAlloc
import S5LBox.Tools.PatternScan
import S5LBox.Tools.Pixels
import S5LBox.Tools.Publication
import S5LBox.Tools.TarCut
