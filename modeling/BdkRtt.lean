import BdkRtt.Lib.Machine
import BdkRtt.Lib.Mem
import BdkRtt.Lib.Ring
import BdkRtt.Lib.Space
import BdkRtt.Lib.Fifo
import BdkRtt.Lib.Crc
import BdkRtt.Audio.RingBuffer
import BdkRtt.Audio.RingBufferLaws
import BdkRtt.Video.Buffer
import BdkRtt.Video.BufferLaws
import BdkRtt.Video.Delivery
import BdkRtt.Video.Bounds
import BdkRtt.Dhcp.Server
import BdkRtt.Dhcp.ServerLaws
import BdkRtt.Dhcp.Leases
import BdkRtt.Flash.Driver
import BdkRtt.Flash.DriverLaws
import BdkRtt.Flash.CrcPort
import BdkRtt.Flash.CrcPortLaws
import BdkRtt.Driver.Model
import BdkRtt.Driver.ModelLaws
import BdkRtt.Driver.Lifecycle
import BdkRtt.App.Core
import BdkRtt.App.RxNotify
import BdkRtt.Wlan.RoleLaunch
import BdkRtt.Wlan.RoleLaunchLaws
import BdkRtt.Wlan.RoleExclusion
import BdkRtt.Wlan.RoleOwnership
import BdkRtt.Wlan.Msdu
import BdkRtt.Wlan.MsduLaws
import BdkRtt.Wlan.MsduDelivery
import BdkRtt.Flash.CrcImage
import BdkRtt.Wlan.MsduTim
import BdkRtt.Flash.Partition
import BdkRtt.Flash.PartitionLaws
import BdkRtt.Lib.Bytes
import BdkRtt.Lib.Tlv
import BdkRtt.Flash.NetParam
import BdkRtt.Flash.NetParamLaws
import BdkRtt.Flash.NetParamStore
import BdkRtt.Lib.Blocks
import BdkRtt.Ota.HttpFlash
import BdkRtt.Ota.HttpFlashLaws
import BdkRtt.Ota.HttpStream
import BdkRtt.Ota.Tftp
import BdkRtt.Ota.TftpLaws
import BdkRtt.Ota.TftpImage
import BdkRtt.Wlan.BkAware
import BdkRtt.Wlan.BkAwareLaws
import BdkRtt.Audio.SoundDelay
import BdkRtt.Audio.SoundDelayLaws
import BdkRtt.Video.Transfer
import BdkRtt.Video.TransferLaws
import BdkRtt.Audio.Gdma
import BdkRtt.Audio.RingDmaRead
import BdkRtt.Audio.RingDmaReadLaws
import BdkRtt.Audio.RingDmaWrite
import BdkRtt.Audio.RingDmaWriteLaws
import BdkRtt.Ota.HttpClient
import BdkRtt.Ota.HttpClientLaws
import BdkRtt.Audio.MixerSource
import BdkRtt.Audio.MixerSourceLaws
import BdkRtt.Audio.Mixer
import BdkRtt.Audio.MixerLaws
import BdkRtt.Wlan.PowerSave
import BdkRtt.Wlan.PowerSaveLaws
import BdkRtt.Lib.Walk
import BdkRtt.Wlan.RwMsg
import BdkRtt.Wlan.RwMsgLaws
import BdkRtt.Wlan.ScanRst
import BdkRtt.Wlan.ScanRstLaws
import BdkRtt.Wlan.ApIdle
import BdkRtt.Wlan.ApIdleLaws
import BdkRtt.Audio.DataNode
import BdkRtt.Audio.DataNodeLaws
import BdkRtt.Audio.IcodecDac
import BdkRtt.Audio.IcodecDacLaws
import BdkRtt.Audio.Mic
import BdkRtt.Audio.MicLaws
import BdkRtt.Video.NodeRx
import BdkRtt.Video.NodeRxLaws
import BdkRtt.Ota.ExternFlash
import BdkRtt.Ota.ExternFlashLaws
import BdkRtt.Wlan.PingPong
import BdkRtt.Wlan.PingPongLaws
import BdkRtt.Driver.Intc
import BdkRtt.Driver.IntcLaws
import BdkRtt.Driver.Sdio
import BdkRtt.Driver.SdioLaws
import BdkRtt.Driver.SdioSafety
import BdkRtt.Driver.SpiMaster
import BdkRtt.Driver.SpiMasterLaws
import BdkRtt.Flash.SpiFlash
import BdkRtt.Flash.SpiFlashLaws
import BdkRtt.Driver.Sdcard
import BdkRtt.Driver.SdcardLaws
import BdkRtt.Dhcp.Acks
import BdkRtt.Flash.CrcErase
import BdkRtt.Flash.WriteData
import BdkRtt.Driver.Devices
import BdkRtt.Driver.DevicesLaws
import BdkRtt.Wlan.PckCnt
import BdkRtt.Wlan.PckCntLaws
import BdkRtt.Wlan.PsTimer
import BdkRtt.Wlan.PsTimerLaws
import BdkRtt.Saradc.TempDetect
import BdkRtt.Saradc.TempDetectLaws
import BdkRtt.Saradc.Saradc
import BdkRtt.Saradc.SaradcLaws
import BdkRtt.At.Parse
import BdkRtt.At.ParseLaws
import BdkRtt.At.ParseRoundTrip
import BdkRtt.At.RegistryLaws
import BdkRtt.Audio.RingBufferSpace
import BdkRtt.Audio.RingBufferSteps
import BdkRtt.Audio.RingBufferStepsLaws
import BdkRtt.Flash.NetParamSearch
import BdkRtt.Flash.NetParamSizes
import BdkRtt.Lib.Keyed
import BdkRtt.Lib.Reading
import BdkRtt.Ota.TftpWindow
import BdkRtt.Wlan.BkAwareBounds
import BdkRtt.Wlan.BkAwarePeers
import BdkRtt.Wlan.BkAwarePeersLaws
import BdkRtt.Audio.SdlyMixer
import BdkRtt.Audio.SdlyMixerLaws
import BdkRtt.Driver.Irda
import BdkRtt.Driver.IrdaLaws
import BdkRtt.Rttos.OsClock
import BdkRtt.Rttos.OsClockLaws
import BdkRtt.Text.Base64
import BdkRtt.Text.Base64Laws
import BdkRtt.Video.ElemPool
import BdkRtt.Video.ElemPoolLaws
import BdkRtt.Driver.SdioScan
import BdkRtt.Driver.SdioScanLaws
import BdkRtt.Flash.ReadErase
import BdkRtt.Lib.FirstBest
import BdkRtt.Lib.NulString
import BdkRtt.Rttos.PsTick
import BdkRtt.Rttos.PsTickLaws
import BdkRtt.Text.ConvUtf8
import BdkRtt.Text.ConvUtf8Laws
import BdkRtt.Wlan.ScanList
import BdkRtt.Wlan.ScanListLaws
import BdkRtt.Wlan.ScanListRefine
import BdkRtt.Flash.Disk
import BdkRtt.Lib.Ranked
import BdkRtt.Wlan.Airkiss
import BdkRtt.Wlan.AirkissScan
import BdkRtt.Wlan.AirkissScanLaws
import BdkRtt.Driver.SdioBusy
import BdkRtt.Driver.SdioBusyLaws
import BdkRtt.Wlan.AirkissMacs
import BdkRtt.Wlan.AirkissMacsLaws
import BdkRtt.Driver.BkTimer
import BdkRtt.Driver.BkTimerLaws
import BdkRtt.Driver.I2c1
import BdkRtt.Driver.I2c1Laws
import BdkRtt.Driver.SpiSlave
import BdkRtt.Driver.SpiSlaveLaws
import BdkRtt.Flash.SpiFlashErase
import BdkRtt.Flash.SpiFlashEraseLaws
import BdkRtt.Driver.I2c2
import BdkRtt.Driver.I2c2Laws
import BdkRtt.Driver.I2c2ReadLaws
import BdkRtt.Driver.I2s
import BdkRtt.Driver.I2sLaws
import BdkRtt.Driver.ExclusivePwm
import BdkRtt.Driver.ExclusivePwmLaws
import BdkRtt.Rttos.MemHeap
import BdkRtt.Rttos.MemHeapLaws
import BdkRtt.Rttos.MemHeapRuns
import BdkRtt.Rttos.Queue
import BdkRtt.Rttos.QueueLaws
import BdkRtt.Mqtt.Client
import BdkRtt.Mqtt.ClientLaws
