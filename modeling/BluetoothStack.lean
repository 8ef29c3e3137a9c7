import BluetoothStack.Lib.Words
import BluetoothStack.Lib.Ensures
import BluetoothStack.Lib.Fifo
import BluetoothStack.Lib.Chunks
import BluetoothStack.Lib.LineBuffer
import BluetoothStack.Lib.Triplets
import BluetoothStack.Lib.Runs
import BluetoothStack.Lib.Keyed
import BluetoothStack.Lib.Reading
import BluetoothStack.Lib.Window
import BluetoothStack.Lib.SortedMap
import BluetoothStack.Lib.FairMutex
import BluetoothStack.Lib.Cmac
import BluetoothStack.Lib.Crc
import BluetoothStack.Ag.AtParser
import BluetoothStack.Ag.AtFraming
import BluetoothStack.Bnep.Frames
import BluetoothStack.Bnep.Transparency
import BluetoothStack.Avrc.CommandQueue
import BluetoothStack.L2cap.Types
import BluetoothStack.L2cap.Fcr
import BluetoothStack.L2cap.Fcs
import BluetoothStack.L2cap.Frames
import BluetoothStack.L2cap.ErtmCore
import BluetoothStack.L2cap.ErtmReceive
import BluetoothStack.L2cap.ErtmRun
import BluetoothStack.L2cap.ErtmWindow
import BluetoothStack.L2cap.ErtmSrej
import BluetoothStack.L2cap.ErtmStream
import BluetoothStack.L2cap.ErtmLink
import BluetoothStack.L2cap.ErtmDelivery
import BluetoothStack.L2cap.Segmentation
import BluetoothStack.L2cap.ErtmAir
import BluetoothStack.L2cap.SarSafety
import BluetoothStack.L2cap.Lcc
import BluetoothStack.L2cap.LccTransfer
import BluetoothStack.L2cap.LccSafety
import BluetoothStack.L2cap.LinkCredits
import BluetoothStack.L2cap.LinkCreditsInv
import BluetoothStack.L2cap.LinkQuotas
import BluetoothStack.L2cap.LinkScan
import BluetoothStack.L2cap.CreditBased
import BluetoothStack.L2cap.ConfigOptions
import BluetoothStack.L2cap.ConfigReject
import BluetoothStack.L2cap.PeerConfig
import BluetoothStack.Rfcomm.Ports
import BluetoothStack.Rfcomm.IdleCheck
import BluetoothStack.Rfcomm.Dlc
import BluetoothStack.Rfcomm.DlcRules
import BluetoothStack.Rfcomm.DlcTx
import BluetoothStack.Rfcomm.DlcCredits
import BluetoothStack.Rfcomm.DlcReceive
import BluetoothStack.Rfcomm.Frames
import BluetoothStack.Gatt.Uuid
import BluetoothStack.Gatt.Db
import BluetoothStack.Gatt.Browse
import BluetoothStack.Gatt.Discovery
import BluetoothStack.Gatt.ReadByType
import BluetoothStack.Gatt.ReadMultiple
import BluetoothStack.ConnMgr.Manager
import BluetoothStack.ConnMgr.AcceptList
import BluetoothStack.ConnMgr.Filtering
import BluetoothStack.Acl.PacketView
import BluetoothStack.Acl.Fragmenter
import BluetoothStack.Packet.Inserters
import BluetoothStack.Acl.Assembler
import BluetoothStack.Acl.Recombination
import BluetoothStack.Acl.RoundRobin
import BluetoothStack.Acl.PriorityLevels
import BluetoothStack.Acl.RoundRobinCredits
import BluetoothStack.Acl.RoundRobinStalls
import BluetoothStack.Acl.Scheduler
import BluetoothStack.Acl.SchedulerOrder
import BluetoothStack.Hci.Commands
import BluetoothStack.Hci.FlowControl
import BluetoothStack.Scan.Reassembler
import BluetoothStack.Scan.Exact
import BluetoothStack.Packet.View
import BluetoothStack.Packet.Iterator
import BluetoothStack.Storage.ListMap
import BluetoothStack.Storage.Text
import BluetoothStack.Storage.ConfigCache
import BluetoothStack.Storage.PairedDevices
import BluetoothStack.Storage.LegacyConfigFile
import BluetoothStack.Storage.RoundTrip
import BluetoothStack.Storage.DamagedFile
import BluetoothStack.Obex.AppParameters
import BluetoothStack.LeAudio.BaseData
import BluetoothStack.LeAudio.Announcement
import BluetoothStack.LeAudio.Broadcast
import BluetoothStack.LeAudio.BroadcastSafety
import BluetoothStack.LeAudio.BroadcastSettles
import BluetoothStack.LeAudio.LtvMap
import BluetoothStack.Crypto.AesCmac
import BluetoothStack.SecDev.Consolidate
import BluetoothStack.Avdt.Fragmentation
import BluetoothStack.Avdt.SepConfig
import BluetoothStack.Sdp.Discovery
import BluetoothStack.Gatt.WritePermission
import BluetoothStack.Gatt.Notifications
import BluetoothStack.Gatt.ClientQueue
import BluetoothStack.Gatt.LongRead
import BluetoothStack.Gatt.AttMtu
import BluetoothStack.Avct.Fragmentation
import BluetoothStack.Avct.ReassemblySafety
import BluetoothStack.Bnep.Filters
import BluetoothStack.Acl.Delivery
import BluetoothStack.A2dp.SbcConfig
