import Whybiz.Runs
import Whybiz.Framing
import Whybiz.JsonText
import Whybiz.Memory
import Whybiz.Overlay
import Whybiz.CNumbers
import Whybiz.Protocol
import Whybiz.NordicRelays
import Whybiz.NordicCommands
import Whybiz.NordicDecoding
import Whybiz.NordicFrame
import Whybiz.NordicStatus
import Whybiz.NordicSystem
import Whybiz.NordicDelivery
import Whybiz.NordicIntegrity
import Whybiz.NordicChunks
import Whybiz.NordicBoot
import Whybiz.NordicStack
import Whybiz.NordicNotices
import Whybiz.NordicBounds
import Whybiz.NordicWrites
import Whybiz.EspDevice
import Whybiz.EspCommands
import Whybiz.EspPaths
import Whybiz.EspSerial
import Whybiz.EspBoot
import Whybiz.Agreement
import Whybiz.EspRelays
import Whybiz.EspAdvertising
import Whybiz.NodeRed
import Whybiz.PythonBridge
import Whybiz.BleUart
import Whybiz.BleReports
import Whybiz.RtosParser
import Whybiz.EspLoops
import Whybiz.Blocking
import Whybiz.Markers
import Whybiz.LoraRadio
import Whybiz.LoraModule
import Whybiz.LoraConsole
import Whybiz.LoraFraming
import Whybiz.LoraCommands
import Whybiz.LoraBuffer
import Whybiz.LoraSessions
import Whybiz.LoraPayload
import Whybiz.LoraLink
import Whybiz.LoraDurability
import Whybiz.LoraCoherence
import Whybiz.LoraRejection
import Whybiz.LoraAtomicity
import Whybiz.Rotation
import Whybiz.EspStatus
import Whybiz.StatusRotation
import Whybiz.ChannelRejection
import Whybiz.NordicFaults
import Whybiz.LoraSequence
import Whybiz.BleBounds
import Whybiz.BleTransmit
import Whybiz.LoraNoise
import Whybiz.StatusRoundTrip
import Whybiz.BitPolynomials
import Whybiz.AhtChecksum
import Whybiz.Latest
import Whybiz.Displays
import Whybiz.DashboardOrders
import Whybiz.EspSession
import Whybiz.Flash
import Whybiz.LoraFlash
import Whybiz.LoraPowerCuts
import Whybiz.Ring
import Whybiz.LoraSerial
import Whybiz.Heap
import Whybiz.NordicUart
import Whybiz.LoraMac
import Whybiz.LoraAddressing
import Whybiz.LoraMesh
import Whybiz.LoraFlood
