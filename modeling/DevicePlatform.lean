import DevicePlatform.Transition
import DevicePlatform.Firmware
import DevicePlatform.TimerCallback
import DevicePlatform.DataReady
import DevicePlatform.RegisterProtocol
import DevicePlatform.DrainPass
import DevicePlatform.WakeUp
import DevicePlatform.DrainErrors
import DevicePlatform.DrainLoop
import DevicePlatform.Handshake
import DevicePlatform.SampleIntegrity
import DevicePlatform.LossVisibility
import DevicePlatform.SoftReset
import DevicePlatform.BoundedQueue
import DevicePlatform.SampleLedger
import DevicePlatform.BlockingRead
import DevicePlatform.Devbus.Recording
import DevicePlatform.Devbus.Wakeups
import DevicePlatform.Devbus.Stalling
import DevicePlatform.Devbus.Admission
import DevicePlatform.Devbus.Pressure
import DevicePlatform.Devbus.Memory
import DevicePlatform.Devbus.Replay
import DevicePlatform.Devbus.Ownership
import DevicePlatform.DeviceService.Refusal
import DevicePlatform.DeviceService.ControlServer
import DevicePlatform.DeviceService.Calibration
import DevicePlatform.DeviceService.CongestionLoss
import DevicePlatform.DeviceService.RateControl
import DevicePlatform.DeviceService.FaultEvidence
import DevicePlatform.DeviceService.LeastSquares
import DevicePlatform.DeviceService.RingBuffer
import DevicePlatform.DeviceService.CalibratorScope
import DevicePlatform.DeviceAuth.RoundTrip
import DevicePlatform.DeviceAuth.StatusWord
import DevicePlatform.SlotUpdate
import DevicePlatform.DeviceIdentity
import DevicePlatform.DeviceService.Watchdog
import DevicePlatform.DeviceService.SampleAge
import DevicePlatform.DeviceService.StatusLedger
import DevicePlatform.DeviceService.Shutdown
import DevicePlatform.DeviceAuth.Gate
import DevicePlatform.Devbus.Bridge
