import QuadBot.Lib.Lts
import QuadBot.Lib.Selector
import QuadBot.Lib.Clock
import QuadBot.Libc
import QuadBot.I2c
import QuadBot.MotorDriver
import QuadBot.MotorBus
import QuadBot.MotorChannels
import QuadBot.MotorRuns
import QuadBot.Loop
import QuadBot.BmsCore
import QuadBot.BmsReady
import QuadBot.BmsSetup
import QuadBot.BmsChip
import QuadBot.BmsConversion
import QuadBot.BmsNumerical
import QuadBot.SetUpBMS
import QuadBot.BmsRead
import QuadBot.BmsCoulomb
import QuadBot.BmsTotals
import QuadBot.Lib.Binary
import QuadBot.BmsFailedReads
import QuadBot.BmsFields
import QuadBot.Lib.Quantizer
import QuadBot.BmsReadings
import QuadBot.BmsMonitoring
import QuadBot.BmsTiming
import QuadBot.MotorState
import QuadBot.SpiMux
import QuadBot.Encoder
import QuadBot.Lib.Appended
import QuadBot.EncoderPins
import QuadBot.Lib.Odometer
import QuadBot.EncoderBank
import QuadBot.EncoderRejected
import QuadBot.EncoderTurns
import QuadBot.Lib.Latest
import QuadBot.BmsIdentity
import QuadBot.BmsIdentityHalves
import QuadBot.PowerManagement
import QuadBot.BmsCurrent
import QuadBot.BmsConfigWords
import QuadBot.BmsArguments
import QuadBot.BmsNearest
import QuadBot.LoopLines
import QuadBot.LoopOps
import QuadBot.MotorRejected
import QuadBot.Scanning
import QuadBot.StopLine
import QuadBot.LoopNumbers
import QuadBot.LoopCut
import QuadBot.Lib.Routed
import QuadBot.MotorInterleaved
import QuadBot.MotorLost
import QuadBot.LoopMotors
import QuadBot.Lib.Lossy
import QuadBot.BmsTransactions
import QuadBot.BmsLost
import QuadBot.BmsMeasurements
import QuadBot.EncoderGauges
import QuadBot.PowerRuns
import QuadBot.Firmware
import QuadBot.FirmwareRuns
import QuadBot.LoopTransfers
import QuadBot.LoopReports
import QuadBot.LoopHost
