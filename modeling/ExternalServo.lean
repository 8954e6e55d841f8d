import ExternalServo.Acquisition
import ExternalServo.AcquisitionTime
import ExternalServo.ByteOrder
import ExternalServo.CDouble
import ExternalServo.CLib
import ExternalServo.ClockAdj
import ExternalServo.ClockCompare
import ExternalServo.ClockModel
import ExternalServo.Config
import ExternalServo.ConfigParser
import ExternalServo.Corrections
import ExternalServo.DelayBounds
import ExternalServo.Dispatch
import ExternalServo.DisturbedOrbits
import ExternalServo.EpochShift
import ExternalServo.Epochs
import ExternalServo.Filter
import ExternalServo.FilterRuns
import ExternalServo.FilterSafety
import ExternalServo.FilterWindow
import ExternalServo.FrequencyLimit
import ExternalServo.FrequencyWords
import ExternalServo.FreshStart
import ExternalServo.Journal
import ExternalServo.JumpDiscipline
import ExternalServo.KernelLimits
import ExternalServo.LeastSquares
import ExternalServo.Linreg
import ExternalServo.LinregAxes
import ExternalServo.LinregDivisors
import ExternalServo.LinregFresh
import ExternalServo.LinregWindow
import ExternalServo.LoopNoise
import ExternalServo.LoopStability
import ExternalServo.Magnitudes
import ExternalServo.Main
import ExternalServo.MessageLoop
import ExternalServo.MissingTimestamps
import ExternalServo.Msg
import ExternalServo.NoiseFree
import ExternalServo.OrderStatistics
import ExternalServo.ParserSafety
import ExternalServo.ParserTermination
import ExternalServo.Pi
import ExternalServo.PredictionError
import ExternalServo.RangeCheck
import ExternalServo.Reading
import ExternalServo.Recurrence
import ExternalServo.Regression
import ExternalServo.RegressionAccuracy
import ExternalServo.RegressionLoop
import ExternalServo.Requests
import ExternalServo.Runs
import ExternalServo.Selection
import ExternalServo.SeqLock
import ExternalServo.Servo
import ExternalServo.ServoBounds
import ExternalServo.ServoCalls
import ExternalServo.Servos
import ExternalServo.ShmProgram
import ExternalServo.ShmProtocol
import ExternalServo.SingleJump
import ExternalServo.SizeChoice
import ExternalServo.SlidingWindow
import ExternalServo.StableLock
import ExternalServo.StaleBytes
import ExternalServo.StoredSettings
import ExternalServo.TimeFormat
import ExternalServo.Tmv
import ExternalServo.Tsproc
import ExternalServo.TwoLevel
import ExternalServo.WireRange
