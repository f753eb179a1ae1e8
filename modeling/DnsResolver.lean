import DnsResolver.Lib.TransitionSystem
import DnsResolver.Lib.Tally
import DnsResolver.Lib.Ring
import DnsResolver.Lib.Merge
import DnsResolver.Lib.Stage
import DnsResolver.Lib.History
import DnsResolver.Lib.Channel
import DnsResolver.Lib.Signed
import DnsResolver.Lib.Fairness
import DnsResolver.Array.ArrayDefs
import DnsResolver.Array.ArraySteps
import DnsResolver.Array.ArrayInv
import DnsResolver.Array.ArrayFifo
import DnsResolver.Array.ArrayShutdown
import DnsResolver.Array.ArrayWakeups
import DnsResolver.Array.ArrayQuiescence
import DnsResolver.Array.ArrayCounter
import DnsResolver.Array.ArrayDrain
import DnsResolver.Array.ArrayStall
import DnsResolver.Array.ArrayContents
import DnsResolver.Array.ArrayProgress
import DnsResolver.Array.ArrayTimeout
import DnsResolver.Array.ArraySolo
import DnsResolver.Array.ArrayWork
import DnsResolver.Array.ArrayChannel
import DnsResolver.Array.ArrayExact
import DnsResolver.Text.Lines
import DnsResolver.Text.Decimal
import DnsResolver.Text.LogFormat
import DnsResolver.Threaded.ThreadedDefs
import DnsResolver.Threaded.ThreadedSteps
import DnsResolver.Threaded.ThreadedQueues
import DnsResolver.Threaded.ThreadedOwnership
import DnsResolver.Threaded.ThreadedPhases
import DnsResolver.Threaded.ThreadedShutdown
import DnsResolver.Threaded.ThreadedStrings
import DnsResolver.Threaded.ThreadedFiles
import DnsResolver.Threaded.ThreadedLines
import DnsResolver.Threaded.ThreadedOrder
import DnsResolver.Threaded.ThreadedLastReader
import DnsResolver.Threaded.ThreadedStatistics
import DnsResolver.Threaded.ThreadedJoins
import DnsResolver.Threaded.ThreadedProgress
import DnsResolver.Threaded.ThreadedLifecycle
import DnsResolver.Threaded.ThreadedHandler
import DnsResolver.Threaded.ThreadedInterrupt
import DnsResolver.Threaded.ThreadedSolo
import DnsResolver.Threaded.ThreadedDraining
import DnsResolver.Threaded.ThreadedSignal
import DnsResolver.Threaded.ThreadedWork
import DnsResolver.Threaded.ThreadedFairness
import DnsResolver.Threaded.ThreadedMemory
import DnsResolver.Threaded.ThreadedFailures
import DnsResolver.Threaded.ThreadedChannels
import DnsResolver.Threaded.ThreadedMessages
import DnsResolver.Threaded.ThreadedErrors
import DnsResolver.Threaded.ThreadedStages
import DnsResolver.Threaded.ThreadedMain
import DnsResolver.Simple.SimpleDefs
import DnsResolver.Simple.SimpleAgreement
import DnsResolver.Simple.SimpleReplay
import DnsResolver.Simple.SimpleErrors
import DnsResolver.Simple.SimpleCommand
import DnsResolver.Stress.StressDefs
import DnsResolver.Stress.StressSteps
import DnsResolver.Stress.StressItems
import DnsResolver.Stress.StressCounts
import DnsResolver.Stress.StressVerdict
import DnsResolver.Stress.StressProgress
import DnsResolver.Stress.StressWork
