import EchoBenchmark.Bench.Losses
import EchoBenchmark.Bench.Progress
import EchoBenchmark.Bench.Work
import EchoBenchmark.Boost.Relayed
import EchoBenchmark.Dotnet.Failures
import EchoBenchmark.Echo.Completion
import EchoBenchmark.Echo.Descriptors
import EchoBenchmark.Echo.Relayed
import EchoBenchmark.Go.Relayed
import EchoBenchmark.Go.Failures
import EchoBenchmark.Log.Line
import EchoBenchmark.Nio.Faithful
import EchoBenchmark.Pool.Failures
import EchoBenchmark.Proactor.Backlog
import EchoBenchmark.Proactor.Closing
import EchoBenchmark.Proactor.Deadlines
import EchoBenchmark.Proactor.Delivery
import EchoBenchmark.Proactor.Drain
import EchoBenchmark.Proactor.HangUp
import EchoBenchmark.Proactor.Kqueue
import EchoBenchmark.Proactor.Listen
import EchoBenchmark.Proactor.ReadAll
import EchoBenchmark.Proactor.Refusals
import EchoBenchmark.Proactor.Removal
import EchoBenchmark.Proactor.Ring
import EchoBenchmark.Proactor.TimerScan
import EchoBenchmark.Proactor.Wakeup
import EchoBenchmark.Proactor.WriteAll
import EchoBenchmark.Streams.Failures
import EchoBenchmark.Tester.Main
