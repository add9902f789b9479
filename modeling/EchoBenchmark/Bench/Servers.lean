import EchoBenchmark.Bench.Flow
import EchoBenchmark.Boost.Relayed
import EchoBenchmark.Dotnet.Server
import EchoBenchmark.Echo.Relayed
import EchoBenchmark.Go.Relayed
import EchoBenchmark.Nio.Losses
import EchoBenchmark.Streams.Server

/-!
The servers of the benchmark, each with the tester. Client `id` of the tester has connection
`conn id` of the server. The writes of boost::asio, Go and .NET, which the program hears of when
they end, go out piece by piece.
-/

namespace EchoBenchmark.Bench

variable (conn : Nat → Nat)

def aio : Served Echo.Server (Proactor.Action Echo.Fn) UInt8 where
  machine := Echo.echo
  obeys := Echo.Server.kernelObeys
  received id s := Echo.received (conn id) s.core.heap.log
  sent id s := Echo.sent (conn id) s.core.heap.log

def boost : Served (Sender.State Boost.Server Char) (Sender.Action Boost.Action) Char where
  machine := Boost.sender.pieces Boost.server
  obeys := Sender.obeys fun _ a => Boost.Coroutine.delivers a
  received id s := Boost.receivedIn (Boost.Coroutine.callbackHistories s.core) (conn id)
  sent id s := s.out (conn id)

def boostCoro :
    Served (Sender.State Boost.Coroutine.Server Char) (Sender.Action Boost.Action) Char where
  machine := Boost.Coroutine.sender.pieces Boost.Coroutine.coroutine
  obeys := Sender.obeys fun _ a => Boost.Coroutine.delivers a
  received id s := Boost.receivedIn s.core.histories (conn id)
  sent id s := s.out (conn id)

def go : Served (Sender.State Go.Pooled UInt8) (Sender.Action Go.Pooled.Action) UInt8 where
  machine := Go.sender.pieces Go.pooled
  obeys := Sender.obeys Machine.free
  received id s := Go.readFrom (conn id) s.core.log
  sent id s := s.out (conn id)

def dotnet : Served (Sender.State Dotnet.Server UInt8) (Sender.Action Dotnet.Action) UInt8 where
  machine := Dotnet.sender.pieces Dotnet.server
  obeys := Sender.obeys Machine.free
  received id s := Dotnet.readFrom (conn id) s.core.log
  sent id s := s.out (conn id)

/-- The uvloop server and the Node server. -/
def streams (p : Streams.Program) : Served Streams.Server Streams.Action UInt8 where
  machine := Streams.server p
  obeys := Machine.free
  received id s := Streams.readFrom (conn id) s.log
  sent id s := Streams.sentTo (conn id) s.log

/-- The Java and the Kotlin server. -/
def nio (p : Nio.Program) : Served Nio.Server Nio.Action UInt8 where
  machine := Nio.nio p
  obeys := Machine.free
  received id s := Nio.readFrom (conn id) s.log
  sent id s := Nio.writtenTo (conn id) s.log

/-! ### What comes back from them -/

theorem thins_aio : Thins (aio conn) := thins_of_isRelay fun id => Echo.isRelay (conn id)

theorem thins_boost : Thins (boost conn) := thins_of_isRelay fun id => Boost.isRelay (conn id)

theorem thins_boostCoro : Thins (boostCoro conn) :=
  thins_of_isRelay fun id => Boost.Coroutine.isRelay (conn id)

theorem thins_go : Thins (go conn) := thins_of_isRelay fun id => Go.isRelay (conn id)

theorem thins_dotnet : Thins (dotnet conn) := thins_of_isRelay fun id => Dotnet.isRelay (conn id)

theorem thins_streams (p : Streams.Program) : Thins (streams conn p) :=
  thins_of_isRelay fun id => (Streams.keeps p (conn id)).isRelay

theorem thins_nio (p : Nio.Program) : Thins (nio conn p) where
  starts := by
    rintro s rfl id
    rfl
  sent _ hr id := Nio.Server.sublist_of_reachable hr (conn id)

/-- Whichever of these servers the tester measures, with any number of clients, and whatever the
bytes are that they write: each success that it counts is an echo of exactly these bytes. -/
theorem successes_are_echoes :
    Trusted (aio conn) ∧ Trusted (boost conn) ∧ Trusted (boostCoro conn) ∧ Trusted (go conn) ∧
      Trusted (dotnet conn) ∧ (∀ p, Trusted (streams conn p)) ∧ ∀ p, Trusted (nio conn p) :=
  ⟨(thins_aio conn).trusted, (thins_boost conn).trusted, (thins_boostCoro conn).trusted,
    (thins_go conn).trusted, (thins_dotnet conn).trusted, fun p => (thins_streams conn p).trusted,
    fun p => (thins_nio conn p).trusted⟩

/-- A client of the tester goes once around the .NET server, whose write goes out in two pieces. -/
example : ((bench (dotnet id) 1 [49, 50]).exec Machine.free
    (State.start 1 ⟨Dotnet.Server.initial, fun _ => []⟩)
    [.tester (.complete 0 true), .server (.core (.accept true)),
      .server (.core (.getStream 0 true)), .put 0 2, .server (.core (.read 0 (.bytes [49, 50]))),
      .tester (.complete 0 true), .server (.goes 0 1), .get 0 1, .server (.goes 0 1),
      .server (.core (.write 0 .done)), .get 0 1, .tester (.complete 0 true)]).map
    (fun s => (s.tester.success, s.echoes)) = some (1, [(0, [49, 50])]) := by
  decide +kernel

end EchoBenchmark.Bench
