import Lrlb.Reactor.CtlFailure
import Lrlb.Reactor.TcpClient

/-! `tcp_client` in its event loop: connecting, sending, writing and cleaning up. -/
namespace Lrlb.Reactor
open Lib

/-- The callbacks that a client registers for its socket. -/
inductive ClientCallback where
  | readCallback | writeCallback | connectionDelay
deriving DecidableEq, Repr

/-- What `connect` reports. -/
inductive ConnectResult where
  | connected | inProgress | failed
deriving DecidableEq, Repr

/-- What a call of `write` returns, with `errno` where it is -1. -/
inductive WriteReturn where
  | wrote (k : Int32) | eintr | eagain | error
deriving DecidableEq, Repr

/-- A client with its loop. The hooks of the user are present or not, and `starts`, `delays` and
`cleans` count the calls of the start hook, of `connection_delay` and of `clean_conn`. -/
structure ClientConn where
  tcp : TcpClient
  sockfd : Fd
  loop : EventLoop ClientCallback
  connStartCb : Bool
  starts : ℕ
  delays : ℕ
  cleans : ℕ

namespace ClientConn

/-- The calls of `epoll_ctl` in this class do not fail for reasons of their own. -/
def addIoEvent (s : ClientConn) (proc : ClientCallback) (d : Direction) : ClientConn :=
  { s with loop := s.loop.addIoEvent false s.sockfd proc d.mask }

/-- What follows on an established connection, from `do_connect` and `connection_delay`. -/
def established (s : ClientConn) : ClientConn :=
  let s := { s with tcp := { s.tcp with connected := true } }
  let s := if s.connStartCb then { s with starts := s.starts + 1 } else s
  let s := s.addIoEvent .readCallback .epollin
  if s.tcp.obuf.length ≠ 0 then s.addIoEvent .writeCallback .epollout else s

/-- `do_connect` on a socket that has just been opened; `none` is `exit`. -/
def doConnect? (s : ClientConn) : ConnectResult → Option ClientConn
  | .connected => some s.established
  | .inProgress => some (s.addIoEvent .connectionDelay .epollout)
  | .failed => none

/-- The constructor. It does not set `connected`, so that `rawConnected` is what the memory held. -/
def new? (loop : EventLoop ClientCallback) (sockfd : Fd) (rawConnected : Bool)
    (rawIn rawOut : ℤ → UInt8) (result : ConnectResult) : Option ClientConn :=
  let tcp : TcpClient := ⟨rawConnected, IoBuf.new 4194304 rawIn, IoBuf.new 4194304 rawOut⟩
  doConnect? ⟨tcp, sockfd, loop, false, 0, 0, 0⟩ result

/-- `connection_delay`, with what `getsockopt` finds. -/
def connectionDelay (s : ClientConn) (soError : Int32) : ClientConn :=
  let s := { s with loop := s.loop.delIoEvent false s.sockfd, delays := s.delays + 1 }
  if soError = 0 then s.established else s

/-- `tcp_client::send_message` with the return value. -/
def sendMessage (s : ClientConn) (data : List UInt8) (msgid : Int32) : ClientConn × Int32 :=
  let needAddEvent := s.tcp.obuf.length = 0
  let (tcp, ret) := s.tcp.sendMessage data msgid
  let s := { s with tcp := tcp }
  if ret = 0 ∧ needAddEvent then (s.addIoEvent .writeCallback .epollout, ret) else (s, ret)

/-- `tcp_client::clean_conn`. The descriptor is closed and keeps its number in `_sockfd`. -/
def cleanConn (s : ClientConn) : ClientConn :=
  { s with
    tcp := { s.tcp with connected := false }
    loop := s.loop.delIoEvent false s.sockfd
    cleans := s.cleans + 1 }

/-- One call of `write` in `tcp_client::do_write`, the `i`-th, and what is done with its result:
the loop ends, or goes on to the next call. -/
def writeBody (writes : ℕ → WriteReturn) :
    ℕ × ClientConn → (ℕ × ClientConn) ⊕ (WriteReturn × ℕ × ClientConn)
  | (i, s) =>
    if s.tcp.obuf.length = 0 then .inl (i, s)
    else match writes i with
      | .wrote k =>
        if 0 < k then .inr (.wrote k, i + 1, { s with tcp := s.tcp.wrote k }) else .inl (i + 1, s)
      | .eintr => .inr (.eintr, i + 1, s)
      -- the source does not leave the loop here
      | .error => .inr (.error, i + 1, s.cleanConn)
      | .eagain => .inl (i + 1, s)

/-- After the loop of `do_write`: the write event goes once everything is written. -/
def finishWrite (s : ClientConn) : ClientConn :=
  if s.tcp.obuf.length = 0 then
    { s with loop := s.loop.delIoEventMask false s.sockfd Direction.epollout.mask }
  else s

/-- `tcp_client::do_write` in at most `n` rounds, with the results after which it went on. `none`
is the failed assertion or a loop that has not ended. -/
def doWrite? (n : ℕ) (writes : ℕ → WriteReturn) (s : ClientConn) :
    Option (ClientConn × List WriteReturn) :=
  if s.tcp.obuf.head = 0 ∧ s.tcp.obuf.length ≠ 0 then
    (Lib.loop (writeBody writes) n (0, s)).map fun r => (r.2.2.finishWrite, r.1)
  else none

end ClientConn

end Lrlb.Reactor
