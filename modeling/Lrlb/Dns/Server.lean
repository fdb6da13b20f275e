import Lrlb.Lib.Run
import Lrlb.Dns.Subscribe
import Lrlb.Proto.Codec

/-! The dns server's worker threads beside its poller, one lock-protected step at a time:
connections that open, ask for routes and close, push tasks, table swaps and publications. -/
namespace Lrlb.Dns
open Lib Lib.Message
open Proto (GetRouteRequest GetRouteResponse)

/-- An open connection. `requested` and `sent` are no data of the program: they record the
requests that `get_route` was called with and the responses handed to `send_message`. -/
structure Conn where
  /-- the worker thread whose event loop listens on it -/
  loop : ℕ
  subList : HashSet UInt64
  requested : List GetRouteRequest
  sent : List GetRouteResponse
deriving DecidableEq

/-- What a worker thread is in the middle of. -/
inductive Mode where
  | idle
  /-- `get_route` before its subscription, before `get_hosts` and before `send_message` -/
  | subscribe (fd : Fd) (req : GetRouteRequest)
  | getHosts (fd : Fd) (req : GetRouteRequest)
  | send (fd : Fd) (rsp : GetRouteResponse)
  /-- `push_change_task` before the next `get_hosts`, or before the `send_message` after it -/
  | push (needPublish : List (Fd × UInt64))
  | pushSend (fd : Fd) (rsp : GetRouteResponse) (needPublish : List (Fd × UInt64))
  /-- `clean_conn` with the modules that `clear_subscribe` has still to unsubscribe -/
  | clean (fd : Fd) (mods : List UInt64)
deriving DecidableEq

structure Server where
  route : Route
  subs : SubscribeList
  conns : Fd → Option Conn
  mode : ℕ → Mode
  /-- the push tasks in a worker's queue -/
  tasks : ℕ → ℕ
  /-- the queue that `send_task` serves next, while the poller is inside `publish` -/
  broadcast : Option ℕ
  /-- the modules whose hosts changed in a swap since the last publication -/
  changed : List UInt64

inductive ServerAction where
  | newConn (w : ℕ) (fd : Fd)
  | getRoute (w : ℕ) (fd : Fd) (data : List UInt8)
  | cleanConn (w : ℕ) (fd : Fd)
  | pushChangeTask (w : ℕ)
  /-- the worker's next step in what it is in the middle of -/
  | resume (w : ℕ)
  | swap (rows : List RouteRow)
  | publish (changeMods : List UInt64)
  | sendTask

/-- The keys at which two tables hold different sets of hosts. -/
def RouteMap.differing (old new : RouteMap) : List UInt64 :=
  (old.keys ++ new.keys).filter fun key => ¬ (old.find key).Same (new.find key)

theorem RouteMap.same_of_notMem_differing {old new : RouteMap} {key : UInt64}
    (h : key ∉ RouteMap.differing old new) : (old.find key).Same (new.find key) := by
  by_cases hkey : key ∈ old.keys ++ new.keys
  · by_contra hne
    exact h (List.mem_filter.mpr ⟨hkey, by simpa using hne⟩)
  · rw [List.mem_append, not_or] at hkey
    rw [SetMap.find_of_notMem fun hk => hkey.1 hk, SetMap.find_of_notMem fun hk => hkey.2 hk]
    exact List.Perm.refl _

namespace Server

def init (rows : List RouteRow) : Server where
  route := Route.new 0 rows
  subs := SubscribeList.empty
  conns _ := none
  mode _ := .idle
  tasks _ := 0
  broadcast := none
  changed := []

def setMode (s : Server) (w : ℕ) (m : Mode) : Server :=
  { s with mode := Function.update s.mode w m }

def setConn (s : Server) (fd : Fd) (c : Option Conn) : Server :=
  { s with conns := Function.update s.conns fd c }

theorem mode_setMode_self (s : Server) (w : ℕ) (m : Mode) : (s.setMode w m).mode w = m :=
  Function.update_self ..

theorem mode_setMode_ne (s : Server) {v w : ℕ} (h : v ≠ w) (m : Mode) :
    (s.setMode w m).mode v = s.mode v := Function.update_of_ne h ..

theorem setMode_self (s : Server) (w : ℕ) : s.setMode w (s.mode w) = s := by
  rw [setMode, Function.update_eq_self]

theorem conns_setConn_self (s : Server) (fd : Fd) (c : Option Conn) :
    (s.setConn fd c).conns fd = c := Function.update_self ..

theorem conns_setConn_ne (s : Server) {f fd : Fd} (h : f ≠ fd) (c : Option Conn) :
    (s.setConn fd c).conns f = s.conns f := Function.update_of_ne h ..

/-- Whether a descriptor is in the `listen_fds` of a worker's event loop. -/
def listens (s : Server) (w : ℕ) (fd : Fd) : Bool := (s.conns fd).any fun c => c.loop = w

def newConn (s : Server) (w : ℕ) (fd : Fd) : Server := s.setConn fd (some ⟨w, ∅, [], []⟩)

def getRoute (s : Server) (w : ℕ) (fd : Fd) (c : Conn) (req : GetRouteRequest) : Server :=
  (s.setConn fd (some { c with requested := c.requested ++ [req] })).setMode w (.subscribe fd req)

def cleanConn (s : Server) (w : ℕ) (fd : Fd) (c : Conn) : Server :=
  s.setMode w (.clean fd c.subList.elems)

def pushChangeTask (s : Server) (w : ℕ) : Server :=
  let (needPublish, subs) := s.subs.makePublishMap (s.listens w)
  { s with subs := subs, tasks := Function.update s.tasks w (s.tasks w - 1) }.setMode w
    (.push needPublish.pairs)

/-- The connection's own list decides whether the module is subscribed to. -/
def subscribe (s : Server) (w : ℕ) (fd : Fd) (c : Conn) (req : GetRouteRequest) : Server :=
  (if requestKey req ∈ c.subList then s
    else { s with subs := s.subs.subscribe (requestKey req) fd }.setConn fd
      (some { c with subList := c.subList.insert (requestKey req) })).setMode w (.getHosts fd req)

def sendOn (s : Server) (fd : Fd) (c : Conn) (rsp : GetRouteResponse) : Server :=
  s.setConn fd (some { c with sent := c.sent ++ [rsp] })

def resume? (s : Server) (w : ℕ) : Option Server :=
  match s.mode w with
  | .idle => none
  | .subscribe fd req => (s.conns fd).map fun c => s.subscribe w fd c req
  | .getHosts fd req =>
    some (s.setMode w (.send fd (routeResponse s.route req.modid req.cmdid)))
  | .send fd rsp => (s.conns fd).map fun c => (s.sendOn fd c rsp).setMode w .idle
  | .push [] => some (s.setMode w .idle)
  | .push ((fd, mod) :: needPublish) =>
    some (s.setMode w (.pushSend fd (routeResponse s.route (highInt mod) (lowInt mod)) needPublish))
  | .pushSend fd rsp needPublish =>
    match s.conns fd with
    | none => some (s.setMode w (.push needPublish))
    | some c => some ((s.sendOn fd c rsp).setMode w (.push needPublish))
  | .clean fd [] => some ((s.setConn fd none).setMode w .idle)
  | .clean fd (mod :: mods) =>
    some ({ s with subs := s.subs.unsubscribe mod fd }.setMode w (.clean fd mods))

def swap (s : Server) (rows : List RouteRow) : Server :=
  let route := (s.route.loadRouteData (some rows)).1.swap
  { s with
    route := route
    changed := s.changed ++ RouteMap.differing s.route.dataPointer route.dataPointer }

def publish (s : Server) (changeMods : List UInt64) : Server :=
  { s with subs := s.subs.publish changeMods, changed := [], broadcast := some 0 }

def sendTask (threads : ℕ) (s : Server) (i : ℕ) : Server :=
  if i < threads then
    { s with tasks := Function.update s.tasks i (s.tasks i + 1), broadcast := some (i + 1) }
  else { s with broadcast := none }

/-- The connection on `fd`, if the worker `w` listens on it and is between two callbacks. -/
def ready? (s : Server) (w : ℕ) (fd : Fd) : Option Conn :=
  if s.mode w = .idle then (s.conns fd).filter fun c => c.loop = w else none

/-- A change list has to contain every module that a swap has changed since the last one. -/
def step (threads : ℕ) (s : Server) : ServerAction → Option Server
  | .newConn w fd =>
    if w < threads ∧ s.mode w = .idle ∧ s.conns fd = none then some (s.newConn w fd) else none
  | .getRoute w fd data => (s.ready? w fd).map fun c => s.getRoute w fd c (parse data).1
  | .cleanConn w fd => (s.ready? w fd).map fun c => s.cleanConn w fd c
  | .pushChangeTask w =>
    if w < threads ∧ s.mode w = .idle ∧ 0 < s.tasks w then some (s.pushChangeTask w) else none
  | .resume w => if w < threads then s.resume? w else none
  | .swap rows => if s.broadcast = none then some (s.swap rows) else none
  | .publish changeMods =>
    if s.broadcast = none ∧ s.changed ⊆ changeMods then some (s.publish changeMods)
    else none
  | .sendTask => s.broadcast.map (s.sendTask threads)

variable {s : Server} {w : ℕ} {fd : Fd} {c : Conn}

theorem listens_iff : s.listens w fd = true ↔ ∃ c, s.conns fd = some c ∧ c.loop = w := by
  unfold listens
  cases s.conns fd <;> simp

theorem ready?_eq_some (h : s.ready? w fd = some c) :
    s.mode w = .idle ∧ s.conns fd = some c ∧ c.loop = w := by
  unfold ready? at h
  split_ifs at h with hidle
  obtain ⟨hc, hl⟩ := Option.filter_eq_some_iff.mp h
  exact ⟨hidle, hc, of_decide_eq_true hl⟩

end Server

end Lrlb.Dns
