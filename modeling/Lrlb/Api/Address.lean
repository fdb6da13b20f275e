import Lrlb.Lib.Address
import Lrlb.Dns.Subscribe
import Lrlb.Agent.RouteLb
import Lrlb.Api.Client

/-! The way of an address from a row of `RouteData` through the dns server and the agent to the
text that the client library gives its caller. -/
namespace Lrlb.Api
open Lib Lib.Message Agent Dns
open Proto (GetHostResponse GetRouteResponse)
open Proto.LrlbRetCode (retSucc)

/-- The hosts that the agent reads in the answer for the module of a row. -/
def pulledHosts (route : Route) (row : RouteRow) : List Proto.HostInfo :=
  (parse (serialize (routeResponse route (atoi row.modid) (atoi row.cmdid))) :
    GetRouteResponse × Bool).1.host

/-- The text of a host's address in the agent's log. -/
def logText (hi : HostInfo) : String := inetNtoa (htonl hi.ip)

/-- The text that `get_host` and `get_route` make of an address. -/
def addressText (host : Proto.HostInfo) : String := inetNtoa host.ip.toUInt32

/-- What `get_host` gives its caller when the agent answers with the first host of a list. -/
def getHostText? (hosts : Ptr → HostInfo) (seq : UInt32) (modid cmdid : Int32) (list : List Ptr) :
    Option String := do
  let (rsp, _) ← LoadBalance.getHostFromList? hosts { seq := seq, modid := modid, cmdid := cmdid } list
  let (rsp, _) := parse (serialize { rsp with retcode := retSucc.value })
  (Client.getHostResult seq modid cmdid (some rsp)).2.map addressText

/-- What `get_route` gives its caller. -/
def getRouteTexts {R : Type} (cfg : Config R) (time : Int64) (raw : RawLoadBalance) (r : RouteLb)
    (modid cmdid : Int32) : List (String × Int32) :=
  let rsp := (r.getRoute cfg time raw modid cmdid { modid := modid, cmdid := cmdid }).2.1
  let (rsp, _) := parse (serialize rsp)
  (Client.getRouteResult modid cmdid (some rsp)).2.map fun host => (addressText host, host.port)

variable {R : Type}

/-- The address of a row that the table holds is pulled, and in every module that it is new to
the agent prints it, and the client library shows it, as the dotted quad of the row's number. -/
def ShowsAddress (cfg : Config R) (row : RouteRow) : Prop :=
  (∀ version rows, row ∈ rows → hostInfo row.value ∈ pulledHosts (Route.new version rows) row) ∧
  ∀ (mem : Memory) (lb : LoadBalance),
    LoadBalance.updateKey (hostInfo row.value).ip (hostInfo row.value).port ∉ lb.hostMap →
    let hi := mem.new lb.pointers
    let after := lb.insertHost cfg mem (hostInfo row.value)
    logText (after.hosts hi) = dottedQuad row.serverip ∧
    (∀ seq modid cmdid list,
      getHostText? after.hosts seq modid cmdid (hi :: list) = some (dottedQuad row.serverip)) ∧
    ∀ time raw (r : RouteLb) modid cmdid, r.routeLbMap (packInts modid cmdid) = some after →
      (dottedQuad row.serverip, (hostInfo row.value).port) ∈
        getRouteTexts cfg time raw r modid cmdid

section Table

theorem mem_pulledHosts (version : ℤ) {rows : List RouteRow} {row : RouteRow} (h : row ∈ rows) :
    hostInfo row.value ∈ pulledHosts (Route.new version rows) row := by
  rw [pulledHosts, Proto.parse_getRouteResponse]
  exact List.mem_map.mpr ⟨row.value, mem_ofRows.mpr ⟨row, h, rfl, rfl⟩, rfl⟩

/-- The address comes out of the packed value unless a port of 2^31 or more borrows from it. -/
theorem ip_hostInfo_iff (row : RouteRow) :
    (hostInfo row.value).ip.toUInt32 = row.serverip ↔ row.serverport.toNat < 2 ^ 31 := by
  have hval := RouteRow.toNat_value row
  have hip := row.serverip.toNat_lt
  have hport := row.serverport.toNat_lt
  rw [atoi, toInt_ofUInt32] at hval
  have hhigh : (hostInfo row.value).ip.toUInt32.toNat = row.value.toNat / 2 ^ 32 % 2 ^ 32 := by
    rw [hostInfo, highInt, UInt32.toUInt32_toInt32, UInt64.toNat_toUInt32, UInt64.toNat_shiftRight,
      show (32 : UInt64).toNat % 64 = 32 from rfl, Nat.shiftRight_eq_div_pow]
  rw [← UInt32.toNat_inj, hhigh]
  split_ifs at hval <;> constructor <;> intro h <;> omega

end Table

section Answers

variable (cfg : Config R) {lb : LoadBalance}

theorem getHostText?_cons (hosts : Ptr → HostInfo) (seq : UInt32) (modid cmdid : Int32) (hi : Ptr)
    (list : List Ptr) :
    getHostText? hosts seq modid cmdid (hi :: list) = some (inetNtoa (hosts hi).ip) := by
  simp [getHostText?, LoadBalance.getHostFromList?, Proto.parse_getHostResponse,
    Client.getHostResult, addressText, Proto.LrlbRetCode.value]

theorem getRouteTexts_of_module {time : Int64} {raw : RawLoadBalance} {r : RouteLb}
    {modid cmdid : Int32} (h : r.routeLbMap (packInts modid cmdid) = some lb) :
    getRouteTexts cfg time raw r modid cmdid =
      lb.getAllHosts.map fun p => (inetNtoa (lb.hosts p).ip, (lb.hosts p).port) := by
  simp [getRouteTexts, RouteLb.getRoute, h, Proto.parse_getRouteResponse, Client.getRouteResult,
    addressText, Function.comp_def]

/-- The record of a host that is new to a module. -/
theorem insertHost_record (mem : Memory) {x : Proto.HostInfo}
    (h : LoadBalance.updateKey x.ip x.port ∉ lb.hostMap) :
    ((lb.insertHost cfg mem x).hosts (mem.new lb.pointers)).ip = x.ip.toUInt32 ∧
    ((lb.insertHost cfg mem x).hosts (mem.new lb.pointers)).port = x.port ∧
    mem.new lb.pointers ∈ (lb.insertHost cfg mem x).getAllHosts := by
  unfold LoadBalance.insertHost
  dsimp only
  rw [if_neg h]
  simp [HostInfo.new, LoadBalance.getAllHosts, LoadBalance.pointers]

/-- In a new module already, the two texts of the address in the packed value are that of the
row. -/
theorem ShowsAddress.texts {cfg : Config R} {row : RouteRow} (h : ShowsAddress cfg row) :
    dottedQuad (hostInfo row.value).ip.toUInt32 = dottedQuad row.serverip ∧
      addressText (hostInfo row.value) = dottedQuad row.serverip := by
  let lb := LoadBalance.create ⟨0, 0, .new⟩ 0 0
  have hnew : LoadBalance.updateKey (hostInfo row.value).ip (hostInfo row.value).port ∉
      lb.hostMap := AList.notMem_empty _
  obtain ⟨hlog, hget, -⟩ := h.2 bumpMemory lb hnew
  have hip := (insertHost_record cfg bumpMemory hnew).1
  have htext := hget 0 0 0 []
  rw [logText, inetNtoa_htonl, hip] at hlog
  rw [getHostText?_cons, hip] at htext
  exact ⟨hlog, Option.some.inj htext⟩

end Answers

/-- The client library leaves out the swap of the byte order, so that its text is right only for
addresses whose bytes read the same in both directions. -/
theorem shows_address_iff (cfg : Config R) (row : RouteRow) :
    ShowsAddress cfg row ↔ row.serverport.toNat < 2 ^ 31 ∧ BytePalindrome row.serverip := by
  constructor
  · intro h
    obtain ⟨hlog, htext⟩ := h.texts
    have hserver := dottedQuad_injective hlog
    rw [addressText, hserver, inetNtoa_eq_dottedQuad_iff] at htext
    exact ⟨(ip_hostInfo_iff row).mp hserver, htext⟩
  · rintro ⟨hport, hpal⟩
    refine ⟨fun version rows hrow => mem_pulledHosts version hrow, ?_⟩
    intro mem lb hnew
    have htext := (inetNtoa_eq_dottedQuad_iff _).mpr hpal
    obtain ⟨hip, hp, hmem⟩ := insertHost_record cfg mem hnew
    rw [(ip_hostInfo_iff row).mpr hport] at hip
    refine ⟨?_, ?_, ?_⟩
    · rw [logText, hip, inetNtoa_htonl]
    · intro seq modid cmdid list
      rw [getHostText?_cons, hip, htext]
    · intro time raw r modid cmdid hr
      rw [getRouteTexts_of_module cfg hr]
      refine List.mem_map.mpr ⟨_, hmem, ?_⟩
      rw [hip, hp, htext]

/-- The address 10.0.0.1 is shown as 1.0.0.10. -/
theorem address_reversed :
    ¬ ShowsAddress defaultConfig ⟨1, 1, 167772161, 80⟩ ∧
    addressText (hostInfo (RouteRow.value ⟨1, 1, 167772161, 80⟩)) = "1.0.0.10" ∧
    dottedQuad 167772161 = "10.0.0.1" := by
  have hshown : addressText (hostInfo (RouteRow.value ⟨1, 1, 167772161, 80⟩)) = "1.0.0.10" := by
    decide
  have hquad : dottedQuad 167772161 = "10.0.0.1" := by decide
  refine ⟨?_, hshown, hquad⟩
  intro h
  have htext := h.texts.2
  rw [hshown] at htext
  exact absurd (htext.trans hquad) (by decide)

end Lrlb.Api
