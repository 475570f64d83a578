import Mathlib.Data.List.Induction
import Galio.Net.Ipv4Laws

/-! `kernel/net/route.c`: the routes of the configured devices, and the next hops that the senders compute. -/

namespace Galio

open List

structure NetRoute where
  network : UInt32
  netmask : UInt32
  gateway : UInt32
  device : NetDevice

def netRouteMax : Nat := 16

def NetRoute.key (route : NetRoute) : UInt32 × UInt32 := (route.network, route.netmask)

/--
`route_add`; where it returns -1 nothing changes.

The table is the list of the used routes: no route is removed while devices are configured.
-/
def routeAdd (routes : List NetRoute) (network netmask gateway : UInt32) (device : NetDevice) : List NetRoute :=
  let route : NetRoute := ⟨network &&& netmask, netmask, gateway, device⟩
  let place := routes.findIdx (·.key = route.key)
  if netmask = 0 ∧ (network ≠ 0 ∨ gateway = 0) then routes
  else if place < routes.length then routes.set place route
  else if routes.length < netRouteMax then routes ++ [route]
  else routes

/-- The bits of a netmask, counted from the last one on. -/
def maskBits (mask : Nat) : Nat := if mask = 0 then 0 else mask % 2 + maskBits (mask / 2)

def NetRoute.bits (route : NetRoute) : Nat := maskBits route.netmask.toNat

/-- The loop body of `route_lookup`. -/
def routeBetter (dest : UInt32) (best : Option NetRoute) (route : NetRoute) : Option NetRoute :=
  if dest &&& route.netmask ≠ route.network then best
  else if best.all fun old => old.bits < route.bits then some route
  else best

/-- `route_lookup`: the device and the next hop. -/
def routeLookup (routes : List NetRoute) (dest : UInt32) : Option (NetDevice × UInt32) :=
  (routes.foldl (routeBetter dest) none).map fun route =>
    (route.device, if route.gateway = 0 then dest else route.gateway)

/-- The loop body of `net_configure_routes`. -/
def configureDevice (routes : List NetRoute) (device : NetDevice) : List NetRoute :=
  if device.ipAddr = 0 ∨ device.netmask = 0 then routes
  else
    let routes := routeAdd routes (device.ipAddr &&& device.netmask) device.netmask 0 device
    if device.gateway = 0 then routes else routeAdd routes 0 0 device.gateway device

def netConfigureRoutes (devices : List NetDevice) : List NetRoute := devices.foldl configureDevice []

/-- The next hop that `udp_send`, `tcp_send_segment` and `ipv4_send` compute, with nothing where they return -1. -/
def NetDevice.nextHop (device : NetDevice) (dest : UInt32) : Option UInt32 :=
  if device.ipAddr = 0 then none
  else if device.netmask ≠ 0 ∧ dest &&& device.netmask ≠ device.ipAddr &&& device.netmask then
    if device.gateway = 0 then none else some device.gateway
  else some dest

/-- A device that has an address and a netmask. -/
def NetDevice.Configured (device : NetDevice) : Prop := device.ipAddr ≠ 0 ∧ device.netmask ≠ 0

/-- The subnet of a device contains a destination. -/
def NetDevice.Matches (device : NetDevice) (dest : UInt32) : Prop :=
  device.Configured ∧ dest &&& device.netmask = device.ipAddr &&& device.netmask

/-- A device is right for a destination, and the senders use the next hop. -/
structure SendersAgree (devices : List NetDevice) (dest : UInt32) (device : NetDevice) (hop : UInt32) : Prop where
  listed : device ∈ devices
  -- The subnet is the longest that matches, or none does and the device has a default route.
  chosen : (device.Matches dest ∧ ∀ other ∈ devices, other.Matches dest →
      maskBits other.netmask.toNat ≤ maskBits device.netmask.toNat) ∨
    (device.Configured ∧ device.gateway ≠ 0 ∧ ∀ other ∈ devices, ¬other.Matches dest)
  hop : device.nextHop dest = some hop

/-- A route as `net_configure_routes` makes it, to the subnet of a device or by default. -/
def NetRoute.Made (devices : List NetDevice) (route : NetRoute) : Prop :=
  route.device ∈ devices ∧ route.device.Configured ∧
    (route.key = (route.device.ipAddr &&& route.device.netmask, route.device.netmask) ∧ route.gateway = 0 ∨
      route.key = (0, 0) ∧ route.gateway = route.device.gateway ∧ route.gateway ≠ 0)

/-- The table while the devices are configured, of which some are done. -/
structure RoutesOf (devices done : List NetDevice) (count : Nat) (routes : List NetRoute) : Prop where
  few : routes.length ≤ count
  made : ∀ route ∈ routes, route.Made devices
  kept : ∀ device ∈ done, device.Configured →
    (device.ipAddr &&& device.netmask, device.netmask) ∈ routes.map NetRoute.key

variable {routes : List NetRoute} {dest : UInt32} {devices done : List NetDevice} {count : Nat} {device : NetDevice}

/-- A contiguous mask has as many bits as its prefix is long. -/
theorem maskBits_contiguous : ∀ length ≤ 32, maskBits (2 ^ 32 - 2 ^ (32 - length)) = length := by decide +kernel

lemma maskBits_pos {mask : Nat} (positive : 0 < mask) : 0 < maskBits mask := by
  induction mask using Nat.strong_induction_on with
  | _ mask ih =>
    rw [maskBits, if_neg positive.ne']
    by_cases odd : mask % 2 = 0
    · have half := ih (mask / 2) (by omega) (by omega)
      omega
    · omega

/-- A route is added, and the networks that were in the table still are. -/
theorem RoutesOf.add (of : RoutesOf devices done count routes) (room : count < netRouteMax)
    {network netmask gateway : UInt32} (accepted : ¬(netmask = 0 ∧ (network ≠ 0 ∨ gateway = 0)))
    (made : NetRoute.Made devices ⟨network &&& netmask, netmask, gateway, device⟩) :
    RoutesOf devices done (count + 1) (routeAdd routes network netmask gateway device) ∧
      (network &&& netmask, netmask) ∈ (routeAdd routes network netmask gateway device).map NetRoute.key := by
  have few := of.few
  have key : NetRoute.key ⟨network &&& netmask, netmask, gateway, device⟩ = (network &&& netmask, netmask) := rfl
  rw [routeAdd, if_neg accepted, ← key]
  generalize (⟨network &&& netmask, netmask, gateway, device⟩ : NetRoute) = route at made
  split_ifs with found free
  · -- The route that is replaced is to the same network.
    have same : (routes.get ⟨_, found⟩).key = route.key := by simpa using findIdx_getElem (w := found)
    generalize routes.findIdx (·.key = route.key) = place at found same ⊢
    have keys : (routes.set place route).map NetRoute.key = routes.map NetRoute.key := by
      rw [map_set, ← same, get_eq_getElem, ← getElem_map NetRoute.key, set_getElem_self]
      simpa using found
    refine ⟨⟨by rw [length_set]; omega, fun other mem => ?_, ?_⟩, ?_⟩
    · rcases mem_or_eq_of_mem_set mem with old | rfl
      · exact of.made other old
      · exact made
    · rw [keys]
      exact of.kept
    · rw [keys, ← same]
      exact mem_map_of_mem (get_mem ..)
  · refine ⟨⟨by simpa using few, fun other mem => ?_, fun known listed configured => ?_⟩, by simp⟩
    · rcases mem_append.mp mem with old | new
      · exact of.made other old
      · exact mem_singleton.mp new ▸ made
    · rw [map_append]
      exact mem_append_left _ (of.kept known listed configured)
  · omega

lemma RoutesOf.configure (of : RoutesOf devices done (2 * done.length) routes) (few : done.length < 8)
    (listed : device ∈ devices) :
    RoutesOf devices (done ++ [device]) (2 * (done ++ [device]).length) (configureDevice routes device) := by
  have full : netRouteMax = 16 := rfl
  rw [length_append, length_singleton, configureDevice]
  by_cases unset : device.ipAddr = 0 ∨ device.netmask = 0
  · rw [if_pos unset]
    refine ⟨of.few.trans (by omega), of.made, fun known mem configured => ?_⟩
    rcases mem_append.mp mem with old | new
    · exact of.kept known old configured
    · rw [mem_singleton.mp new] at configured
      exact absurd unset (not_or.mpr configured)
  · rw [if_neg unset]
    have configured : device.Configured := not_or.mp unset
    have masked : device.ipAddr &&& device.netmask &&& device.netmask = device.ipAddr &&& device.netmask := by
      rw [UInt32.and_assoc, UInt32.and_self]
    obtain ⟨first, has⟩ := of.add (by omega) (fun both => configured.2 both.1)
      ⟨listed, configured, .inl ⟨congrArg (·, device.netmask) masked, rfl⟩⟩
    rw [masked] at has
    have subnet := RoutesOf.mk first.few first.made fun known mem => (mem_append.mp mem).elim (first.kept known)
      fun new _ => mem_singleton.mp new ▸ has
    dsimp only
    split_ifs with direct
    · exact ⟨subnet.few.trans (by omega), subnet.made, subnet.kept⟩
    · exact (subnet.add (by omega) (by simp [direct])
        ⟨listed, configured, .inr ⟨by simp [NetRoute.key], rfl, direct⟩⟩).1

lemma netConfigureRoutes_of (few : devices.length ≤ 8) :
    RoutesOf devices devices (2 * devices.length) (netConfigureRoutes devices) := by
  -- The devices that are done are a list from the start, and the routes are of those in the whole list.
  suffices steps : ∀ done, done <+: devices → RoutesOf devices done (2 * done.length) (netConfigureRoutes done) from
    steps devices prefix_rfl
  intro done
  induction done using reverseRecOn with
  | nil => exact fun _ => ⟨Nat.le_refl 0, by simp [netConfigureRoutes], by simp⟩
  | append_singleton before device ih =>
    intro start
    have short := start.length_le
    rw [length_append, length_singleton] at short
    rw [netConfigureRoutes, foldl_append]
    exact (ih ((prefix_append _ _).trans start)).configure (by omega) (start.subset (by simp))

/-- The lookup finds the longest route that matches. -/
theorem routeBetter_best (dest : UInt32) (routes : List NetRoute) :
    let best := routes.foldl (routeBetter dest) none
    (∀ route, best = some route → route ∈ routes ∧ dest &&& route.netmask = route.network) ∧
    ∀ route ∈ routes, dest &&& route.netmask = route.network →
      ∃ longest, best = some longest ∧ route.bits ≤ longest.bits := by
  induction routes using reverseRecOn with
  | nil => simp
  | append_singleton before entry ih =>
    simp only [foldl_append, foldl_cons, foldl_nil, mem_append, mem_singleton]
    generalize before.foldl (routeBetter dest) none = best at ih
    cases best <;> simp only [routeBetter, Option.all_none, Option.all_some] <;> grind

/-- The route that is found is the longest one, and the device's own fields give its next hop. -/
theorem senders_agree (few : devices.length ≤ 8) {hop : UInt32}
    (found : routeLookup (netConfigureRoutes devices) dest = some (device, hop)) :
    SendersAgree devices dest device hop := by
  have of := netConfigureRoutes_of few
  obtain ⟨stands, longest⟩ := routeBetter_best dest (netConfigureRoutes devices)
  rw [routeLookup, Option.map_eq_some_iff] at found
  obtain ⟨route, best, result⟩ := found
  obtain ⟨mem, matched⟩ := stands route best
  -- Each subnet that matches has a route, and the one that was found is as long.
  have known : ∀ other ∈ devices, other.Matches dest → maskBits other.netmask.toNat ≤ route.bits := by
    intro other listed ⟨configured, inside⟩
    obtain ⟨entry, here, same⟩ := mem_map.mp (of.kept other listed configured)
    obtain ⟨network, netmask⟩ := Prod.mk.inj same
    obtain ⟨held, found, less⟩ := longest entry here (by rw [network, netmask, inside])
    cases found.symm.trans best
    rwa [NetRoute.bits, netmask] at less
  obtain ⟨listed, configured, made⟩ := of.made route mem
  cases result
  rcases made with ⟨key, direct⟩ | ⟨key, own, gateway⟩ <;> obtain ⟨network, netmask⟩ := Prod.mk.inj key <;>
    simp only [NetRoute.bits, network, netmask] at matched known
  · refine ⟨listed, .inl ⟨⟨configured, matched⟩, known⟩, ?_⟩
    simp [NetDevice.nextHop, configured.1, matched, direct]
  · have nowhere : ∀ other ∈ devices, ¬other.Matches dest := by
      intro other listed reaches
      have none := known other listed reaches
      have some := maskBits_pos (Nat.pos_of_ne_zero fun zero => reaches.1.2 (UInt32.toNat_inj.mp zero))
      have zero : maskBits (UInt32.toNat 0) = 0 := by simp [maskBits]
      omega
    refine ⟨listed, .inr ⟨configured, own ▸ gateway, nowhere⟩, ?_⟩
    have outside : ¬dest &&& route.device.netmask = route.device.ipAddr &&& route.device.netmask :=
      fun inside => nowhere _ listed ⟨configured, inside⟩
    simp [NetDevice.nextHop, configured.1, configured.2, outside, ← own, gateway]

/-- A device with a gateway. -/
def gatewayHost : NetDevice := { smallHost 1 with gateway := 0x0A0000FE }

/-- A destination outside of all subnets is sent to the gateway. -/
theorem senders_agree_gateway : SendersAgree [smallHost 2, gatewayHost] 0x08080808 gatewayHost 0x0A0000FE :=
  senders_agree (by decide) rfl

end Galio
