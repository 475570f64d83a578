import Mathlib.Logic.Function.Iterate

/-! `kernel/net/dhcp.c`: the options of a message, what it changes, the lease that it gives, and its timers. -/

namespace Galio

open List UInt32

/-- `DHCP_TICK_HZ`, the rate of a lease's timers. -/
def dhcpTickHz : UInt32 := 100

/-- `GALIO_HZ`, the ticks of a second. -/
def galioHz : Nat := 1000

inductive DhcpState where
  | init
  | selecting
  | requesting
  | bound
  | renewing
  | rebinding
  | expired
  | error
  deriving DecidableEq

/-- An option: its code and its value. -/
structure DhcpOption where
  code : UInt8
  value : List UInt8

/-- The loops over the bytes of options that are left: the options met, and whether all are whole. -/
def dhcpOptions : Nat → List UInt8 → List DhcpOption × Bool
  | 0, _ => ([], true)
  | _, [] => ([], true)
  | passes + 1, code :: rest =>
    if code = 255 then ([], true)
    else if code = 0 then dhcpOptions passes rest
    else match rest with
      | [] => ([], false)
      | size :: rest =>
        if rest.length < size.toNat then ([], false)
        else
          let next := dhcpOptions passes (rest.drop size.toNat)
          (⟨code, rest.take size.toNat⟩ :: next.1, next.2)

/-- The fields of a message that are read, and what the loops over its 312 bytes of options meet. -/
structure DhcpPacket where
  length : Nat
  xid : UInt32
  cookie : UInt32
  yiaddr : UInt32
  options : List DhcpOption × Bool

/-- The fields of `net_device_t` and the variables of a client, and the tick counter. -/
structure DhcpClient where
  now : UInt32 := 0
  state : DhcpState := .init
  ipAddr : UInt32 := 0
  netmask : UInt32 := 0
  gateway : UInt32 := 0
  server : UInt32 := 0
  leaseDuration : UInt32 := 0
  leaseStart : UInt32 := 0
  leaseT1 : UInt32 := 0
  leaseT2 : UInt32 := 0
  leaseExpiry : UInt32 := 0
  messageType : UInt8 := 0
  done : Bool := false
  deriving DecidableEq

/-- The number of the first four bytes of a value, the highest first. -/
def dhcpWord (value : List UInt8) : UInt32 := (value.take 4).foldl (fun word byte => word * 256 + byte.toUInt32) 0

/-- `dhcp_option_u32`, and `dhcp_option_ip`. -/
def dhcpOptionU32 (packet : DhcpPacket) (wanted : UInt8) (fallback : UInt32) : UInt32 :=
  match packet.options.1.find? fun option => option.code = wanted ∧ option.value.length ≥ 4 with
  | none => fallback
  | some option => dhcpWord option.value

def dhcpValidNetmask (mask : UInt32) : Bool := ~~~mask &&& (~~~mask + 1) = 0

namespace DhcpPacket

variable (packet : DhcpPacket)

/-- The mask of `dhcp_apply_ack`. -/
def mask : UInt32 := dhcpOptionU32 packet 1 0

/-- The lease of `dhcp_apply_ack`, in seconds. -/
def lease : UInt32 := dhcpOptionU32 packet 51 0

/-- The first threshold of `dhcp_apply_ack`, in seconds. -/
def t1 : UInt32 := dhcpOptionU32 packet 58 (packet.lease / 2)

/-- The second threshold of `dhcp_apply_ack`, in seconds. -/
def t2 : UInt32 := dhcpOptionU32 packet 59 (packet.lease * 7 / 8)

/-- The checks of `dhcp_apply_ack`. -/
def Accepted : Prop :=
  packet.mask ≠ 0 ∧ dhcpValidNetmask packet.mask ∧ packet.lease ≠ 0 ∧ packet.t1 < packet.lease ∧
    packet.t1 < packet.t2 ∧ packet.t2 < packet.lease

instance : Decidable packet.Accepted := inferInstanceAs (Decidable (_ ∧ _))

/-- The type of a message, as `dhcp_receive` finds it. -/
def type : UInt8 :=
  ((packet.options.1.filter fun option => option.code = 53 ∧ option.value.length = 1).getLast?.bind
    (·.value.head?)).getD 0

end DhcpPacket

namespace DhcpClient

variable (client : DhcpClient)

def applyAck (packet : DhcpPacket) : DhcpClient :=
  if ¬packet.Accepted then { client with messageType := 0 }
  else { client with
    server := dhcpOptionU32 packet 54 client.server
    leaseDuration := packet.lease
    leaseStart := client.now
    leaseT1 := packet.t1 * dhcpTickHz
    leaseT2 := packet.t2 * dhcpTickHz
    leaseExpiry := packet.lease * dhcpTickHz
    ipAddr := packet.yiaddr
    netmask := packet.mask
    gateway := dhcpOptionU32 packet 3 0
    state := .bound }

def receive (packet : DhcpPacket) : DhcpClient :=
  if packet.length < 240 ∨ packet.length > 552 ∨ packet.xid ≠ 0x47414C49 ∨ packet.cookie ≠ 0x63825363 then client
  else if ¬packet.options.2 then client
  else if packet.type = 2 ∧ client.messageType = 0 then { client with messageType := 2 }
  else if packet.type = 5 ∧ (client.messageType = 2 ∨ client.state = .renewing ∨ client.state = .rebinding) then
    { client.applyAck packet with messageType := 5, done := true }
  else client

/-- `dhcp_tick`; `dhcp_send_request` changes the state whether or not its message is sent. -/
def tick : DhcpClient :=
  let client := { client with now := client.now + 1 }
  let elapsed := client.now - client.leaseStart
  if client.leaseExpiry = 0 then client
  else if client.state = .bound ∧ elapsed ≥ client.leaseT1 then { client with state := .renewing }
  else if client.state = .renewing ∧ elapsed ≥ client.leaseT2 then { client with state := .rebinding }
  else if (client.state = .renewing ∨ client.state = .rebinding) ∧ elapsed ≥ client.leaseExpiry then
    { client with ipAddr := 0, netmask := 0, gateway := 0, state := .expired, leaseExpiry := 0 }
  else client

/-- A clock tick or an incoming message. -/
inductive Event where
  | tick
  | message (packet : DhcpPacket)

/-- The client after an event. -/
def handle : Event → DhcpClient
  | .tick => client.tick
  | .message packet => client.receive packet

/-- `dhcp_start` where its messages are sent, with the events of its two waits. -/
def start (offers answers : List Event) : DhcpClient × Int :=
  let client := offers.foldl handle { client with state := .selecting, done := false, messageType := 0 }
  if client.messageType ≠ 2 then ({ client with state := .error }, -1)
  else
    let client := answers.foldl handle client
    (client, if client.done then 0 else -1)

/-- An acknowledgement is taken, and the lease is used as long as it says. -/
def Respects (packet : DhcpPacket) : Prop :=
  (∀ ticks, ticks < packet.t1.toNat * galioHz → (tick^[ticks] client).state = .bound) ∧
  (∀ ticks, ticks < packet.lease.toNat * galioHz → (tick^[ticks] client).ipAddr = packet.yiaddr) ∧
  client.leaseT1 < client.leaseT2 ∧ client.leaseT2 < client.leaseExpiry

variable {client}

lemma tick_of_bound (state : client.state = .bound) :
    client.tick = if client.leaseExpiry ≠ 0 ∧ client.now + 1 - client.leaseStart ≥ client.leaseT1 then
      { client with now := client.now + 1, state := .renewing } else { client with now := client.now + 1 } := by
  by_cases idle : client.leaseExpiry = 0
  · simp [tick, idle]
  by_cases due : client.now + 1 - client.leaseStart ≥ client.leaseT1
  · simp [tick, idle, state]
  · simp [tick, idle, state]

lemma iterate_tick (ticks : Nat) (bound : ∀ n ≤ ticks, (tick^[n] client).state = .bound) :
    tick^[ticks] client = { client with now := client.now + ofNat ticks } := by
  induction ticks with
  | zero => simp
  | succ ticks ih =>
    have state : client.state = .bound := bound 0 (Nat.zero_le _)
    have kept := bound (ticks + 1) (Nat.le_refl _)
    have step := tick_of_bound
      (show ({ client with now := client.now + ofNat ticks } : DhcpClient).state = .bound from state)
    rw [Function.iterate_succ_apply', ih fun n few => bound n (by omega), step] at kept ⊢
    split at kept
    · simp at kept
    · rename_i early
      rw [if_neg early]
      simp [UInt32.add_assoc]

/-- The timers of a lease run ten times too fast, so that no lease with a first threshold is respected. -/
theorem lease_not_respected {before : DhcpClient} {packet : DhcpPacket} (accepted : packet.Accepted)
    (taken : before.receive packet = { before.applyAck packet with messageType := 5, done := true })
    (positive : 1 ≤ packet.t1) : ¬(before.receive packet).Respects packet := by
  rintro ⟨bound, -, ordered, expires⟩
  have seconds : 1 ≤ packet.t1.toNat := le_iff_toNat_le.mp positive
  have ticks : (packet.t1 * dhcpTickHz).toNat ≤ packet.t1.toNat * 100 := by
    exact Nat.mod_le _ _
  have small := (packet.t1 * dhcpTickHz).toNat_lt
  rw [taken, applyAck, if_neg (not_not.mpr accepted)] at bound expires
  -- The tick that reaches the threshold, or the first one, comes in the first tenth of the time.
  obtain ⟨last, reached, soon, word⟩ : ∃ last, (packet.t1 * dhcpTickHz).toNat ≤ last + 1 ∧
      last + 1 < packet.t1.toNat * galioHz ∧ last + 1 < 2 ^ 32 :=
    ⟨(packet.t1 * dhcpTickHz).toNat - 1, by omega, by unfold galioHz; omega, by omega⟩
  have left := bound (last + 1) soon
  rw [Function.iterate_succ_apply', iterate_tick last fun n few => bound n (by omega), tick_of_bound rfl,
    if_pos] at left
  · simp at left
  · refine ⟨fun zero => ?_, ?_⟩
    · rw [zero] at expires
      exact absurd (lt_iff_toNat_lt.mp expires) (Nat.not_lt_zero _)
    · have elapsed : before.now + ofNat last + 1 - before.now = ofNat (last + 1) := by
        rw [UInt32.ofNat_add, UInt32.add_assoc, UInt32.add_comm, UInt32.add_sub_cancel]
        rfl
      rw [elapsed, ge_iff_le, le_iff_toNat_le, toNat_ofNat', Nat.mod_eq_of_lt word]
      exact reached

/-- `dhcp_start` succeeds with an acknowledgement that is refused, and nothing is leased. -/
theorem start_refused {client waiting : DhcpClient} {offers : List Event} {packet : DhcpPacket}
    (offered : offers.foldl handle { client with state := .selecting, done := false, messageType := 0 } = waiting)
    (type : waiting.messageType = 2) (refused : ¬packet.Accepted)
    (taken : waiting.receive packet = { waiting.applyAck packet with messageType := 5, done := true }) :
    client.start offers [.message packet] = ({ waiting with messageType := 5, done := true }, 0) := by
  simp [start, offered, type, handle, taken, applyAck, refused]

/-- A message for the client with some options. -/
def samplePacket (options : List UInt8) : DhcpPacket := ⟨300, 0x47414C49, 0x63825363, 1, dhcpOptions 312 options⟩

/-- An acknowledgement of a lease of three seconds. -/
def sampleAck : DhcpPacket := samplePacket [53, 1, 5, 1, 4, 255, 255, 255, 0, 51, 4, 0, 0, 0, 3, 255]

theorem lease_not_respected_of_three_seconds :
    sampleAck.Accepted ∧ ¬(({ messageType := 2 } : DhcpClient).receive sampleAck).Respects sampleAck :=
  ⟨by decide +kernel, lease_not_respected (by decide +kernel) (by decide +kernel) (by decide +kernel)⟩

/--
The state is left after 100 ticks although the first threshold is one second, and `dhcp_start` returns 0 for an
acknowledgement without a lease.
-/
theorem lease_left_early :
    (tick^[100] (({ messageType := 2 } : DhcpClient).receive sampleAck)).state = .renewing ∧ sampleAck.t1 = 1 ∧
    ((({} : DhcpClient).start [.message (samplePacket [53, 1, 2, 255])]
      [.message (samplePacket [53, 1, 5, 255])]).2 = 0 ∧
    (({} : DhcpClient).start [.message (samplePacket [53, 1, 2, 255])]
      [.message (samplePacket [53, 1, 5, 255])]).1.state = .selecting) := by
  decide +kernel

end DhcpClient

def dhcpReadDns (packet : DhcpPacket) : UInt32 × UInt32 :=
  let values := packet.options.1.flatMap fun option =>
    if option.code = 6 then (range (option.value.length / 4)).map fun k => dhcpWord (option.value.drop (4 * k))
    else []
  values.foldl (fun (first, second) value =>
    if first = 0 then (value, second) else if second = 0 then (first, value) else (first, second)) (0, 0)

/-- A client with `dhcp_dns`, the servers of its device and the address of `dhcp_offer`. -/
structure DhcpHost extends DhcpClient where
  dns : List UInt8 := [0, 0, 0, 0]
  dnsServers : UInt32 × UInt32 := (0, 0)
  offered : UInt32 := 0

/-- `dhcp_receive` with all that it writes; `dhcp_dns` is written while the options are read. -/
def DhcpHost.receive (host : DhcpHost) (packet : DhcpPacket) : DhcpHost :=
  if packet.length < 240 ∨ packet.length > 552 ∨ packet.xid ≠ 0x47414C49 ∨ packet.cookie ≠ 0x63825363 then host
  else
    let servers := (packet.options.1.filter fun option => option.code = 6 ∧ option.value.length ≥ 4).getLast?
    let acknowledged := packet.type = 5 ∧ (host.messageType = 2 ∨ host.state = .renewing ∨ host.state = .rebinding)
    { toDhcpClient := host.toDhcpClient.receive packet
      dns := (servers.map (·.value.take 4)).getD host.dns
      dnsServers := if packet.options.2 ∧ acknowledged ∧ packet.Accepted then dhcpReadDns packet else host.dnsServers
      offered := if packet.options.2 ∧ packet.type = 2 ∧ host.messageType = 0 then packet.yiaddr else host.offered }

/-- A message as it was received, with up to 312 bytes of options. -/
structure DhcpMessage where
  xid : UInt32
  cookie : UInt32
  yiaddr : UInt32
  received : List UInt8
  fits : received.length ≤ 312

namespace DhcpMessage

variable (message : DhcpMessage)

/-- The bytes of the options that were not received. -/
def left : Nat := 312 - message.received.length

/-- What is read from a buffer that holds the message and some bytes behind it. -/
def inBuffer (behind : List UInt8) : DhcpPacket :=
  ⟨240 + message.received.length, message.xid, message.cookie, message.yiaddr,
    dhcpOptions 312 (message.received ++ behind)⟩

/-- All buffers that hold the message have the same effect. -/
def Alone : Prop :=
  ∀ (host : DhcpHost) (behind other : List UInt8), behind.length = message.left → other.length = message.left →
    host.receive (message.inBuffer behind) = host.receive (message.inBuffer other)

/-- Where a code or a size behind received bytes is asked for: the bytes in front of it that are skipped. -/
def asked (left : Nat) : Nat → List UInt8 → Option Nat
  | 0, _ => some 0
  | _, [] => some 0
  | passes + 1, code :: rest =>
    if code = 255 then none
    else if code = 0 then asked left passes rest
    else match rest with
      | [] => some 0
      | size :: rest =>
        if rest.length + left < size.toNat then none
        else if rest.length < size.toNat then some (size.toNat - rest.length)
        else asked left passes (rest.drop size.toNat)

variable {left passes skipped : Nat} {received rest behind other : List UInt8}

lemma dhcpOptions_option {code size : UInt8} {value : List UInt8} {next : List DhcpOption × Bool}
    (going : code ≠ 255) (notPad : code ≠ 0) (length : value.length = size.toNat)
    (read : dhcpOptions passes rest = next) :
    dhcpOptions (passes + 1) (code :: size :: (value ++ rest)) = (⟨code, value⟩ :: next.1, next.2) := by
  simp [dhcpOptions, going, notPad, ← length, read]

/-- Options that end inside the received bytes are read from these alone. -/
theorem dhcpOptions_inside (first : behind.length = left) (second : other.length = left)
    (inside : asked left passes received = none) :
    dhcpOptions passes (received ++ behind) = dhcpOptions passes (received ++ other) := by
  fun_induction asked left passes received <;>
    simp_all [dhcpOptions, take_append_of_le_length, drop_append_of_le_length]

/-- Where a byte behind the received ones is asked for and is zero, the options go on behind it. -/
theorem dhcpOptions_asked {last : DhcpOption} (ends : ∀ more, dhcpOptions (more + 1) rest = ([last], true))
    (stop : asked left passes received = some skipped) (enough : received.length + 1 < passes) :
    ∃ front, dhcpOptions passes (received ++ (replicate skipped 0 ++ 0 :: rest)) = (front ++ [last], true) := by
  fun_induction asked left passes received with
  | case1 => exact absurd enough (Nat.not_lt_zero _)
  | case2 passes =>
    cases stop
    obtain ⟨more, rfl⟩ := Nat.exists_eq_add_of_le' enough
    exact ⟨[], ends more⟩
  | case3 | case6 => simp at stop
  | case4 passes rest _ ih => exact ih stop (Nat.lt_of_succ_lt_succ enough)
  | case5 passes code going notPad =>
    cases stop
    obtain ⟨more, rfl⟩ := Nat.exists_eq_add_of_le' (Nat.le_of_lt_succ enough)
    exact ⟨[⟨code, []⟩], by simp [dhcpOptions, going, notPad, ends]⟩
  | case7 passes code going notPad size value _ long =>
    cases stop
    obtain ⟨more, rfl⟩ := Nat.exists_eq_add_of_le' (show 2 ≤ passes by simp at enough; omega)
    have filled : (value ++ replicate (size.toNat - value.length) 0).length = size.toNat := by
      simp only [length_append, length_replicate]
      omega
    have step := dhcpOptions_option going notPad filled
      (show dhcpOptions (more + 2) (0 :: rest) = ([last], true) from ends more)
    rw [append_assoc] at step
    exact ⟨[_], step⟩
  | case8 passes code going notPad size value _ whole ih =>
    obtain ⟨front, same⟩ := ih stop (by simp at enough ⊢; omega)
    have step := dhcpOptions_option going notPad (length_take_of_le (Nat.not_lt.mp whole)) same
    rw [← append_assoc, take_append_drop] at step
    exact ⟨_ :: front, step⟩

/-- What a new client makes of a message for it whose last option is a type. -/
theorem receive_type {packet : DhcpPacket} {front : List DhcpOption} {type : UInt8} (length : 240 ≤ packet.length)
    (fits : packet.length ≤ 552) (own : packet.xid = 0x47414C49 ∧ packet.cookie = 0x63825363)
    (read : packet.options = (front ++ [⟨53, [type]⟩], true)) :
    (DhcpHost.receive {} packet).messageType = if type = 2 then 2 else 0 := by
  have found : packet.type = type := by simp [DhcpPacket.type, read]
  simp [DhcpHost.receive, DhcpClient.receive, read, found, own, Nat.not_lt.mpr length, Nat.not_lt.mpr fits]
  split <;> rfl

end DhcpMessage

end Galio
