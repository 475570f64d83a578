import Galio.Net.UdpDelivery

/-! A bound UDP socket as a queue of the latest datagrams: each one is received in its turn, waits, or is counted. -/

namespace Galio

open List

/-- A datagram as it is copied into a buffer. -/
def UdpDatagram.copied (datagram : UdpDatagram) (length : Nat) : UdpDatagram :=
  { datagram with data := datagram.data.take length }

/-- `udp_socket_recvfrom`; no datagram stands for an error, and for a call that sleeps and looks again. -/
def UdpSocket.recvfrom (socket : UdpSocket) (length : Nat) : Option UdpDatagram × UdpSocket :=
  if ¬socket.used ∨ length = 0 ∨ socket.queueCount = 0 then (none, socket)
  else ((socket.queue socket.queueHead).copied length, { socket with
    queueHead := (socket.queueHead + 1) % udpSocketQueue
    queueCount := socket.queueCount - 1
    room := (Nat.sub_le ..).trans socket.room })

/-- `udp_socket_drop_count`: the counter is a word. -/
def UdpSocket.dropCount (socket : UdpSocket) : UInt32 := UInt32.ofNat socket.drops

/-- What happens to a bound socket: a datagram it takes, or a call with a buffer of some length. -/
inductive UdpEvent where
  | accepted (datagram : UdpDatagram)
  | recvfrom (length : Nat)

def UdpEvent.datagram? : UdpEvent → Option UdpDatagram
  | .accepted datagram => datagram
  | .recvfrom _ => none

/-- The datagrams that calls return, and the socket after all events. -/
def UdpSocket.run (socket : UdpSocket) : List UdpEvent → List UdpDatagram × UdpSocket
  | [] => ([], socket)
  | .accepted datagram :: rest => (socket.push datagram).run rest
  | .recvfrom length :: rest =>
    let (value, socket) := socket.recvfrom length
    let (values, last) := socket.run rest
    (value.toList ++ values, last)

/-- A socket as `udp_socket_create` and `udp_socket_bind` leave it. -/
def boundSocket (localIp localPort : Nat) : UdpSocket :=
  ⟨true, localIp, localPort, 0, 0, 0, fun _ => ⟨[], 0, 0⟩, Nat.zero_le _⟩

/-- The account of a run: datagrams leave the queue in their order, into a buffer of some length or dropped. -/
structure UdpSocket.Accounts (before after : UdpSocket) (accepted returned : List UdpDatagram)
    (left : List (UdpDatagram × Option Nat)) : Prop where
  accepted : before.waiting ++ accepted = left.map (·.1) ++ after.waiting
  returned : returned = left.filterMap fun (datagram, length) => length.map datagram.copied
  dropped : after.drops = before.drops + left.countP (·.2.isNone)

variable {socket : UdpSocket}

namespace UdpSocket

lemma waiting_length : socket.waiting.length = socket.queueCount := by
  simp [waiting]

lemma push_head (inside : socket.queueHead < udpSocketQueue) (datagram : UdpDatagram) :
    (socket.push datagram).queueHead < udpSocketQueue := by
  simp only [push]
  split_ifs
  · exact Nat.mod_lt _ (by decide)
  · exact inside

lemma recvfrom_cases (inside : socket.queueHead < udpSocketQueue) (length : Nat) :
    socket.recvfrom length = (none, socket) ∨
    ∃ oldest after, socket.recvfrom length = (some (oldest.copied length), after) ∧
      socket.waiting = oldest :: after.waiting ∧ after.drops = socket.drops ∧ after.queueHead < udpSocketQueue := by
  unfold recvfrom
  split_ifs with nothing
  · exact .inl rfl
  · obtain ⟨count, held⟩ := Nat.exists_eq_succ_of_ne_zero (by tauto : socket.queueCount ≠ 0)
    have front : socket.waiting = Ring.window udpSocketQueue socket.queue socket.queueHead (count + 1) := by
      rw [waiting, held, Ring.window]
    refine .inr ⟨_, _, rfl, ?_, rfl, Nat.mod_lt _ (by decide)⟩
    rw [front, Ring.window_pop, Nat.mod_eq_of_lt inside]
    simp [waiting, held, Ring.window]

lemma run_accounts (inside : socket.queueHead < udpSocketQueue) (events : List UdpEvent) :
    ∃ left, socket.Accounts (socket.run events).2 (events.filterMap UdpEvent.datagram?) (socket.run events).1 left := by
  induction events generalizing socket with
  | nil => exact ⟨[], by simp [run], rfl, rfl⟩
  | cons event rest ih =>
    cases event with
    | accepted datagram =>
      obtain ⟨queued, counted⟩ := socket.push_queues datagram
      obtain ⟨left, accepted, returned, dropped⟩ := ih (push_head inside datagram)
      rw [queued, latest] at counted accepted
      by_cases full : socket.waiting.length = udpSocketQueue
      · -- There is an oldest datagram, and it goes.
        obtain ⟨oldest, others, before⟩ := exists_cons_of_length_pos (full ▸ (by decide : 0 < udpSocketQueue))
        rw [if_pos full, before] at counted accepted
        refine ⟨(oldest, none) :: left, ?_, returned, ?_⟩
        · simpa [before, run, UdpEvent.datagram?] using accepted
        · simp at counted
          simp [run]
          omega
      · rw [if_neg full] at counted accepted
        refine ⟨left, by simpa [run, UdpEvent.datagram?] using accepted, returned, ?_⟩
        simp at counted
        simp only [run]
        omega
    | recvfrom length =>
      rcases recvfrom_cases inside length with nothing | ⟨oldest, after, value, before, drops, inside⟩
      · simp only [run, nothing]
        exact ih inside
      · obtain ⟨left, accepted, returned, dropped⟩ := ih inside
        refine ⟨(oldest, some length) :: left, ?_, ?_, ?_⟩
        · simp only [run, value, before]
          exact congrArg (cons oldest) accepted
        · simpa [run, value] using returned
        · simpa [run, value, drops] using dropped

end UdpSocket

/--
The datagrams that left the queue, received or dropped, and those that wait are the accepted ones in their order,
the received ones are returned in this order, at most eight wait, the word counts those that were dropped, and the
next one goes behind all that wait, or all but the oldest of a full queue.
-/
theorem udp_queue_accounts (localIp localPort : Nat) (events : List UdpEvent) :
    let (returned, socket) := (boundSocket localIp localPort).run events
    (∃ left, (boundSocket localIp localPort).Accounts socket (events.filterMap UdpEvent.datagram?) returned left) ∧
    socket.dropCount.toNat = socket.drops % 2 ^ 32 ∧ socket.waiting.length ≤ udpSocketQueue ∧
    ∀ datagram, socket.Queues (socket.push datagram) datagram := by
  refine ⟨UdpSocket.run_accounts (by decide : 0 < udpSocketQueue) events, UInt32.toNat_ofNat', ?_,
    UdpSocket.push_queues _⟩
  exact UdpSocket.waiting_length.trans_le (UdpSocket.room _)

lemma run_replicate (datagram : UdpDatagram) (count : Nat) :
    (socket.run (replicate count (.accepted datagram))).1 = [] := by
  induction count generalizing socket with
  | zero => rfl
  | succ count ih => exact ih

/-- The counter of a socket that nobody reads comes back to small numbers. -/
theorem udp_drops_wrap : ∃ events, let (returned, socket) := (boundSocket 0 7).run events
    returned.length + socket.waiting.length + socket.dropCount.toNat <
      (events.filterMap UdpEvent.datagram?).length := by
  obtain ⟨count, many⟩ : ∃ count, count = 2 ^ 32 + 8 := ⟨_, rfl⟩
  refine ⟨replicate count (.accepted ⟨[1], 2, 3⟩), ?_⟩
  have returned : ((boundSocket 0 7).run (replicate count (.accepted ⟨[1], 2, 3⟩))).1 = [] :=
    run_replicate ⟨[1], 2, 3⟩ count
  have room := ((boundSocket 0 7).run (replicate count (.accepted ⟨[1], 2, 3⟩))).2.room
  have drops := ((boundSocket 0 7).run (replicate count (.accepted ⟨[1], 2, 3⟩))).2.dropCount.toNat_lt
  simp only [returned, UdpSocket.waiting_length, UdpEvent.datagram?, filterMap_replicate, length_replicate] at room ⊢
  simp only [udpSocketQueue] at room
  simp
  omega

end Galio
