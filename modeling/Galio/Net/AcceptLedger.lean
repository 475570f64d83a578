import Galio.Net.Tcp

/-! The slots of the connection table as listeners and their children, with a record of what was accepted. -/

namespace Galio

open Function List

/-- What accepting depends on in a connection; a listener has the queue. -/
structure Seat where
  used : Bool
  listener : Bool
  state : TcpState
  port : Nat
  parent : Nat
  queue : List Nat

/--
The slots and what happened to them. What is put into a slot gets a name of its own, so that reuse is told apart.
-/
structure AcceptLedger where
  seats : Nat → Seat
  /-- The slots that a socket has. -/
  held : Nat → Bool
  name : Nat → Nat
  /-- For a child, the name of the listener that it was opened through. -/
  through : Nat → Nat
  fresh : Nat
  /-- For the name of a listener, the children that were established, in that order. -/
  established : Nat → List Nat
  /-- The children that `tcp_accept` returned for it. -/
  returned : Nat → List Nat
  /-- The calls of `tcp_accept` that wait: the slot, and the name of the listener that was there. -/
  calls : List (Nat × Nat)

namespace AcceptLedger

/-- An open listener in a slot. -/
def Listens (ledger : AcceptLedger) (l : Nat) : Prop := (ledger.seats l).used = true ∧ (ledger.seats l).listener = true

/-- A child in a slot. -/
def Child (ledger : AcceptLedger) (i : Nat) : Prop := (ledger.seats i).used = true ∧ (ledger.seats i).listener = false

/-- A slot becomes a listener. -/
def listen (ledger : AcceptLedger) (i port : Nat) : AcceptLedger :=
  { ledger with
    seats := update ledger.seats i ⟨true, true, .closed, port, 0, []⟩
    held := update ledger.held i true
    name := update ledger.name i ledger.fresh
    fresh := ledger.fresh + 1 }

/-- A slot becomes a child of a listener. -/
def opened (ledger : AcceptLedger) (l i : Nat) : AcceptLedger :=
  { ledger with
    seats := update ledger.seats i ⟨true, false, .synReceived, (ledger.seats l).port, l, []⟩
    held := update ledger.held i false
    name := update ledger.name i ledger.fresh
    through := update ledger.through i (ledger.name l)
    fresh := ledger.fresh + 1 }

/-- A child is established and put into the queue of its listener. -/
def confirmed (ledger : AcceptLedger) (i : Nat) : AcceptLedger :=
  let l := (ledger.seats i).parent
  let seats := update ledger.seats i { ledger.seats i with state := .established }
  { ledger with
    seats := update seats l { seats l with queue := (seats l).queue ++ [i] }
    established := update ledger.established (ledger.through i)
      (ledger.established (ledger.through i) ++ [ledger.name i]) }

/-- The other side of a child has ended. -/
def ended (ledger : AcceptLedger) (i : Nat) : AcceptLedger :=
  { ledger with seats := update ledger.seats i { ledger.seats i with state := .finWait } }

/-- A call of `tcp_accept` takes a child from the queue of a slot. -/
def taken (ledger : AcceptLedger) (call : Nat × Nat) (i : Nat) (rest : List Nat) : AcceptLedger :=
  { ledger with
    seats := update ledger.seats call.1 { ledger.seats call.1 with queue := rest }
    held := update ledger.held i true
    returned := update ledger.returned call.2 (ledger.returned call.2 ++ [ledger.name i])
    calls := ledger.calls.erase call }

/-- A slot is given back. -/
def closed (ledger : AcceptLedger) (i : Nat) : AcceptLedger :=
  { ledger with
    seats := update ledger.seats i { ledger.seats i with used := false }
    held := update ledger.held i false }

/-- A child no socket has yet: in its listener's queue once established. -/
structure Waits (ledger : AcceptLedger) (i : Nat) : Prop where
  listens : ledger.Listens (ledger.seats i).parent
  through : ledger.through i = ledger.name (ledger.seats i).parent
  port : (ledger.seats i).port = (ledger.seats (ledger.seats i).parent).port
  queued : i ∈ (ledger.seats (ledger.seats i).parent).queue ↔ (ledger.seats i).state ≠ .synReceived

/-- Every slot is where a socket or listener finds it, and the record agrees with the queues. -/
structure Kept (ledger : AcceptLedger) : Prop where
  listener : ∀ l, ledger.Listens l → ledger.held l = true
  child : ∀ i, ledger.Child i → ledger.held i = true ∧ (ledger.seats i).state ≠ .synReceived ∨
    ledger.held i = false ∧ ledger.Waits i
  queue : ∀ l, ledger.Listens l → ∀ i ∈ (ledger.seats l).queue,
    ledger.Child i ∧ ledger.held i = false ∧ (ledger.seats i).parent = l ∧ (ledger.seats i).state ≠ .synReceived
  nodup : ∀ l, ledger.Listens l → (ledger.seats l).queue.Nodup
  named : ∀ i, (ledger.seats i).used = true → ledger.name i < ledger.fresh
  distinct : ∀ i j, (ledger.seats i).used = true → (ledger.seats j).used = true → ledger.name i = ledger.name j → i = j
  recorded : ∀ l, ledger.Listens l → ledger.established (ledger.name l) =
    ledger.returned (ledger.name l) ++ (ledger.seats l).queue.map ledger.name
  finished : ∀ name, (∀ l, ledger.Listens l → ledger.name l ≠ name) → ledger.established name = ledger.returned name
  known : ∀ name, ∀ child ∈ ledger.established name, child < ledger.fresh ∧
    ∀ i, (ledger.seats i).used = true → (ledger.seats i).state = .synReceived → ledger.name i ≠ child
  once : ∀ name, (ledger.established name).Nodup
  calls : ∀ call ∈ ledger.calls, ledger.Listens call.1 ∧ ledger.name call.1 = call.2

variable {ledger : AcceptLedger} {i : Nat} {after : AcceptLedger} {j k l : Nat}

section Filled

/-- What becomes of the other slots when one that was not in use is filled. -/
structure Fills (before after : AcceptLedger) (i : Nat) : Prop where
  free : (before.seats i).used = false
  name : after.name i = before.fresh
  fresh : after.fresh = before.fresh + 1
  seats : ∀ j, j ≠ i → after.seats j = before.seats j
  held : ∀ j, j ≠ i → after.held j = before.held j
  names : ∀ j, j ≠ i → after.name j = before.name j
  through : ∀ j, j ≠ i → after.through j = before.through j
  queue : (after.seats i).queue = []
  established : after.established = before.established
  returned : after.returned = before.returned
  calls : after.calls = before.calls

section

variable (fills : Fills ledger after i)
include fills

lemma Fills.other (used : (ledger.seats j).used) : j ≠ i := by
  rintro rfl
  simp [fills.free] at used

lemma Fills.listens (other : j ≠ i) : after.Listens j ↔ ledger.Listens j := by
  rw [Listens, Listens, fills.seats j other]

lemma Fills.queue_names (kept : ledger.Kept) (listens : ledger.Listens l) :
    (after.seats l).queue.map after.name = (ledger.seats l).queue.map ledger.name := by
  rw [fills.seats l (fills.other listens.1)]
  exact map_congr_left fun j mem => fills.names j (fills.other (kept.queue l listens j mem).1.1)

lemma Fills.waits (other : j ≠ i) (waits : ledger.Waits j) : after.Waits j := by
  have parent := fills.other waits.listens.1
  refine ⟨?_, ?_, ?_, ?_⟩ <;> rw [fills.seats j other]
  · exact (fills.listens parent).mpr waits.listens
  · rw [fills.through j other, fills.names _ parent]
    exact waits.through
  · rw [fills.seats _ parent]
    exact waits.port
  · rw [fills.seats _ parent]
    exact waits.queued

end

lemma Kept.fill (kept : ledger.Kept) (fills : Fills ledger after i) (listener : after.Listens i → after.held i)
    (child : after.Child i → after.held i = false ∧ after.Waits i) : after.Kept := by
  refine ⟨fun l listens => ?_, fun j isChild => ?_, fun l listens j mem => ?_, fun l listens => ?_, fun j used => ?_,
    fun j k first second same => ?_, fun l listens => ?_, fun name absent => ?_, fun name other mem => ?_,
    fun name => ?_, fun call mem => ?_⟩
  · by_cases here : l = i
    · exact here ▸ listener (here ▸ listens)
    · rw [fills.held l here]
      exact kept.listener l ((fills.listens here).mp listens)
  · by_cases here : j = i
    · exact .inr (here ▸ child (here ▸ isChild))
    · rw [fills.held j here, fills.seats j here]
      rw [Child, fills.seats j here] at isChild
      exact (kept.child j isChild).imp_right fun both => ⟨both.1, fills.waits here both.2⟩
  · by_cases here : l = i
    · rw [here, fills.queue] at mem
      exact absurd mem not_mem_nil
    · rw [fills.seats l here] at mem
      obtain ⟨isChild, rest⟩ := kept.queue l ((fills.listens here).mp listens) j mem
      have other := fills.other isChild.1
      rw [Child, fills.seats j other, fills.held j other]
      exact ⟨isChild, rest⟩
  · by_cases here : l = i
    · rw [here, fills.queue]
      exact nodup_nil
    · rw [fills.seats l here]
      exact kept.nodup l ((fills.listens here).mp listens)
  · by_cases here : j = i
    · rw [here, fills.name, fills.fresh]
      omega
    · rw [fills.seats j here] at used
      have bound := kept.named j used
      rw [fills.names j here, fills.fresh]
      omega
  · by_cases left : j = i <;> by_cases right : k = i
    · rw [left, right]
    · rw [fills.seats k right] at second
      rw [left, fills.name, fills.names k right] at same
      exact absurd same (Nat.ne_of_gt (kept.named k second))
    · rw [fills.seats j left] at first
      rw [right, fills.name, fills.names j left] at same
      exact absurd same (Nat.ne_of_lt (kept.named j first))
    · rw [fills.seats j left] at first
      rw [fills.seats k right] at second
      rw [fills.names j left, fills.names k right] at same
      exact kept.distinct j k first second same
  · rw [fills.established, fills.returned]
    by_cases here : l = i
    · -- No listener had the new name, so its record is closed.
      rw [here, fills.name, fills.queue, map_nil, append_nil]
      exact kept.finished _ fun other opens => Nat.ne_of_lt (kept.named other opens.1)
    · have before := (fills.listens here).mp listens
      rw [fills.names l here, fills.queue_names kept before]
      exact kept.recorded l before
  · rw [fills.established, fills.returned]
    refine kept.finished name fun l opens => ?_
    have other := fills.other opens.1
    rw [← fills.names l other]
    exact absent l ((fills.listens other).mpr opens)
  · rw [fills.established] at mem
    obtain ⟨bound, unlike⟩ := kept.known name other mem
    refine ⟨by rw [fills.fresh]; omega, fun j used received => ?_⟩
    by_cases here : j = i
    · rw [here, fills.name]
      exact Nat.ne_of_gt bound
    · rw [fills.seats j here] at used received
      rw [fills.names j here]
      exact unlike j used received
  · rw [fills.established]
    exact kept.once name
  · rw [fills.calls] at mem
    obtain ⟨opens, same⟩ := kept.calls call mem
    have other := fills.other opens.1
    exact ⟨(fills.listens other).mpr opens, by rw [fills.names _ other, same]⟩

end Filled

lemma Kept.listen (kept : ledger.Kept) (free : (ledger.seats i).used = false) (port : Nat) :
    (ledger.listen i port).Kept := by
  have fills : Fills ledger (ledger.listen i port) i := by
    constructor <;> simp +contextual [AcceptLedger.listen, free]
  refine kept.fill fills (fun _ => by simp [AcceptLedger.listen]) fun child => ?_
  simp [Child, AcceptLedger.listen] at child

lemma Kept.opened (kept : ledger.Kept) (free : (ledger.seats i).used = false)
    (listens : ledger.Listens l) : (ledger.opened l i).Kept := by
  have fills : Fills ledger (ledger.opened l i) i := by
    constructor <;> simp +contextual [AcceptLedger.opened, free]
  have other := fills.other listens.1
  refine kept.fill fills (fun opens => by simp [Listens, AcceptLedger.opened] at opens) fun _ =>
    ⟨by simp [AcceptLedger.opened], ?_⟩
  have parent : ((ledger.opened l i).seats i).parent = l := by simp [AcceptLedger.opened]
  refine ⟨?_, ?_, ?_, ?_⟩ <;> rw [parent]
  · exact (fills.listens other).mpr listens
  · simp [AcceptLedger.opened, other]
  · simp [AcceptLedger.opened, other]
  · rw [fills.seats l other]
    refine iff_of_false (fun mem => ?_) (by simp [AcceptLedger.opened])
    exact fills.other (kept.queue l listens i mem).1.1 rfl

section Changed

/-- The same listeners and children, with other queues and states. -/
structure Reseats (before after : AcceptLedger) : Prop where
  used : ∀ j, (after.seats j).used = (before.seats j).used
  listener : ∀ j, (after.seats j).listener = (before.seats j).listener
  port : ∀ j, (after.seats j).port = (before.seats j).port
  parent : ∀ j, (after.seats j).parent = (before.seats j).parent
  name : after.name = before.name
  through : after.through = before.through
  fresh : after.fresh = before.fresh

lemma Reseats.listens (reseats : Reseats ledger after) (j : Nat) : after.Listens j ↔ ledger.Listens j := by
  rw [Listens, Listens, reseats.used, reseats.listener]

lemma Reseats.child (reseats : Reseats ledger after) (j : Nat) : after.Child j ↔ ledger.Child j := by
  rw [Child, Child, reseats.used, reseats.listener]

lemma Reseats.waits (reseats : Reseats ledger after) (waits : ledger.Waits j)
    (queued : j ∈ (after.seats (ledger.seats j).parent).queue ↔ (after.seats j).state ≠ .synReceived) :
    after.Waits j := by
  refine ⟨?_, ?_, ?_, ?_⟩ <;> rw [reseats.parent]
  · exact (reseats.listens _).mpr waits.listens
  · rw [reseats.through, reseats.name]
    exact waits.through
  · rw [reseats.port, reseats.port]
    exact waits.port
  · exact queued

section Confirmed

variable (parent : (ledger.seats i).parent = l) (apart : i ≠ l)
include parent apart

lemma confirmed_seats (j : Nat) : (ledger.confirmed i).seats j = { ledger.seats j with
    state := if j = i then .established else (ledger.seats j).state
    queue := if j = l then (ledger.seats l).queue ++ [i] else (ledger.seats j).queue } := by
  by_cases first : j = l
  · simp [confirmed, parent, first, apart.symm]
  · by_cases second : j = i <;> simp [confirmed, parent, first, second, apart]

lemma confirmed_settled (state : (ledger.seats j).state ≠ .synReceived) :
    ((ledger.confirmed i).seats j).state ≠ .synReceived := by
  rw [confirmed_seats parent apart]
  dsimp only
  split
  · simp
  · exact state

lemma confirmed_half (half : ((ledger.confirmed i).seats j).state = .synReceived) :
    j ≠ i ∧ (ledger.seats j).state = .synReceived := by
  rw [confirmed_seats parent apart] at half
  dsimp only at half
  split at half
  · simp at half
  · exact ⟨‹_›, half⟩

lemma mem_confirmed (mem : j ∈ ((ledger.confirmed i).seats k).queue) : j ∈ (ledger.seats k).queue ∨ k = l ∧ j = i := by
  rw [confirmed_seats parent apart] at mem
  dsimp only at mem
  split at mem
  · rename_i own
    rw [own]
    exact (mem_append.mp mem).imp_right fun last => ⟨rfl, mem_singleton.mp last⟩
  · exact .inl mem

end Confirmed

lemma confirmed_established (name : Nat) : (ledger.confirmed i).established name = if name = ledger.through i then
    ledger.established name ++ [ledger.name i] else ledger.established name := by
  by_cases same : name = ledger.through i <;> simp [confirmed, same]

variable (kept : ledger.Kept)
include kept

lemma Kept.waits (child : ledger.Child i) (received : (ledger.seats i).state = .synReceived) :
    ledger.held i = false ∧ ledger.Waits i ∧ i ∉ (ledger.seats (ledger.seats i).parent).queue := by
  rcases kept.child i child with ⟨-, other⟩ | ⟨free, waits⟩
  · exact absurd received other
  · exact ⟨free, waits, fun queued => waits.queued.mp queued received⟩

lemma Kept.reseat (reseats : Reseats ledger after) (listener : ∀ l, ledger.Listens l → after.held l)
    (child : ∀ j, ledger.Child j → after.held j ∧ (after.seats j).state ≠ .synReceived ∨
      after.held j = false ∧ ledger.Waits j ∧
        (j ∈ (after.seats (ledger.seats j).parent).queue ↔ (after.seats j).state ≠ .synReceived))
    (queue : ∀ l, ledger.Listens l → ∀ j ∈ (after.seats l).queue,
      ledger.Child j ∧ after.held j = false ∧ (ledger.seats j).parent = l ∧ (after.seats j).state ≠ .synReceived)
    (nodup : ∀ l, ledger.Listens l → (after.seats l).queue.Nodup)
    (recorded : ∀ l, ledger.Listens l → after.established (ledger.name l) =
      after.returned (ledger.name l) ++ (after.seats l).queue.map ledger.name)
    (finished : ∀ name, (∀ l, ledger.Listens l → ledger.name l ≠ name) → after.established name = after.returned name)
    (known : ∀ name, ∀ child ∈ after.established name, child < ledger.fresh ∧
      ∀ j, (ledger.seats j).used → (after.seats j).state = .synReceived → ledger.name j ≠ child)
    (once : ∀ name, (after.established name).Nodup) (calls : ∀ call ∈ after.calls, call ∈ ledger.calls) :
    after.Kept := by
  refine ⟨fun l opens => listener l ((reseats.listens l).mp opens), fun j isChild => ?_, fun l opens j mem => ?_,
    fun l opens => nodup l ((reseats.listens l).mp opens), fun j used => ?_, fun j k first second => ?_,
    fun l opens => ?_, fun name absent => ?_, fun name other mem => ?_, once, fun call mem => ?_⟩
  · exact (child j ((reseats.child j).mp isChild)).imp_right fun both => ⟨both.1, reseats.waits both.2.1 both.2.2⟩
  · rw [reseats.child, reseats.parent]
    exact queue l ((reseats.listens l).mp opens) j mem
  · rw [reseats.name, reseats.fresh]
    exact kept.named j (reseats.used j ▸ used)
  · rw [reseats.name]
    exact kept.distinct j k (reseats.used j ▸ first) (reseats.used k ▸ second)
  · rw [reseats.name]
    exact recorded l ((reseats.listens l).mp opens)
  · refine finished name fun l opens => ?_
    rw [← reseats.name]
    exact absent l ((reseats.listens l).mpr opens)
  · rw [reseats.fresh, reseats.name]
    obtain ⟨bound, unlike⟩ := known name other mem
    exact ⟨bound, fun j used half => unlike j (reseats.used j ▸ used) half⟩
  · obtain ⟨opens, same⟩ := kept.calls call (calls call mem)
    exact ⟨(reseats.listens _).mpr opens, by rw [reseats.name, same]⟩

lemma Kept.confirmed (child : ledger.Child i)
    (received : (ledger.seats i).state = .synReceived) : (ledger.confirmed i).Kept := by
  obtain ⟨free, waits, unqueued⟩ := kept.waits child received
  obtain ⟨l, parent⟩ : ∃ l, (ledger.seats i).parent = l := ⟨_, rfl⟩
  rw [parent] at unqueued
  have listens : ledger.Listens l := parent ▸ waits.listens
  have through : ledger.through i = ledger.name l := parent ▸ waits.through
  have apart : i ≠ l := by
    rintro rfl
    simp [Listens, child.2] at listens
  have seats := confirmed_seats parent apart
  have reseats : Reseats ledger (ledger.confirmed i) := by
    refine ⟨fun j => ?_, fun j => ?_, fun j => ?_, fun j => ?_, rfl, rfl, rfl⟩ <;> rw [seats]
  refine kept.reseat reseats kept.listener (fun j isChild => ?_) (fun k opens j mem => ?_) (fun k opens => ?_)
    (fun k opens => ?_) (fun name absent => ?_) (fun name other mem => ?_) (fun name => ?_) fun _ => id
  · -- The child itself is queued now, and the others are where they were.
    by_cases here : j = i
    · subst here
      refine .inr ⟨free, waits, ?_⟩
      rw [parent, seats, seats]
      simp
    · rw [seats j, if_neg here]
      refine (kept.child j isChild).imp_right fun both => ⟨both.1, both.2, ?_⟩
      rw [seats, ← both.2.queued]
      dsimp only
      split
      · rename_i same
        simp [same, here]
      · rfl
  · rcases mem_confirmed parent apart mem with old | ⟨rfl, rfl⟩
    · obtain ⟨isChild, unheld, isParent, state⟩ := kept.queue k opens j old
      exact ⟨isChild, unheld, isParent, confirmed_settled parent apart state⟩
    · exact ⟨child, free, parent, by rw [seats]; simp⟩
  · rw [seats]
    dsimp only
    split
    · exact nodup_append.mpr ⟨kept.nodup l listens, nodup_singleton i, fun j old k new same =>
        unqueued (by rw [← mem_singleton.mp new, ← same]; exact old)⟩
    · exact kept.nodup k opens
  · have record := kept.recorded k opens
    rw [confirmed_established, through, seats]
    by_cases own : k = l
    · subst own
      rw [if_pos rfl, if_pos rfl, record, map_append, append_assoc]
      rfl
    · rw [if_neg own, if_neg fun same => own (kept.distinct k l opens.1 listens.1 same)]
      exact record
  · rw [confirmed_established, through, if_neg fun same => absent l listens same.symm]
    exact kept.finished name absent
  · have cases : other ∈ ledger.established name ∨ other = ledger.name i := by
      rw [confirmed_established] at mem
      split at mem
      · exact (mem_append.mp mem).imp_right mem_singleton.mp
      · exact .inl mem
    rcases cases with old | rfl
    · obtain ⟨bound, unlike⟩ := kept.known name other old
      exact ⟨bound, fun j used half => unlike j used (confirmed_half parent apart half).2⟩
    · exact ⟨kept.named i child.1, fun j used half same =>
        (confirmed_half parent apart half).1 (kept.distinct j i used child.1 same)⟩
  · rw [confirmed_established]
    split
    · -- The record has no child that is still half open.
      exact nodup_append.mpr ⟨kept.once name, nodup_singleton _, fun j old k new same =>
        (kept.known name j old).2 i child.1 received ((mem_singleton.mp new).symm.trans same.symm)⟩
    · exact kept.once name

lemma Kept.ended (opened : (ledger.seats i).state = .established) : (ledger.ended i).Kept := by
  have seats : ∀ j, (ledger.ended i).seats j = { ledger.seats j with
      state := if j = i then .finWait else (ledger.seats j).state } := by
    intro j
    by_cases here : j = i <;> simp [AcceptLedger.ended, here]
  have received : ∀ j, ((ledger.ended i).seats j).state = .synReceived ↔ (ledger.seats j).state = .synReceived := by
    intro j
    by_cases here : j = i <;> simp [seats, here, opened]
  have reseats : Reseats ledger (ledger.ended i) := by
    refine ⟨fun j => ?_, fun j => ?_, fun j => ?_, fun j => ?_, rfl, rfl, rfl⟩ <;> rw [seats]
  refine kept.reseat reseats kept.listener (fun j isChild => ?_) (fun l opens j mem => ?_) (fun l opens => ?_)
    (fun l opens => ?_) kept.finished (fun name other mem => ?_) kept.once fun _ => id
  · rw [Ne, received, seats]
    exact (kept.child j isChild).imp_right fun both => ⟨both.1, both.2, both.2.queued⟩
  · rw [seats] at mem
    rw [Ne, received]
    exact kept.queue l opens j mem
  · rw [seats]
    exact kept.nodup l opens
  · rw [seats]
    exact kept.recorded l opens
  · obtain ⟨bound, unlike⟩ := kept.known name other mem
    exact ⟨bound, fun j used half => unlike j used ((received j).mp half)⟩

lemma Kept.taken {call : Nat × Nat} (waiting : call ∈ ledger.calls) {rest : List Nat}
    (queue : (ledger.seats call.1).queue = i :: rest) : (ledger.taken call i rest).Kept := by
  obtain ⟨listens, named⟩ := kept.calls call waiting
  have nodup := kept.nodup call.1 listens
  rw [queue] at nodup
  obtain ⟨gone, rest_nodup⟩ := nodup_cons.mp nodup
  obtain ⟨child, free, parent, state⟩ := kept.queue call.1 listens i (by rw [queue]; exact mem_cons_self)
  have seats : ∀ j, (ledger.taken call i rest).seats j = { ledger.seats j with
      queue := if j = call.1 then rest else (ledger.seats j).queue } := by
    intro j
    by_cases here : j = call.1 <;> simp [AcceptLedger.taken, here]
  have heldOf : ∀ j, (ledger.taken call i rest).held j = if j = i then true else ledger.held j := by
    intro j
    by_cases here : j = i <;> simp [AcceptLedger.taken, here]
  have returnedOf : ∀ name, (ledger.taken call i rest).returned name =
      if name = call.2 then ledger.returned name ++ [ledger.name i] else ledger.returned name := by
    intro name
    by_cases here : name = call.2 <;> simp [AcceptLedger.taken, here]
  have reseats : Reseats ledger (ledger.taken call i rest) := by
    refine ⟨fun j => ?_, fun j => ?_, fun j => ?_, fun j => ?_, rfl, rfl, rfl⟩ <;> rw [seats]
  refine kept.reseat reseats (fun l opens => ?_) (fun j isChild => ?_) (fun l opens j mem => ?_) (fun l opens => ?_)
    (fun l opens => ?_) (fun name absent => ?_) (fun name other mem => ?_) kept.once
    fun _ mem => mem_of_mem_erase mem
  · rw [heldOf, kept.listener l opens, ite_self]
  · rw [heldOf, seats j]
    by_cases here : j = i
    · exact .inl ⟨if_pos here, here ▸ state⟩
    rw [if_neg here]
    refine (kept.child j isChild).imp_right fun both => ⟨both.1, both.2, ?_⟩
    rw [seats, ← both.2.queued]
    dsimp only
    split
    · rename_i same
      simp [same, queue, here]
    · rfl
  · rw [seats] at mem
    rw [seats, heldOf]
    have listed : j ∈ (ledger.seats l).queue ∧ j ≠ i := by
      dsimp only at mem
      split at mem
      · rename_i same
        rw [same, queue]
        exact ⟨mem_cons_of_mem _ mem, fun equal => gone (equal ▸ mem)⟩
      · rename_i other
        refine ⟨mem, ?_⟩
        rintro rfl
        exact other ((kept.queue l opens j mem).2.2.1.symm.trans parent)
    rw [if_neg listed.2]
    exact kept.queue l opens j listed.1
  · rw [seats]
    dsimp only
    split
    · exact rest_nodup
    · exact kept.nodup l opens
  · have record := kept.recorded l opens
    rw [seats, returnedOf]
    by_cases own : l = call.1
    · subst own
      rw [queue] at record
      rw [if_pos rfl, if_pos named, append_assoc]
      exact record
    · rw [if_neg own, if_neg fun same => own (kept.distinct l call.1 opens.1 listens.1 (same.trans named.symm))]
      exact record
  · rw [returnedOf, if_neg fun same => absent call.1 listens (named.trans same.symm)]
    exact kept.finished name absent
  · obtain ⟨bound, unlike⟩ := kept.known name other mem
    exact ⟨bound, fun j used half => unlike j used (by rwa [seats] at half)⟩

end Changed

/-- A slot a socket has is given back; a listener only without children and waiting calls. -/
theorem Kept.closed (kept : ledger.Kept) (held : ledger.held i)
    (idle : ledger.Listens i → (ledger.seats i).queue = [] ∧ (∀ call ∈ ledger.calls, call.1 ≠ i) ∧
      ∀ j, ledger.Child j → (ledger.seats j).state = .synReceived → (ledger.seats j).parent ≠ i) :
    (ledger.closed i).Kept := by
  have same : ∀ j ≠ i, (ledger.closed i).seats j = ledger.seats j := by
    intro j other
    simp [AcceptLedger.closed, other]
  have gone : ((ledger.closed i).seats i).used = false := by simp [AcceptLedger.closed]
  have stays : ∀ j, ((ledger.closed i).seats j).used → j ≠ i := by
    rintro j used rfl
    simp [gone] at used
  have listens : ∀ l, (ledger.closed i).Listens l ↔ ledger.Listens l ∧ l ≠ i := by
    intro l
    by_cases here : l = i
    · simp [Listens, here, gone]
    · simp [Listens, same l here, here]
  have heldOf : ∀ j ≠ i, (ledger.closed i).held j = ledger.held j := by
    intro j other
    simp [AcceptLedger.closed, other]
  have listed : ∀ l, ledger.Listens l → ∀ j ∈ (ledger.seats l).queue, j ≠ i := by
    rintro l opens j mem rfl
    have unheld := (kept.queue l opens j mem).2.1
    simp [held] at unheld
  refine ⟨fun l opens => ?_, fun j isChild => ?_, fun l opens j mem => ?_, fun l opens => ?_, fun j used => ?_,
    fun j k first second => ?_, fun l opens => ?_, fun name absent => ?_,
    fun name other mem => ⟨(kept.known name other mem).1, fun j used half => ?_⟩, kept.once,
      fun call mem => ?_⟩
  · obtain ⟨before, other⟩ := (listens l).mp opens
    rw [heldOf l other]
    exact kept.listener l before
  · have other := stays j isChild.1
    rw [Child, same j other] at isChild
    rw [heldOf j other, same j other]
    refine (kept.child j isChild).imp_right fun both => ⟨both.1, ?_⟩
    -- The listener that a child waits for stays open: a listener that is closed has no children.
    have parent : (ledger.seats j).parent ≠ i := by
      intro mine
      obtain ⟨empty, -, alone⟩ := idle (mine ▸ both.2.listens)
      have queued := both.2.queued
      rw [mine, empty] at queued
      exact not_mem_nil (queued.mpr fun half => alone j isChild half mine)
    refine ⟨?_, ?_, ?_, ?_⟩ <;> rw [same j other]
    · exact (listens _).mpr ⟨both.2.listens, parent⟩
    · exact both.2.through
    · rw [same _ parent]
      exact both.2.port
    · rw [same _ parent]
      exact both.2.queued
  · obtain ⟨before, other⟩ := (listens l).mp opens
    rw [same l other] at mem
    have open_child := listed l before j mem
    rw [Child, same j open_child, heldOf j open_child]
    exact kept.queue l before j mem
  · obtain ⟨before, other⟩ := (listens l).mp opens
    rw [same l other]
    exact kept.nodup l before
  · exact kept.named j (same j (stays j used) ▸ used)
  · exact kept.distinct j k (same j (stays j first) ▸ first) (same k (stays k second) ▸ second)
  · obtain ⟨before, other⟩ := (listens l).mp opens
    rw [same l other]
    exact kept.recorded l before
  · by_cases mine : ledger.Listens i ∧ ledger.name i = name
    · -- Its queue is empty, so everything that was established through it was returned.
      obtain ⟨opens, rfl⟩ := mine
      have record := kept.recorded i opens
      rw [(idle opens).1, map_nil, append_nil] at record
      exact record
    · refine kept.finished name fun l opens equal => ?_
      by_cases here : l = i
      · exact mine ⟨here ▸ opens, here ▸ equal⟩
      · exact absent l ((listens l).mpr ⟨opens, here⟩) equal
  · have other := stays j used
    rw [same j other] at used half
    exact (kept.known name _ mem).2 j used half
  · obtain ⟨opens, named⟩ := kept.calls call mem
    refine ⟨(listens _).mpr ⟨opens, fun mine => ?_⟩, named⟩
    exact (idle (mine ▸ opens)).2.1 call mem mine

end AcceptLedger

end Galio
