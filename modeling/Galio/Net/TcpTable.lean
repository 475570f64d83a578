import Mathlib.Data.List.Perm.Subperm
import Galio.Lib.Run
import Galio.Net.Tcp

/-! The hash chains of the connection table: every step keeps them, and lookups find what is in use. -/

namespace Galio

open Function List TcpConnection

open Chain

/-- A connection without the link of its chain. -/
def TcpConnection.core (conn : TcpConnection) : TcpConnection := { conn with hashNext := none }

lemma TcpConnection.of_core {first second : TcpConnection} (same : first.core = second.core) {Value : Type}
    (field : TcpConnection → Value) (unlinked : ∀ conn : TcpConnection, field conn.core = field conn) :
    field first = field second := by
  rw [← unlinked first, same, unlinked second]

variable {tcp : Tcp} {i j : Nat} {conn : TcpConnection}

namespace Tcp

@[simp] lemma setConn_here (tcp : Tcp) (i : Nat) (conn : TcpConnection) : (tcp.setConn i conn).conns i = conn :=
  update_self ..

@[simp] lemma setConn_other (tcp : Tcp) (conn : TcpConnection) (other : j ≠ i) :
    (tcp.setConn i conn).conns j = tcp.conns j := update_of_ne other ..

lemma setConn_next (tcp : Tcp) (i : Nat) (conn : TcpConnection) :
    (tcp.setConn i conn).next = update tcp.next i conn.hashNext := by
  funext j
  by_cases here : j = i
  · subst here
    simp [next]
  · simp [next, here]

lemma unlink_core (tcp : Tcp) (bucket i j : Nat) : ((tcp.unlink bucket i).conns j).core = (tcp.conns j).core := by
  unfold unlink
  split
  · rfl
  split
  · rfl
  split
  · rename_i before _
    by_cases here : j = before
    · subst here
      simp [core]
    · rw [setConn_other _ _ here]
  · rfl

lemma tcpHashRemove_core (tcp : Tcp) (i j : Nat) : ((tcpHashRemove tcp i).conns j).core =
      if j = i then { (tcp.conns i).core with hashLinked := false } else (tcp.conns j).core := by
  unfold tcpHashRemove
  split
  · by_cases here : j = i
    · subst here
      have same := tcp.unlink_core (tcp.conns j).hashBucket j j
      rw [setConn_here, if_pos rfl, ← same]
      rfl
    · rw [setConn_other _ _ here, if_neg here, unlink_core]
  · split
    · cases conn : tcp.conns j
      simp_all [core]
    · rfl

lemma free_core (tcp : Tcp) (i j : Nat) : ((tcp.free i).conns j).core =
      if j = i then { (tcp.conns i).core with hashLinked := false, used := false } else (tcp.conns j).core := by
  have removed := tcp.tcpHashRemove_core i j
  unfold free
  by_cases here : j = i
  · subst here
    rw [if_pos rfl] at removed ⊢
    rw [setConn_here]
    rw [show ({ (tcpHashRemove tcp j).conns j with used := false } : TcpConnection).core =
      { ((tcpHashRemove tcp j).conns j).core with used := false } from rfl, removed]
  · rw [if_neg here] at removed ⊢
    rw [setConn_other _ _ here, removed]

/-- The heads and links make one chain for each bucket, of the slots linked there. -/
structure Woven (tcp : Tcp) (chains : Nat → List Nat) : Prop where
  /-- The chains end. -/
  linked : ∀ bucket, Chain.Linked tcp.next (tcp.heads bucket) (chains bucket)
  /-- No slot is met twice. -/
  nodup : ∀ bucket, (chains bucket).Nodup
  /-- A slot is on the chain of its bucket. -/
  members : ∀ bucket i, i ∈ chains bucket ↔
    i < tcpMaxConnections ∧ (tcp.conns i).hashLinked ∧ (tcp.conns i).hashBucket = bucket
  /-- The bucket is that of the tuple. -/
  hashed : ∀ i, i < tcpMaxConnections → (tcp.conns i).hashLinked →
    (tcp.conns i).hashBucket = tcpTupleHash (tcp.conns i).tuple

namespace Woven

variable {chains : Nat → List Nat}

section

variable (woven : Woven tcp chains)
include woven

lemma length_le (bucket : Nat) : (chains bucket).length ≤ tcpMaxConnections := by
  have inside : chains bucket ⊆ range tcpMaxConnections :=
    fun i listed => mem_range.mpr ((woven.members bucket i).mp listed).1
  simpa using ((woven.nodup bucket).subperm inside).length_le

lemma setConn_unlinked (before : (tcp.conns i).hashLinked = false)
    (after : conn.hashLinked = false) : Woven (tcp.setConn i conn) chains := by
  have absent : ∀ bucket, i ∉ chains bucket := fun bucket listed => by
    simp [((woven.members bucket i).mp listed).2.1] at before
  refine ⟨fun bucket => ?_, woven.nodup, fun bucket j => ?_, fun j small linked => ?_⟩
  · rw [setConn_next]
    refine (woven.linked bucket).congr fun j listed => update_of_ne ?_ ..
    rintro rfl
    exact absent bucket listed
  · by_cases here : j = i
    · subst here
      simp [absent bucket, after]
    · rw [setConn_other _ _ here, woven.members]
  · by_cases here : j = i
    · subst here
      simp [after] at linked
    · rw [setConn_other _ _ here] at linked ⊢
      exact woven.hashed j small linked

lemma setConn_same (next : conn.hashNext = (tcp.conns i).hashNext)
    (linked : conn.hashLinked = (tcp.conns i).hashLinked) (bucket : conn.hashBucket = (tcp.conns i).hashBucket)
    (tuple : conn.tuple = (tcp.conns i).tuple) : Woven (tcp.setConn i conn) chains := by
  have links : (tcp.setConn i conn).next = tcp.next := by
    rw [setConn_next, next]
    exact update_eq_self i tcp.next
  have read : ∀ j, ((tcp.setConn i conn).conns j).hashLinked = (tcp.conns j).hashLinked ∧
      ((tcp.setConn i conn).conns j).hashBucket = (tcp.conns j).hashBucket ∧
      ((tcp.setConn i conn).conns j).tuple = (tcp.conns j).tuple := by
    intro j
    by_cases here : j = i
    · subst here
      simp [linked, bucket, tuple]
    · simp [here]
  refine ⟨fun b => links ▸ woven.linked b, woven.nodup, fun b j => ?_, fun j small mem => ?_⟩
  · rw [(read j).1, (read j).2.1]
    exact woven.members b j
  · rw [(read j).1] at mem
    rw [(read j).2.1, (read j).2.2]
    exact woven.hashed j small mem

lemma insert (small : i < tcpMaxConnections) (free : (tcp.conns i).hashLinked = false) :
    Woven (tcpHashInsert tcp i) (update chains (tcpTupleHash (tcp.conns i).tuple)
      (i :: chains (tcpTupleHash (tcp.conns i).tuple))) := by
  generalize same : tcpTupleHash (tcp.conns i).tuple = hash
  have absent : ∀ bucket, i ∉ chains bucket := fun bucket listed => by
    simp [((woven.members bucket i).mp listed).2.1] at free
  have stays : ∀ bucket, ∀ j ∈ chains bucket, j ≠ i := fun bucket j listed here => absent bucket (here ▸ listed)
  have shape : tcpHashInsert tcp i = { tcp.setConn i { tcp.conns i with
      hashBucket := hash
      hashNext := tcp.heads hash
      hashLinked := true } with
      heads := update tcp.heads hash (some i) } := by
    simp [tcpHashInsert, free, same, Tcp.setConn]
  have links : (tcpHashInsert tcp i).next = update tcp.next i (tcp.heads hash) := by
    rw [shape]
    exact setConn_next ..
  have heads : (tcpHashInsert tcp i).heads = update tcp.heads hash (some i) := by
    rw [shape]
  have made : (tcpHashInsert tcp i).conns i = { tcp.conns i with
      hashBucket := hash
      hashNext := tcp.heads hash
      hashLinked := true } := by
    rw [shape]
    exact setConn_here ..
  have others : ∀ j ≠ i, (tcpHashInsert tcp i).conns j = tcp.conns j := by
    intro j other
    rw [shape]
    exact setConn_other _ _ other
  have kept : ∀ bucket, Chain.Linked (tcpHashInsert tcp i).next (tcp.heads bucket) (chains bucket) := by
    intro bucket
    rw [links]
    exact (woven.linked bucket).congr fun j listed => update_of_ne (stays bucket j listed) ..
  refine ⟨fun bucket => ?_, fun bucket => ?_, fun bucket j => ?_, fun j inside linked => ?_⟩
  · rw [heads]
    by_cases own : bucket = hash
    · rw [own, update_self, update_self]
      apply (kept _).push
      rw [links, update_self]
    · rw [update_of_ne own, update_of_ne own]
      exact kept bucket
  · by_cases own : bucket = hash
    · rw [own, update_self]
      exact nodup_cons.mpr ⟨absent _, woven.nodup _⟩
    · rw [update_of_ne own]
      exact woven.nodup bucket
  · by_cases here : j = i
    · subst here
      rw [made]
      by_cases own : bucket = hash
      · simp [own, small]
      · rw [update_of_ne own]
        simp [absent bucket, Ne.symm own]
    · rw [others j here, ← woven.members]
      by_cases own : bucket = hash
      · simp [own, here]
      · rw [update_of_ne own]
  · by_cases here : j = i
    · subst here
      rw [made]
      exact same.symm
    · rw [others j here] at linked ⊢
      exact woven.hashed j inside linked

lemma unlink_links {bucket : Nat} (mem : i ∈ chains bucket) (b : Nat) :
    Chain.Linked (tcp.unlink bucket i).next ((tcp.unlink bucket i).heads b)
      (update chains bucket ((chains bucket).erase i) b) := by
  cases chain : chains bucket with
  | nil => simp [chain] at mem
  | cons first rest =>
    have whole := woven.linked bucket
    rw [chain] at whole
    have length := woven.length_le bucket
    rw [chain, length_cons] at length
    have start : tcp.heads bucket = some first := whole.1
    by_cases head : first = i
    · subst head
      have shape : tcp.unlink bucket first = { tcp with
        heads := update tcp.heads bucket (tcp.next first) } := by
        simp [unlink, start]
      rw [shape]
      by_cases own : b = bucket
      · subst own
        simp only [update_self, erase_cons_head]
        exact whole.2
      · simp only [update_of_ne own]
        exact woven.linked b
    · have later : i ∈ rest := (mem_cons.mp (chain ▸ mem)).resolve_left (Ne.symm head)
      obtain ⟨before, inside, link, walked⟩ :=
        Chain.Linked.before_eq ⟨rfl, whole.2⟩ later (by omega : rest.length ≤ tcpMaxConnections)
      have shape : tcp.unlink bucket i = tcp.setConn before { tcp.conns before with hashNext := tcp.next i } := by
        simp [unlink, start, head, walked]
      have ownBucket := ((woven.members bucket before).mp (chain ▸ inside)).2.2
      rw [shape, setConn_next]
      by_cases own : b = bucket
      · subst own
        rw [update_self, ← chain]
        exact (woven.linked b).unlink (woven.nodup b) (chain ▸ inside) link
      · rw [update_of_ne own]
        refine (woven.linked b).congr fun j listed => update_of_ne ?_ ..
        rintro rfl
        exact own (((woven.members b j).mp listed).2.2.symm.trans ownBucket)

lemma remove (small : i < tcpMaxConnections) : ∃ chains, Woven (tcpHashRemove tcp i) chains := by
  by_cases linked : (tcp.conns i).hashLinked
  · have mem : i ∈ chains (tcp.conns i).hashBucket := (woven.members _ i).mpr ⟨small, linked, rfl⟩
    have gone : ((tcpHashRemove tcp i).conns i).hashLinked = false :=
      congrArg hashLinked ((tcp.tcpHashRemove_core i i).trans (if_pos rfl))
    have read : ∀ j ≠ i, ((tcpHashRemove tcp i).conns j).hashLinked = (tcp.conns j).hashLinked ∧
        ((tcpHashRemove tcp i).conns j).hashBucket = (tcp.conns j).hashBucket ∧
        ((tcpHashRemove tcp i).conns j).tuple = (tcp.conns j).tuple := by
      intro j other
      have same := (tcp.tcpHashRemove_core i j).trans (if_neg other)
      exact ⟨of_core same hashLinked fun _ => rfl,
        of_core same hashBucket fun _ => rfl,
        of_core same tuple fun _ => rfl⟩
    refine ⟨update chains (tcp.conns i).hashBucket ((chains (tcp.conns i).hashBucket).erase i), ?_, ?_, ?_, ?_⟩
    · intro bucket
      rw [tcpHashRemove, if_pos linked, setConn_next]
      have same : update (tcp.unlink (tcp.conns i).hashBucket i).next i
          ((tcp.unlink (tcp.conns i).hashBucket i).conns i).hashNext = (tcp.unlink (tcp.conns i).hashBucket i).next :=
        update_eq_self i _
      rw [same]
      exact woven.unlink_links mem bucket
    · intro bucket
      by_cases own : bucket = (tcp.conns i).hashBucket
      · rw [own, update_self]
        exact (woven.nodup _).erase i
      · rw [update_of_ne own]
        exact woven.nodup bucket
    · intro bucket j
      by_cases here : j = i
      · subst here
        have absent : j ∉ update chains (tcp.conns j).hashBucket ((chains (tcp.conns j).hashBucket).erase j)
            bucket := by
          by_cases own : bucket = (tcp.conns j).hashBucket
          · rw [own, update_self]
            exact (woven.nodup _).not_mem_erase
          · rw [update_of_ne own]
            exact fun listed => own ((woven.members bucket j).mp listed).2.2.symm
        simp [absent, gone]
      · rw [(read j here).1, (read j here).2.1, ← woven.members]
        by_cases own : bucket = (tcp.conns i).hashBucket
        · rw [own, update_self]
          exact mem_erase_of_ne here
        · rw [update_of_ne own]
    · intro j inside still
      by_cases here : j = i
      · subst here
        simp [gone] at still
      · rw [(read j here).1] at still
        rw [(read j here).2.1, (read j here).2.2]
        exact woven.hashed j inside still
  · exact ⟨chains, by rw [tcpHashRemove, if_neg linked]; exact woven⟩

end

end Woven

/-- A connection in use that is no listener. -/
def Active (tcp : Tcp) (i : Nat) : Prop :=
  i < tcpMaxConnections ∧ (tcp.conns i).used = true ∧ (tcp.conns i).listener = false

/-- The chains are woven of exactly the active connections. -/
structure Sound (tcp : Tcp) : Prop where
  woven : ∃ chains, Woven tcp chains
  listed : ∀ i, i < tcpMaxConnections → ((tcp.conns i).hashLinked = true ↔ tcp.Active i)

/-- No two active connections have the same tuple. -/
def Distinct (tcp : Tcp) : Prop :=
  ∀ i j, tcp.Active i → tcp.Active j → (tcp.conns i).tuple = (tcp.conns j).tuple → i = j

end Tcp

/-- What the chains and lookups read of a connection is the same. -/
structure TcpConnection.SameWiring (before after : TcpConnection) : Prop where
  next : after.hashNext = before.hashNext
  linked : after.hashLinked = before.hashLinked
  bucket : after.hashBucket = before.hashBucket
  tuple : after.tuple = before.tuple
  used : after.used = before.used
  listener : after.listener = before.listener

lemma tcpSendSegment_fst (now : UInt32) (address : Option Nat) (conn : TcpConnection) (payload : List UInt8)
    (flags : Nat) : (tcpSendSegment now address conn payload flags).1 = { conn with
      lastActivity := (tcpSendSegment now address conn payload flags).1.lastActivity
      seq := (tcpSendSegment now address conn payload flags).1.seq } := by
  cases address <;> rfl

lemma tcpSendSegment_wiring (now : UInt32) (address : Option Nat) (conn : TcpConnection) (payload : List UInt8)
    (flags : Nat) : conn.SameWiring (tcpSendSegment now address conn payload flags).1 := by
  rw [tcpSendSegment_fst]
  exact ⟨rfl, rfl, rfl, rfl, rfl, rfl⟩

namespace TcpConnection

variable (env : TcpEnv) (conn : TcpConnection) (segment : TcpSegment)

lemma inputData_frame : ∃ recvBuffer remoteSeq lastActivity seq,
    (conn.inputData env segment).1 = { conn with recvBuffer, remoteSeq, lastActivity, seq } := by
  unfold inputData
  dsimp only
  rw [tcpSendSegment_fst]
  split_ifs <;> exact ⟨_, _, _, _, rfl⟩

lemma inputFin_frame : ∃ remoteSeq lastActivity seq state, (state = conn.state ∨ state = .finWait) ∧
    (conn.inputFin env segment).1 = { conn with remoteSeq, lastActivity, seq, state } := by
  unfold inputFin
  dsimp only
  rw [tcpSendSegment_fst]
  split_ifs
  · exact ⟨_, _, _, _, .inr rfl, rfl⟩
  · exact ⟨_, _, _, _, .inl rfl, rfl⟩

lemma input_wiring : conn.SameWiring (conn.input env segment).1 := by
  obtain ⟨_, _, _, _, data⟩ := inputData_frame env { conn with lastActivity := env.now } segment
  unfold input
  dsimp only
  rw [data, tcpSendSegment_fst]
  obtain ⟨_, _, _, _, -, fin⟩ := inputFin_frame env _ segment
  rw [fin]
  split_ifs <;> exact ⟨rfl, rfl, rfl, rfl, rfl, rfl⟩

end TcpConnection

variable {after : Tcp} {tuple : TcpTuple}

namespace Tcp

lemma unused_some (found : tcp.unused = some i) : i < tcpMaxConnections ∧ (tcp.conns i).used = false := by
  have free := find?_some found
  exact ⟨mem_range.mp (mem_of_find?_eq_some found), by simpa using free⟩

lemma insert_conns (tcp : Tcp) (i : Nat) (unlinked : conn.hashLinked = false) :
    (tcpHashInsert (tcp.setConn i conn) i).conns i = { conn with
        hashBucket := tcpTupleHash conn.tuple, hashNext := tcp.heads (tcpTupleHash conn.tuple), hashLinked := true } ∧
      ∀ j ≠ i, (tcpHashInsert (tcp.setConn i conn) i).conns j = tcp.conns j := by
  refine ⟨by simp [tcpHashInsert, unlinked, Tcp.setConn], fun j other => ?_⟩
  simp [tcpHashInsert, unlinked, other]

lemma active_setConn (wiring : (tcp.conns i).SameWiring conn) (j : Nat) :
    ((tcp.setConn i conn).Active j ↔ tcp.Active j) ∧ ((tcp.setConn i conn).conns j).tuple = (tcp.conns j).tuple := by
  by_cases here : j = i
  · subst here
    simp [Active, wiring.used, wiring.listener, wiring.tuple]
  · simp [Active, here]

namespace Sound

lemma setConn_same (sound : tcp.Sound) (wiring : (tcp.conns i).SameWiring conn) : (tcp.setConn i conn).Sound := by
  obtain ⟨chains, woven⟩ := sound.woven
  refine ⟨⟨chains, woven.setConn_same wiring.next wiring.linked wiring.bucket wiring.tuple⟩, fun j small => ?_⟩
  rw [(active_setConn wiring j).1, ← sound.listed j small]
  by_cases here : j = i
  · subst here
    rw [setConn_here, wiring.linked]
  · rw [setConn_other _ _ here]

section

variable (sound : tcp.Sound) (small : i < tcpMaxConnections)
include sound small

lemma unlinked (free : (tcp.conns i).used = false) : (tcp.conns i).hashLinked = false := by
  by_contra linked
  have active := (sound.listed i small).mp (by simpa using linked)
  simp [active.2.1] at free

lemma setConn_unused (free : (tcp.conns i).used = false)
    (unlinked : conn.hashLinked = false) (inactive : conn.used → conn.listener) :
    (tcp.setConn i conn).Sound ∧ ∀ j, (tcp.setConn i conn).Active j → tcp.Active j ∧ j ≠ i := by
  obtain ⟨chains, woven⟩ := sound.woven
  have never : ¬(tcp.setConn i conn).Active i := by
    rintro ⟨-, used, plain⟩
    rw [setConn_here] at used plain
    simp [inactive used] at plain
  have active : ∀ j, (tcp.setConn i conn).Active j → tcp.Active j ∧ j ≠ i := by
    intro j active
    have other : j ≠ i := by
      rintro rfl
      exact never active
    exact ⟨by simpa [Active, other] using active, other⟩
  refine ⟨⟨⟨chains, woven.setConn_unlinked (sound.unlinked small free) unlinked⟩, fun j inside => ?_⟩, active⟩
  by_cases here : j = i
  · subst here
    simp [never, unlinked]
  · have listed := sound.listed j inside
    simpa [Active, here] using listed

lemma open_slot (free : (tcp.conns i).used = false)
    (unlinked : conn.hashLinked = false) (used : conn.used) (plain : conn.listener = false) :
    (tcpHashInsert (tcp.setConn i conn) i).Sound ∧ (tcpHashInsert (tcp.setConn i conn) i).conns i = { conn with
        hashBucket := tcpTupleHash conn.tuple, hashNext := tcp.heads (tcpTupleHash conn.tuple), hashLinked := true } ∧
      ∀ j ≠ i, (tcpHashInsert (tcp.setConn i conn) i).conns j = tcp.conns j := by
  obtain ⟨chains, woven⟩ := sound.woven
  have placed := woven.setConn_unlinked (sound.unlinked small free) unlinked
  obtain ⟨here, others⟩ := insert_conns tcp i unlinked
  refine ⟨⟨⟨_, placed.insert small (by simpa using unlinked)⟩, fun j inside => ?_⟩, here, others⟩
  by_cases same : j = i
  · subst same
    simp [Active, here, used, plain, small]
  · have listed := sound.listed j inside
    simpa [Active, others j same] using listed

lemma free : (tcp.free i).Sound := by
  obtain ⟨chains, woven⟩ := sound.woven
  obtain ⟨removed, still⟩ := woven.remove small
  have flag : ((tcpHashRemove tcp i).conns i).hashLinked = false :=
    congrArg hashLinked ((tcp.tcpHashRemove_core i i).trans (if_pos rfl))
  refine ⟨⟨removed, still.setConn_unlinked flag flag⟩, fun j inside => ?_⟩
  have core := tcp.free_core i j
  by_cases here : j = i
  · subst here
    rw [if_pos rfl] at core
    have unlinked : ((tcp.free j).conns j).hashLinked = false := congrArg hashLinked core
    have unused : ((tcp.free j).conns j).used = false := congrArg used core
    simp [Active, unlinked, unused]
  · rw [if_neg here] at core
    have listed := sound.listed j inside
    rw [Active, of_core core hashLinked fun _ => rfl,
      of_core core used fun _ => rfl,
      of_core core listener fun _ => rfl]
    exact listed

end

end Sound

lemma free_active (tcp : Tcp) (i j : Nat) :
    ((tcp.free i).Active j ↔ tcp.Active j ∧ j ≠ i) ∧ ((tcp.free i).conns j).tuple = (tcp.conns j).tuple := by
  have core := tcp.free_core i j
  by_cases here : j = i
  · subst here
    rw [if_pos rfl] at core
    have unused : ((tcp.free j).conns j).used = false := congrArg used core
    have tuple := congrArg tuple core
    exact ⟨by simp [Active, unused], tuple⟩
  · rw [if_neg here] at core
    refine ⟨?_, of_core core tuple fun _ => rfl⟩
    rw [Active, of_core core used fun _ => rfl,
      of_core core listener fun _ => rfl]
    exact ⟨fun active => ⟨active, here⟩, fun both => both.1⟩

lemma pollFold_quiet (env : TcpEnv) (tcp : Tcp) (slots : List Nat) (sent : List TcpSegment)
    (quiet : ∀ i ∈ slots, (tcp.conns i).used → (tcp.conns i).state ≠ .synSent) : slots.foldl (fun polled i =>
      let slot := tcpPollSlot env polled.1 i
      (slot.1, polled.2 ++ slot.2.toList)) (tcp, sent) = (tcp, sent) := by
  induction slots with
  | nil => rfl
  | cons i rest ih =>
    have still : tcpPollSlot env tcp i = (tcp, none) := by
      unfold tcpPollSlot
      rw [if_neg]
      rintro ⟨used, asked, -⟩
      exact quiet i mem_cons_self used asked
    simpa [still] using ih fun j mem => quiet j (mem_cons_of_mem _ mem)

lemma search_eq {steps : Nat} {head : Option Nat} {nodes : List Nat}
    (linked : Chain.Linked tcp.next head nodes) (enough : nodes.length ≤ steps) :
    tcp.search tuple steps head = nodes.find? fun i => (tcp.conns i).used ∧ (tcp.conns i).tuple = tuple := by
  induction nodes generalizing steps head with
  | nil =>
    obtain rfl : head = none := linked
    cases steps <;> rfl
  | cons node rest ih =>
    obtain ⟨rfl, tail⟩ := linked
    cases steps with
    | zero => simp at enough
    | succ steps =>
      rw [search]
      by_cases found : (tcp.conns node).used ∧ (tcp.conns node).tuple = tuple
      · simp [found]
      · rw [ih tail (by simpa using enough)]
        simp [found]

lemma Sound.lookup_some (sound : tcp.Sound) (found : tcpLookup tcp tuple = some i) :
    tcp.Active i ∧ (tcp.conns i).tuple = tuple := by
  obtain ⟨chains, woven⟩ := sound.woven
  rw [tcpLookup, search_eq (woven.linked _) (woven.length_le _)] at found
  obtain ⟨small, linked, -⟩ := (woven.members _ i).mp (mem_of_find?_eq_some found)
  have holds := find?_some found
  simp only [decide_eq_true_eq] at holds
  exact ⟨(sound.listed i small).mp linked, holds.2⟩

lemma Sound.lookup_none (sound : tcp.Sound) (missing : tcpLookup tcp tuple = none)
    (active : tcp.Active i) : (tcp.conns i).tuple ≠ tuple := by
  rintro rfl
  obtain ⟨chains, woven⟩ := sound.woven
  have linked := (sound.listed i active.1).mpr active
  have mem := (woven.members _ i).mpr ⟨active.1, linked, woven.hashed i active.1 linked⟩
  rw [tcpLookup, search_eq (woven.linked _) (woven.length_le _)] at missing
  have absent := find?_eq_none.mp missing i mem
  simp [active.2.1] at absent

/-- A step after which the active connections are some of those before. -/
structure Shrinks (before after : Tcp) : Prop where
  sound : after.Sound
  active : ∀ i, after.Active i → before.Active i ∧ (after.conns i).tuple = (before.conns i).tuple

lemma Sound.shrinks (sound : tcp.Sound) : tcp.Shrinks tcp := ⟨sound, fun _ active => ⟨active, rfl⟩⟩

lemma Shrinks.trans {before : Tcp} (first : before.Shrinks tcp) (second : tcp.Shrinks after) :
    before.Shrinks after := by
  refine ⟨second.sound, fun i active => ?_⟩
  obtain ⟨still, same⟩ := second.active i active
  exact ⟨(first.active i still).1, same.trans (first.active i still).2⟩

lemma Sound.shrinks_setConn (sound : tcp.Sound) (wiring : (tcp.conns i).SameWiring conn) :
    tcp.Shrinks (tcp.setConn i conn) :=
  ⟨sound.setConn_same wiring, fun j active => ⟨(active_setConn wiring j).1.mp active, (active_setConn wiring j).2⟩⟩

lemma Sound.shrinks_unused (sound : tcp.Sound) (small : i < tcpMaxConnections) (free : (tcp.conns i).used = false)
    (unlinked : conn.hashLinked = false) (inactive : conn.used → conn.listener) :
    tcp.Shrinks (tcp.setConn i conn) := by
  obtain ⟨kept, active⟩ := sound.setConn_unused small free unlinked inactive
  refine ⟨kept, fun j still => ?_⟩
  obtain ⟨before, other⟩ := active j still
  exact ⟨before, by rw [setConn_other _ _ other]⟩

lemma Sound.shrinks_free (sound : tcp.Sound) (small : i < tcpMaxConnections) : tcp.Shrinks (tcp.free i) :=
  ⟨sound.free small, fun j active => ⟨((tcp.free_active i j).1.mp active).1, (tcp.free_active i j).2⟩⟩

lemma Sound.shrinks_enqueue (sound : tcp.Sound) (l i : Nat) : tcp.Shrinks (tcp.enqueue l i) := by
  unfold enqueue
  dsimp only
  split
  · exact sound.shrinks_setConn ⟨rfl, rfl, rfl, rfl, rfl, rfl⟩
  · exact sound.shrinks

lemma Distinct.shrinks (distinct : tcp.Distinct) (fewer : tcp.Shrinks after) : after.Distinct := by
  intro i j first second tuples
  obtain ⟨before, same⟩ := fewer.active i first
  obtain ⟨also, equal⟩ := fewer.active j second
  exact distinct i j before also (same.symm.trans (tuples.trans equal))

/-- A step after which one more connection is active. -/
structure Gains (before after : Tcp) (tuple : TcpTuple) : Prop where
  sound : after.Sound
  gained : ∃ i, ¬before.Active i ∧ after.Active i ∧ (after.conns i).tuple = tuple ∧
    ∀ j, j ≠ i → (after.Active j ↔ before.Active j) ∧ (after.conns j).tuple = (before.conns j).tuple

section

variable (sound : tcp.Sound) (small : i < tcpMaxConnections) (free : (tcp.conns i).used = false)
  (unlinked : conn.hashLinked = false) (used : conn.used) (plain : conn.listener = false)
include sound small free unlinked used plain

lemma Sound.gains
    {last : TcpConnection} (wiring : ((tcpHashInsert (tcp.setConn i conn) i).conns i).SameWiring last) :
    tcp.Gains ((tcpHashInsert (tcp.setConn i conn) i).setConn i last) conn.tuple := by
  obtain ⟨opened, here, others⟩ := sound.open_slot small free unlinked used plain
  refine ⟨opened.setConn_same wiring, i, fun active => by simp [active.2.1] at free, ?_, ?_, fun j other => ?_⟩
  · rw [(active_setConn wiring i).1, Active, here]
    exact ⟨small, used, plain⟩
  · rw [(active_setConn wiring i).2, here]
  · rw [(active_setConn wiring j).1, (active_setConn wiring j).2, Active, others j other]
    exact ⟨Iff.rfl, rfl⟩

lemma Sound.shrinks_undone : tcp.Shrinks ((tcpHashInsert (tcp.setConn i conn) i).free i) := by
  obtain ⟨opened, -, others⟩ := sound.open_slot small free unlinked used plain
  refine ⟨opened.free small, fun j active => ?_⟩
  obtain ⟨still, same⟩ := free_active (tcpHashInsert (tcp.setConn i conn) i) i j
  obtain ⟨before, other⟩ := still.mp active
  rw [Active, others j other] at before
  exact ⟨before, by rw [same, others j other]⟩

end

/-- One more connection leaves all of them distinct exactly if its tuple is a new one. -/
theorem Gains.distinct_iff (gains : tcp.Gains after tuple) (distinct : tcp.Distinct) :
    after.Distinct ↔ ∀ i, tcp.Active i → (tcp.conns i).tuple ≠ tuple := by
  obtain ⟨i, absent, active, own, others⟩ := gains.gained
  constructor
  · rintro after j before rfl
    have other : j ≠ i := by
      rintro rfl
      exact absent before
    exact other (after j i ((others j other).1.mpr before) active ((others j other).2.trans own.symm))
  · intro fresh first second firstActive secondActive tuples
    by_cases firstNew : first = i <;> by_cases secondNew : second = i
    · rw [firstNew, secondNew]
    · subst firstNew
      have before := (others second secondNew).1.mp secondActive
      exact absurd ((others second secondNew).2.symm.trans (tuples.symm.trans own)) (fresh second before)
    · subst secondNew
      have before := (others first firstNew).1.mp firstActive
      exact absurd ((others first firstNew).2.symm.trans (tuples.trans own)) (fresh first before)
    · rw [(others first firstNew).2, (others second secondNew).2] at tuples
      exact distinct first second ((others first firstNew).1.mp firstActive)
        ((others second secondNew).1.mp secondActive)
        tuples

end Tcp

/-- The calls of the kernel on the table, and what arrives. -/
inductive TcpAction where
  /-- `tcp_connect` up to its wait, with the address of the device of the route. -/
  | connect (env : TcpEnv) (device : Option Nat) (destIp destPort : Nat)
  /-- `tcp_connect` after its wait for a slot. -/
  | finish (i : Nat)
  | listen (localIp localPort backlog : Nat)
  /-- `tcp_accept` with a connection pending. -/
  | accept (i : Nat)
  | send (env : TcpEnv) (i : Nat) (data : List UInt8)
  /-- `tcp_receive` after its wait. -/
  | receive (i length : Nat)
  | close (env : TcpEnv) (i : Nat)
  | input (env : TcpEnv) (segment : TcpSegment)
  | poll (env : TcpEnv)

/-- The table after a call; numbers outside of it are refused. -/
def tcpStep (tcp : Tcp) : TcpAction → Tcp
  | .connect env device destIp destPort => (tcpConnectStart env device tcp destIp destPort).1
  | .finish i => if i < tcpMaxConnections then (tcpConnectFinish tcp i).1 else tcp
  | .listen localIp localPort backlog => (tcpListen tcp localIp localPort backlog).1
  | .accept i => if i < tcpMaxConnections ∧ (tcp.conns i).pendingCount ≠ 0 then (tcpAcceptTake tcp i).1 else tcp
  | .send env i data => if i < tcpMaxConnections then (tcpSend env tcp i data).1 else tcp
  | .receive i length => if i < tcpMaxConnections then tcp.setConn i ((tcp.conns i).take length).1 else tcp
  | .close env i => if i < tcpMaxConnections then (tcpClose env tcp i).1 else tcp
  | .input env segment => (tcpInput env tcp segment).1
  | .poll env => (tcpPoll env tcp).1

end Galio
