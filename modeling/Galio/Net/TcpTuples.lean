import Galio.Net.TcpTable

/-! Which connection a segment is for: runs of the connection table in which no two connections have one tuple. -/

namespace Galio

open Chain Transition

namespace Tcp

variable {tcp : Tcp} {env : TcpEnv}

/-- A call that opens a connection with a tuple: slot, route and segment are there. -/
def Connects (tcp : Tcp) (action : TcpAction) (tuple : TcpTuple) : Prop :=
  match action with
  | .connect env device destIp destPort => destIp ≠ 0 ∧ destPort ≠ 0 ∧ tcp.unused.isSome ∧ (env.sends 0).isSome ∧
      device = some tuple.srcIp ∧ tuple.srcPort = tcp.ephemeralPort ∧ tuple.destIp = destIp ∧ tuple.destPort = destPort
  | _ => False

section

variable (sound : tcp.Sound)
include sound

lemma Sound.withPort (port : Nat) : ({ tcp with ephemeralPort := port } : Tcp).Sound := by
  obtain ⟨chains, woven⟩ := sound.woven
  exact ⟨⟨chains, woven.linked, woven.nodup, woven.members, woven.hashed⟩, sound.listed⟩

lemma Sound.connect_cases (env : TcpEnv) (device : Option Nat) (destIp destPort : Nat) :
    (∃ tuple, tcp.Connects (.connect env device destIp destPort) tuple ∧
      tcp.Gains (tcpStep tcp (.connect env device destIp destPort)) tuple) ∨
    (∀ tuple, ¬tcp.Connects (.connect env device destIp destPort) tuple) ∧
      tcp.Shrinks (tcpStep tcp (.connect env device destIp destPort)) := by
  simp only [tcpStep, tcpConnectStart]
  by_cases refused : destIp = 0 ∨ destPort = 0
  · rw [if_pos refused]
    refine .inr ⟨fun tuple connects => ?_, sound.shrinks⟩
    rcases refused with zero | zero
    · exact connects.1 zero
    · exact connects.2.1 zero
  rw [if_neg refused]
  cases slot : tcp.unused with
  | none => exact .inr ⟨fun tuple connects => by simp [Connects, slot] at connects, sound.shrinks⟩
  | some i =>
    obtain ⟨small, free⟩ := unused_some slot
    cases device with
    | none =>
      refine .inr ⟨fun tuple connects => by simp [Connects] at connects, ?_⟩
      exact sound.shrinks_unused small free rfl (by simp [freshConnection])
    | some address =>
      have later := sound.withPort (if (tcp.ephemeralPort + 1) % 65536 = 0 then tcpFirstPort else tcp.ephemeralPort + 1)
      cases reached : env.sends 0 with
      | none =>
        refine .inr ⟨fun tuple connects => by simp [Connects, reached] at connects, ?_⟩
        have undone := later.shrinks_undone small free
          (rfl : (activeConnection env.now ⟨address, tcp.ephemeralPort, destIp, destPort⟩).hashLinked = false) rfl rfl
        exact ⟨undone.sound, undone.active⟩
      | some ip =>
        refine .inl ⟨⟨address, tcp.ephemeralPort, destIp, destPort⟩, ?_, ?_⟩
        · simp only [not_or] at refused
          simp [Connects, refused, slot, reached]
        · have opened := later.gains small free
            (rfl : (activeConnection env.now ⟨address, tcp.ephemeralPort, destIp, destPort⟩).hashLinked = false) rfl rfl
            (tcpSendSegment_wiring env.now (some ip) _ [] tcpFlagSyn)
          exact ⟨opened.sound, opened.gained⟩

lemma Sound.inputSyn_cases (env : TcpEnv) (segment : TcpSegment) :
    tcp.Gains (tcpInputSyn env tcp segment).1 segment.tuple ∨ tcp.Shrinks (tcpInputSyn env tcp segment).1 := by
  unfold tcpInputSyn
  split
  · exact .inr sound.shrinks
  split
  · exact .inr sound.shrinks
  split
  · exact .inr sound.shrinks
  rename_i l _ _ _ i slot
  obtain ⟨small, free⟩ := unused_some slot
  refine .inl (sound.gains small free (rfl : (passiveConnection env.now l segment).hashLinked = false) rfl rfl ?_)
  have sent := tcpSendSegment_wiring env.now (env.sends 0)
    ((tcpHashInsert (tcp.setConn i (passiveConnection env.now l segment)) i).conns i) [] tcpFlagSynAck
  exact { sent with }

lemma Sound.input_cases (env : TcpEnv) (segment : TcpSegment) :
    tcp.Gains (tcpInput env tcp segment).1 segment.tuple ∧ (∀ i, tcp.Active i → (tcp.conns i).tuple ≠ segment.tuple) ∨
      tcp.Shrinks (tcpInput env tcp segment).1 := by
  unfold tcpInput
  split
  · rename_i missing
    split
    · rcases sound.inputSyn_cases env segment with gains | shrinks
      · exact .inl ⟨gains, fun i active => sound.lookup_none missing active⟩
      · exact .inr shrinks
    · exact .inr sound.shrinks
  · rename_i i _
    right
    split
    · have taken := sound.shrinks_setConn (TcpConnection.input_wiring env (tcp.conns i) segment)
      dsimp only
      split
      · exact taken.trans (taken.sound.shrinks_enqueue _ _)
      · exact taken
    · exact sound.shrinks

lemma Sound.pollSlot_shrinks (env : TcpEnv) {i : Nat} (small : i < tcpMaxConnections) :
    tcp.Shrinks (tcpPollSlot env tcp i).1 := by
  unfold tcpPollSlot
  dsimp only
  split
  · split
    · have counted : tcp.Shrinks (tcp.setConn i { tcp.conns i with retries := (tcp.conns i).retries + 1 }) :=
        sound.shrinks_setConn ⟨rfl, rfl, rfl, rfl, rfl, rfl⟩
      exact counted.trans (counted.sound.shrinks_free small)
    · have sent := tcpSendSegment_wiring env.now (env.sends i)
        { tcp.conns i with retries := (tcp.conns i).retries + 1 } [] tcpFlagSyn
      exact sound.shrinks_setConn { sent with }
  · exact sound.shrinks

lemma Sound.poll_shrinks (env : TcpEnv) {slots : List Nat}
    (small : ∀ i ∈ slots, i < tcpMaxConnections) (sent : List TcpSegment) : tcp.Shrinks (slots.foldl (fun polled i =>
      ((tcpPollSlot env polled.1 i).1, polled.2 ++ (tcpPollSlot env polled.1 i).2.toList)) (tcp, sent)).1 := by
  induction slots generalizing tcp sent with
  | nil => exact sound.shrinks
  | cons i rest ih =>
    have first := sound.pollSlot_shrinks env (small i (.head _))
    exact first.trans (ih first.sound (fun j listed => small j (.tail _ listed)) _)

lemma Sound.step_cases (action : TcpAction) :
    (∃ tuple, tcp.Gains (tcpStep tcp action) tuple ∧ tcp.Connects action tuple) ∨
    (∀ tuple, ¬tcp.Connects action tuple) ∧
      ((∃ tuple, tcp.Gains (tcpStep tcp action) tuple ∧ ∀ i, tcp.Active i → (tcp.conns i).tuple ≠ tuple) ∨
        tcp.Shrinks (tcpStep tcp action)) := by
  cases action with
  | connect env device destIp destPort =>
    rcases sound.connect_cases env device destIp destPort with ⟨tuple, connects, gains⟩ | ⟨never, shrinks⟩
    · exact .inl ⟨tuple, gains, connects⟩
    · exact .inr ⟨never, .inr shrinks⟩
  | finish i =>
    refine .inr ⟨fun _ => id, .inr ?_⟩
    simp only [tcpStep, tcpConnectFinish]
    split
    · rename_i small
      split
      · exact sound.shrinks
      · exact sound.shrinks_free small
    · exact sound.shrinks
  | listen localIp localPort backlog =>
    refine .inr ⟨fun _ => id, .inr ?_⟩
    simp only [tcpStep, tcpListen]
    split
    · exact sound.shrinks
    split
    · exact sound.shrinks
    · rename_i i slot
      obtain ⟨small, free⟩ := unused_some slot
      exact sound.shrinks_unused small free rfl fun _ => rfl
  | accept i =>
    refine .inr ⟨fun _ => id, .inr ?_⟩
    simp only [tcpStep]
    split
    · exact sound.shrinks_setConn ⟨rfl, rfl, rfl, rfl, rfl, rfl⟩
    · exact sound.shrinks
  | send env i data =>
    refine .inr ⟨fun _ => id, .inr ?_⟩
    simp only [tcpStep, tcpSend]
    split
    · split
      · exact sound.shrinks
      · exact sound.shrinks_setConn (tcpSendSegment_wiring ..)
    · exact sound.shrinks
  | receive i length =>
    refine .inr ⟨fun _ => id, .inr ?_⟩
    simp only [tcpStep]
    split
    · exact sound.shrinks_setConn ⟨rfl, rfl, rfl, rfl, rfl, rfl⟩
    · exact sound.shrinks
  | close env i =>
    refine .inr ⟨fun _ => id, .inr ?_⟩
    simp only [tcpStep, tcpClose]
    split
    · rename_i small
      split
      · exact sound.shrinks
      split
      · have sent := sound.shrinks_setConn (tcpSendSegment_wiring env.now (env.sends 0) (tcp.conns i) [] tcpFlagFinAck)
        exact sent.trans (sent.sound.shrinks_free small)
      · exact sound.shrinks_free small
    · exact sound.shrinks
  | input env segment =>
    rcases sound.input_cases env segment with ⟨gains, fresh⟩ | shrinks
    · exact .inr ⟨fun _ => id, .inl ⟨segment.tuple, gains, fresh⟩⟩
    · exact .inr ⟨fun _ => id, .inr shrinks⟩
  | poll env => exact .inr ⟨fun _ => id, .inr <| sound.poll_shrinks env (fun i listed => List.mem_range.mp listed) []⟩

end

/-- Segments find their connection, whatever was called before. -/
structure Unambiguous (tcp : Tcp) : Prop where
  /-- The chains end, meet no slot twice, and have every active connection exactly in the bucket of its tuple. -/
  chains : ∃ chains : Nat → List Nat, (∀ bucket, Chain.Linked tcp.next (tcp.heads bucket) (chains bucket)) ∧
    (∀ bucket, (chains bucket).Nodup) ∧
    ∀ i, tcp.Active i → ∀ bucket, i ∈ chains bucket ↔ bucket = tcpTupleHash (tcp.conns i).tuple
  /-- A lookup finds an active connection wherever one has the tuple. -/
  found : ∀ i, tcp.Active i → ∃ j, tcpLookup tcp (tcp.conns i).tuple = some j ∧ tcp.Active j ∧
    (tcp.conns j).tuple = (tcp.conns i).tuple
  /-- No two active connections have the same tuple. -/
  distinct : tcp.Distinct

lemma Sound.unambiguous (sound : tcp.Sound) (distinct : tcp.Distinct) : tcp.Unambiguous := by
  refine ⟨?_, fun i active => ?_, distinct⟩
  · obtain ⟨chains, woven⟩ := sound.woven
    refine ⟨chains, woven.linked, woven.nodup, fun i active bucket => ?_⟩
    have linked := (sound.listed i active.1).mpr active
    rw [woven.members, ← woven.hashed i active.1 linked]
    exact ⟨fun member => member.2.2.symm, fun own => ⟨active.1, linked, own.symm⟩⟩
  · cases result : tcpLookup tcp (tcp.conns i).tuple with
    | none => exact absurd rfl (sound.lookup_none result active)
    | some j => exact ⟨j, rfl, sound.lookup_some result⟩

end Tcp

/-- No connection is opened with the tuple of one in use. -/
def FreshTuple (tcp : Tcp) (action : TcpAction) : Prop :=
  ∀ tuple, tcp.Connects action tuple → ∀ i, tcp.Active i → (tcp.conns i).tuple ≠ tuple

lemma Tcp.connects_unique {tcp : Tcp} {action : TcpAction} {first second : TcpTuple}
    (one : tcp.Connects action first) (two : tcp.Connects action second) : first = second := by
  cases action with
  | connect env device destIp destPort =>
    obtain ⟨-, -, -, -, source, port, dest, destPort⟩ := one
    obtain ⟨-, -, -, -, source', port', dest', destPort'⟩ := two
    cases first
    cases second
    simp_all
  | _ => exact one.elim

lemma tcpInit_sound : tcpInit.Sound := by
  have inactive : ∀ i, ¬tcpInit.Active i := fun i active => by simp [Tcp.Active, tcpInit] at active
  refine ⟨⟨fun _ => [], fun _ => rfl, fun _ => List.nodup_nil, fun bucket i => by simp [tcpInit], ?_⟩, ?_⟩
  · intro i _ linked
    simp [tcpInit] at linked
  · intro i _
    exact iff_of_false (by simp [tcpInit]) (inactive i)

/--
Segments are told apart in every state of a run exactly if no call of `tcp_connect` takes a tuple that is in use.

The chains, and what lookups find, hold in every run.
-/
theorem unambiguous_run_iff (actions : List TcpAction) :
    Visits Tcp.Unambiguous tcpInit (record tcpStep tcpInit actions) ↔
      Along (fun tcp action _ => FreshTuple tcp action) tcpInit (record tcpStep tcpInit actions) := by
  have taken : Along (fun tcp action after => after = tcpStep tcp action) tcpInit (record tcpStep tcpInit actions) :=
    along_record _ fun _ _ _ => rfl
  refine visits_iff_along (fun tcp => tcp.Sound ∧ tcp.Distinct) ?_ ?_ ?_ ⟨tcpInit_sound, ?_⟩ taken
  · exact fun tcp both => both.1.unambiguous both.2
  · rintro tcp action after ⟨sound, distinct⟩ rfl fresh
    rcases sound.step_cases action with ⟨tuple, gains, connects⟩ | ⟨-, ⟨tuple, gains, new⟩ | shrinks⟩
    · exact ⟨gains.sound, (gains.distinct_iff distinct).mpr (fresh tuple connects)⟩
    · exact ⟨gains.sound, (gains.distinct_iff distinct).mpr new⟩
    · exact ⟨shrinks.sound, distinct.shrinks shrinks⟩
  · rintro tcp action after ⟨sound, distinct⟩ rfl taken unambiguous
    refine taken fun tuple connects => ?_
    rcases sound.step_cases action with ⟨other, gains, also⟩ | ⟨never, -⟩
    · rw [Tcp.connects_unique connects also]
      exact (gains.distinct_iff distinct).mp unambiguous.distinct
    · exact absurd connects (never tuple)
  · intro i j active
    simp [Tcp.Active, tcpInit] at active

/-- A listener on the first ephemeral port, a first segment to it, and a call that connects to its sender. -/
def collidingCalls : List TcpAction :=
  let env : TcpEnv := ⟨0, fun _ => some 0x0A000001⟩
  [.listen 0 30000 1, .input env ⟨0x0A000002, 80, 0x0A000001, 30000, 5, 0, tcpFlagSyn, [], true⟩,
    .connect env (some 0x0A000001) 0x0A000002 80]

/-- The connection that was accepted and the one that is opened have the same tuple. -/
theorem tuple_taken_twice : ¬Visits Tcp.Unambiguous tcpInit (record tcpStep tcpInit collidingCalls) := by
  rintro ⟨-, -, -, last⟩
  have both := last.distinct 1 2 (by unfold Tcp.Active; decide +kernel) (by unfold Tcp.Active; decide +kernel)
    (by decide +kernel)
  simp at both

end Galio
