import Mathlib.Algebra.Group.Int.Defs
import Mathlib.Data.Fintype.Card
import Galio.Lib.Chain
import Galio.Lib.Run

/-! The kernel timers of `kernel/time/ktimer.c`, and the ticks at which they run. -/

namespace Galio

open List Option

open Function (update update_self update_of_ne)
open Transition (Along final)

/-- The sign of a difference of 64 bits. -/
def galioTimeAfter (a b : BitVec 64) : Bool := 0 < (a - b).toInt

def galioTimeBefore (a b : BitVec 64) : Bool := galioTimeAfter b a

lemma galioTimeAfter_ofInt {a b : Int} (above : a - b < 2 ^ 63) (below : b - a < 2 ^ 63) :
    galioTimeAfter (.ofInt 64 a) (.ofInt 64 b) = decide (b < a) := by
  rw [galioTimeAfter, BitVec.toInt_sub, BitVec.toInt_ofInt, BitVec.toInt_ofInt]
  simp only [Int.sub_bmod_bmod, Int.bmod_sub_bmod]
  rw [Int.bmod_eq_of_le (by omega) (by omega)]
  simp

/-- The fields of the timers, and the head of the list. -/
structure Ktimers (count : Nat) where
  expires : Fin count → BitVec 64 := fun _ => 0
  active : Fin count → Bool := fun _ => false
  next : Fin count → Option (Fin count) := fun _ => none
  ktimerList : Option (Fin count) := none

variable {count : Nat} {timers : Ktimers count} {timer : Fin count} {armed : List (Fin count)}

namespace Ktimers

/-- The links after `galio_ktimer_cancel` linked past a timer. -/
def linkPast (timers : Ktimers count) (timer : Fin count) : Fin count → Option (Fin count) :=
  match timers.ktimerList with
  | none => timers.next
  | some first =>
    match Chain.before timers.next timer count first with
    | some (some previous) => update timers.next previous (timers.next timer)
    | _ => timers.next

def galioKtimerCancel (timers : Ktimers count) (timer : Fin count) : Ktimers count :=
  if timers.active timer then
    if timers.ktimerList = some timer then
      { timers with
        ktimerList := timers.next timer
        next := update timers.next timer none
        active := update timers.active timer false }
    else
      { timers with
        next := update (timers.linkPast timer) timer none
        active := update timers.active timer false }
  else timers

/-- `galio_ktimer_start`, or nothing if its walk does not end. -/
def galioKtimerStart (timers : Ktimers count) (timer : Fin count) (expiry : BitVec 64) : Option (Ktimers count) :=
  let timers := timers.galioKtimerCancel timer
  let timers := { timers with
    expires := update timers.expires timer expiry, active := update timers.active timer true }
  match timers.ktimerList with
  | none => some { timers with next := update timers.next timer none, ktimerList := some timer }
  | some first =>
    if galioTimeBefore expiry (timers.expires first) then
      some { timers with next := update timers.next timer (some first), ktimerList := some timer }
    else
      (Chain.seek timers.next (fun later => galioTimeAfter expiry (timers.expires later)) count first).map
        fun curr => { timers with next := update (update timers.next timer (timers.next curr)) curr (some timer) }

/-- A turn of the loop of `galio_ktimer_run_pending`, with the timer it runs. -/
def galioKtimerRunStep (timers : Ktimers count) (now : BitVec 64) : Option (Fin count × Ktimers count) :=
  match timers.ktimerList with
  | none => none
  | some timer =>
    if galioTimeAfter now (timers.expires timer) then
      some (timer, { timers with
        ktimerList := timers.next timer
        next := update timers.next timer none
        active := update timers.active timer false })
    else none

/-- The list consists of the timers with the active flag. -/
structure Chained (timers : Ktimers count) (armed : List (Fin count)) : Prop where
  linked : Chain.Linked timers.next timers.ktimerList armed
  distinct : armed.Nodup
  active : ∀ timer, timers.active timer = true ↔ timer ∈ armed

lemma Chained.length_le (chained : timers.Chained armed) : armed.length ≤ count := by
  simpa using chained.distinct.length_le_card

lemma Chained.inactive (chained : timers.Chained armed) (timer other : Fin count) :
    update timers.active timer false other ↔ other ∈ armed.erase timer := by
  rw [chained.distinct.mem_erase_iff, ← chained.active, Function.update_apply]
  split <;> simp_all

/-- Both branches of `galio_ktimer_cancel` take the timer out of the list. -/
theorem Chained.cancel (chained : timers.Chained armed) (timer : Fin count) :
    (timers.galioKtimerCancel timer).Chained (armed.erase timer) := by
  have gone : timer ∉ armed.erase timer := chained.distinct.not_mem_erase
  rw [galioKtimerCancel]
  split
  · rename_i active
    have mem := (chained.active timer).mp active
    have linked := chained.linked
    cases armed with
    | nil => simp at mem
    | cons first rest =>
      have head := linked.1
      -- Clearing the link of the timer that left changes nothing in the list.
      have cleared {next : Fin count → Option (Fin count)} {head : Option (Fin count)}
          (linked : Chain.Linked next head ((first :: rest).erase timer)) :
          Chain.Linked (update next timer none) head ((first :: rest).erase timer) :=
        linked.congr fun other inside => update_of_ne (by rintro rfl; exact gone inside) _ _
      split
      · rename_i here
        cases head.symm.trans here
        refine ⟨cleared ?_, chained.distinct.erase _, chained.inactive _⟩
        rw [erase_cons_head]
        exact linked.2
      · rename_i elsewhere
        have later : timer ∈ rest := (mem_cons.mp mem).resolve_left fun equal =>
          elsewhere (equal ▸ head)
        rw [head] at linked
        obtain ⟨previous, inside, link, found⟩ :=
          linked.before_eq later (Nat.le_of_succ_le chained.length_le)
        refine ⟨cleared ?_, chained.distinct.erase _, chained.inactive _⟩
        simp only [linkPast, head, found]
        exact linked.unlink chained.distinct inside link
  · rename_i inactive
    rw [erase_of_not_mem (mt (chained.active timer).mpr inactive)]
    exact chained

lemma galioKtimerCancel_expires (timers : Ktimers count) (timer : Fin count) :
    (timers.galioKtimerCancel timer).expires = timers.expires := by
  rw [galioKtimerCancel]
  split
  · split <;> rfl
  · rfl

/-- Where `galio_ktimer_start` puts a timer in a list without it. -/
def place (expires : Fin count → BitVec 64) (timer : Fin count) : List (Fin count) → List (Fin count)
  | [] => [timer]
  | first :: rest =>
    if galioTimeBefore (expires timer) (expires first) then timer :: first :: rest
    else
      let later := fun other => galioTimeAfter (expires timer) (expires other)
      first :: (rest.takeWhile later ++ timer :: rest.dropWhile later)

lemma place_perm (expires : Fin count → BitVec 64) (timer : Fin count) (list : List (Fin count)) :
    (place expires timer list).Perm (timer :: list) := by
  cases list with
  | nil => exact .refl _
  | cons first rest =>
    rw [place]
    split
    · exact .refl _
    · refine .trans (.cons first (.trans perm_middle ?_)) (.swap ..)
      rw [takeWhile_append_dropWhile]

variable {key : Fin count → Int} {list : List (Fin count)}

lemma insert_sorted {passes : Fin count → Bool} (sorted : list.Pairwise fun one other => key one ≤ key other)
    (later : ∀ other ∈ list, passes other = decide (key other < key timer)) :
    (list.takeWhile passes ++ timer :: list.dropWhile passes).Pairwise fun one other => key one ≤ key other := by
  -- Along the walk, one timer after another that is earlier.
  induction list with
  | nil => simp
  | cons first rest ih =>
    obtain ⟨least, ordered⟩ := pairwise_cons.mp sorted
    have passed := later first mem_cons_self
    by_cases earlier : key first < key timer
    · have perm : (rest.takeWhile passes ++ timer :: rest.dropWhile passes).Perm (timer :: rest) := by
        apply perm_middle.trans
        rw [takeWhile_append_dropWhile]
      have passes_first : passes first = true := by simp [passed, earlier]
      rw [takeWhile_cons_of_pos passes_first, dropWhile_cons_of_pos passes_first]
      refine .cons (fun other mem => ?_) (ih ordered fun other inside => ?_)
      rcases mem_cons.mp (perm.mem_iff.mp mem) with rfl | inside
      · exact earlier.le
      · exact least other inside
      · exact later other (mem_cons_of_mem _ inside)
    · have stops : ¬passes first = true := by simp [passed, earlier]
      have first_ge := not_lt.mp earlier
      rw [takeWhile_cons_of_neg stops, dropWhile_cons_of_neg stops]
      refine .cons (forall_mem_cons.mpr ⟨first_ge, fun other inside => ?_⟩) sorted
      exact first_ge.trans (least other inside)

lemma place_sorted {expires : Fin count → BitVec 64} (sorted : list.Pairwise fun one other => key one ≤ key other)
    (earlier : ∀ other ∈ list, galioTimeBefore (expires timer) (expires other) = decide (key timer < key other))
    (later : ∀ other ∈ list, galioTimeAfter (expires timer) (expires other) = decide (key other < key timer)) :
    (place expires timer list).Pairwise fun one other => key one ≤ key other := by
  cases list with
  | nil => simp [place]
  | cons first rest =>
    obtain ⟨least, ordered⟩ := pairwise_cons.mp sorted
    rw [place, earlier first mem_cons_self]
    split
    · have first_gt : key timer < key first := by simpa using ‹decide _ = true›
      refine .cons (forall_mem_cons.mpr ⟨first_gt.le, fun other inside => ?_⟩) sorted
      exact first_gt.le.trans (least other inside)
    · have first_le : key first ≤ key timer := not_lt.mp fun less => ‹¬decide _ = true› (decide_eq_true less)
      refine .cons (fun other mem => ?_)
        (insert_sorted ordered fun other inside => later other (mem_cons_of_mem _ inside))
      rcases mem_append.mp mem with inside | inside
      · exact least other ((takeWhile_sublist _).subset inside)
      · rcases mem_cons.mp inside with rfl | inside
        · exact first_le
        · exact least other ((dropWhile_sublist _).subset inside)

lemma Chained.start (chained : timers.Chained armed) (timer : Fin count) (expiry : BitVec 64) :
    ∃ started, timers.galioKtimerStart timer expiry = some started ∧
      started.expires = update timers.expires timer expiry ∧
      started.Chained (place (update timers.expires timer expiry) timer (armed.erase timer)) := by
  have cancelled := chained.cancel timer
  have fresh : timer ∉ armed.erase timer := chained.distinct.not_mem_erase
  have perm := place_perm (update timers.expires timer expiry) timer (armed.erase timer)
  have nodup := perm.nodup_iff.mpr (nodup_cons.mpr ⟨fresh, cancelled.distinct⟩)
  have flags (other : Fin count) : update (timers.galioKtimerCancel timer).active timer true other ↔
      other ∈ place (update timers.expires timer expiry) timer (armed.erase timer) := by
    rw [perm.mem_iff, mem_cons, ← cancelled.active, Function.update_apply]
    split <;> simp_all
  simp only [galioKtimerStart, galioKtimerCancel_expires]
  -- From here on only the list that is left by the cancelling matters.
  generalize timers.galioKtimerCancel timer = before at cancelled flags ⊢
  generalize armed.erase timer = list at cancelled flags fresh nodup
  have linked := cancelled.linked
  cases list with
  | nil =>
    rw [linked]
    exact ⟨_, rfl, rfl, ⟨rfl, update_self ..⟩, nodup, flags⟩
  | cons first rest =>
    have head := linked.1
    rw [head] at linked ⊢
    rw [place, update_self] at nodup flags
    dsimp only
    split
    · rename_i earlier
      rw [if_pos earlier] at nodup flags
      refine ⟨_, rfl, rfl, ?_⟩
      rw [place, update_self, if_pos earlier]
      refine ⟨Chain.Linked.push (linked.congr fun other mem => ?_) (update_self ..), nodup, flags⟩
      exact update_of_ne (by rintro rfl; exact fresh mem) _ _
    · rename_i later
      rw [if_neg later] at nodup flags
      obtain ⟨node, -, found, inserted⟩ := linked.insert
        (fun other => galioTimeAfter expiry (update timers.expires timer expiry other)) cancelled.distinct fresh
        cancelled.length_le
      rw [found]
      refine ⟨_, rfl, rfl, ?_⟩
      rw [place, update_self, if_neg later]
      exact ⟨inserted, nodup, flags⟩

lemma Chained.run_cases (chained : timers.Chained armed) (now : BitVec 64) : (timers.galioKtimerRunStep now = none ∧
      ∀ first ∈ armed.head?, galioTimeAfter now (timers.expires first) = false) ∨
    ∃ first rest left, armed = first :: rest ∧ galioTimeAfter now (timers.expires first) ∧
      timers.galioKtimerRunStep now = some (first, left) ∧ left.Chained rest ∧ left.expires = timers.expires := by
  have linked := chained.linked
  cases armed with
  | nil =>
    have empty : timers.ktimerList = none := linked
    exact .inl ⟨by simp [galioKtimerRunStep, empty], by simp⟩
  | cons first rest =>
    obtain ⟨head, tail⟩ := linked
    obtain ⟨fresh, others⟩ := nodup_cons.mp chained.distinct
    simp only [galioKtimerRunStep, head]
    cases expired : galioTimeAfter now (timers.expires first) with
    | false => exact .inl ⟨by simp, by simpa using expired⟩
    | true =>
      refine .inr ⟨first, rest, _, rfl, expired, if_pos rfl, ⟨?_, others, fun other => ?_⟩, rfl⟩
      · exact tail.congr fun other inside => update_of_ne (by rintro rfl; exact fresh inside) _ _
      · simpa using chained.inactive first other

end Ktimers

/-- Calls of the kernel and of callbacks, and turns of the loop. -/
inductive TimerOp (count : Nat) where
  | start (timer : Fin count) (expiry : Int)
  | cancel (timer : Fin count)
  | tick
  | run

/-- The calls for a timer. -/
def TimerOp.Sets {count : Nat} (timer : Fin count) : TimerOp count → Prop
  | .start other _ | .cancel other => other = timer
  | _ => False

/-- The timers and the clock, with time and expiries in full and the times at which timers ran. -/
structure TimerSystem (count : Nat) where
  time : Int
  timers : Ktimers count := {}
  running : Bool := false
  expiry : Fin count → Int := fun _ => 0
  ran : Fin count → List Int := fun _ => []

namespace TimerSystem

variable {system next : TimerSystem count}

/-- One event. A tick starts `galio_ktimer_run_pending`, whose turns are events of their own. -/
def step (system : TimerSystem count) : TimerOp count → Option (TimerSystem count)
  | .start timer expiry =>
    (system.timers.galioKtimerStart timer (.ofInt 64 expiry)).map fun timers =>
      { system with timers, expiry := update system.expiry timer expiry }
  | .cancel timer => some { system with timers := system.timers.galioKtimerCancel timer }
  | .tick => some (if system.running then system else { system with time := system.time + 1, running := true })
  | .run =>
    some <| if system.running then
      match system.timers.galioKtimerRunStep (.ofInt 64 system.time) with
      | some (timer, timers) =>
        { system with timers, ran := update system.ran timer (system.ran timer ++ [system.time]) }
      | none => { system with running := false }
    else system

/-- The time at which the loop next compares expiries. -/
def check (system : TimerSystem count) : Int := if system.running then system.time else system.time + 1

/-- A new expiry is less than 2^63 away from the time, the next check and the other expiries. -/
def Fits (system : TimerSystem count) : TimerOp count → Prop
  | .start timer expiry =>
    expiry - system.time < 2 ^ 63 ∧ system.check - expiry < 2 ^ 63 ∧
    ∀ other, system.timers.active other = true → other ≠ timer →
      expiry - system.expiry other < 2 ^ 63 ∧ system.expiry other - expiry < 2 ^ 63
  | _ => True

/-- The list is sorted, and no expiries are too far apart to be compared. -/
structure Sound (system : TimerSystem count) (armed : List (Fin count)) : Prop where
  chained : system.timers.Chained armed
  expires : ∀ timer ∈ armed, system.timers.expires timer = .ofInt 64 (system.expiry timer)
  sorted : armed.Pairwise fun one other => system.expiry one ≤ system.expiry other
  near : ∀ timer ∈ armed, system.expiry timer - system.time < 2 ^ 63 ∧ system.check - system.expiry timer < 2 ^ 63

/-- A step that leaves a timer as it is. -/
structure Keeps (system next : TimerSystem count) (timer : Fin count) : Prop where
  active : next.timers.active timer = system.timers.active timer
  ran : next.ran timer = system.ran timer
  expiry : next.expiry timer = system.expiry timer
  time : system.time ≤ next.time
  check : system.check ≤ next.check
  due : system.timers.active timer = true → next.check ≤ max (system.expiry timer + 1) system.check

/-- A step in which the loop runs a timer, the earliest one. -/
structure Runs (system next : TimerSystem count) (timer : Fin count) : Prop where
  active : system.timers.active timer = true
  inactive : next.timers.active timer = false
  ran : next.ran timer = system.ran timer ++ [system.time]
  expired : system.expiry timer < system.time
  time : next.time = system.time
  check : system.check = system.time
  earliest : ∀ other, system.timers.active other = true → system.expiry timer ≤ system.expiry other

variable {expiry : Int}

lemma Sound.start (sound : system.Sound armed) (fits : system.Fits (.start timer expiry)) :
    ∃ started, system.timers.galioKtimerStart timer (.ofInt 64 expiry) = some started ∧
      ∃ after : List (Fin count), after.Perm (timer :: armed.erase timer) ∧
        Sound { system with timers := started, expiry := update system.expiry timer expiry } after := by
  obtain ⟨started, starts, expires, chained⟩ := sound.chained.start timer (.ofInt 64 expiry)
  rw [← expires] at chained
  have perm := Ktimers.place_perm started.expires timer (armed.erase timer)
  obtain ⟨ahead, behind, apart⟩ := fits
  have others {other : Fin count} (mem : other ∈ armed.erase timer) : other ≠ timer ∧ other ∈ armed :=
    sound.chained.distinct.mem_erase_iff.mp mem
  have stored (other : Fin count) (mem : other ∈ timer :: armed.erase timer) :
      started.expires other = .ofInt 64 (update system.expiry timer expiry other) := by
    rw [expires]
    rcases mem_cons.mp mem with rfl | mem
    · rw [update_self, update_self]
    · obtain ⟨different, inside⟩ := others mem
      rw [update_of_ne different, update_of_ne different, sound.expires other inside]
  -- The only comparisons are with the new expiry, so the others need not be near each other.
  have far (other : Fin count) (mem : other ∈ armed.erase timer) :
      update system.expiry timer expiry timer - update system.expiry timer expiry other < 2 ^ 63 ∧
      update system.expiry timer expiry other - update system.expiry timer expiry timer < 2 ^ 63 := by
    obtain ⟨different, inside⟩ := others mem
    rw [update_self, update_of_ne different]
    exact apart other ((sound.chained.active other).mpr inside) different
  have sorted : (armed.erase timer).Pairwise fun one other =>
      update system.expiry timer expiry one ≤ update system.expiry timer expiry other := by
    refine (sound.sorted.sublist erase_sublist).imp_of_mem fun one two ordered => ?_
    rwa [update_of_ne (others one).1, update_of_ne (others two).1]
  refine ⟨started, starts, _, perm, chained, fun other mem => stored other (perm.mem_iff.mp mem),
    Ktimers.place_sorted sorted (fun other mem => ?_) (fun other mem => ?_), fun other mem => ?_⟩
  · rw [galioTimeBefore, stored timer mem_cons_self, stored other (mem_cons_of_mem _ mem)]
    exact galioTimeAfter_ofInt (far other mem).2 (far other mem).1
  · rw [stored timer mem_cons_self, stored other (mem_cons_of_mem _ mem)]
    exact galioTimeAfter_ofInt (far other mem).1 (far other mem).2
  · show update system.expiry timer expiry other - system.time < _ ∧
      system.check - update system.expiry timer expiry other < _
    rcases mem_cons.mp (perm.mem_iff.mp mem) with rfl | mem
    · rw [update_self]
      exact ⟨ahead, behind⟩
    · rw [update_of_ne (others mem).1]
      exact sound.near other (others mem).2

lemma Sound.shorter (sound : system.Sound armed) {rest : List (Fin count)}
    {ran : Fin count → List Int} (chained : timers.Chained rest) (sublist : rest.Sublist armed)
    (expires : timers.expires = system.timers.expires) : Sound { system with timers, ran } rest where
  chained := chained
  expires := fun timer mem => expires ▸ sound.expires timer (sublist.subset mem)
  sorted := sound.sorted.sublist sublist
  near := fun timer mem => sound.near timer (sublist.subset mem)

lemma Keeps.of_check (active : next.timers.active timer = system.timers.active timer)
    (ran : next.ran timer = system.ran timer) (expiry : next.expiry timer = system.expiry timer)
    (time : system.time ≤ next.time) (check : next.check = system.check) : Keeps system next timer :=
  ⟨active, ran, expiry, time, check.ge, fun _ => check.le.trans (le_max_right ..)⟩

/-- A turn of the loop ends it if no timer has expired, and else runs the earliest one. -/
theorem Sound.run (sound : system.Sound armed) (running : system.running) :
    system.step .run = some { system with running := false } ∧ (∀ timer ∈ armed, system.time ≤ system.expiry timer) ∨
    ∃ first rest left, armed = first :: rest ∧ left.Chained rest ∧ left.expires = system.timers.expires ∧
      system.expiry first < system.time ∧ system.step .run = some { system with
        timers := left, ran := update system.ran first (system.ran first ++ [system.time]) } := by
  have compared (timer : Fin count) (mem : timer ∈ armed) :
      galioTimeAfter (.ofInt 64 system.time) (system.timers.expires timer) =
        decide (system.expiry timer < system.time) := by
    obtain ⟨above, below⟩ := sound.near timer mem
    rw [check, if_pos running] at below
    rw [sound.expires timer mem]
    exact galioTimeAfter_ofInt below above
  rcases sound.chained.run_cases (.ofInt 64 system.time) with
    ⟨ends, waiting⟩ | ⟨first, rest, left, rfl, expired, taken⟩
  · refine .inl ⟨by simp [step, running, ends], fun timer mem => ?_⟩
    cases armed with
    | nil => simp at mem
    | cons first rest =>
      have least : system.time ≤ system.expiry first := by
        simpa [compared first mem_cons_self] using waiting first rfl
      rcases mem_cons.mp mem with rfl | later
      · exact least
      · exact least.trans ((pairwise_cons.mp sound.sorted).1 timer later)
  · obtain ⟨takes, chained, expires⟩ := taken
    refine .inr ⟨first, rest, left, rfl, chained, expires, ?_, by simp [step, running, takes]⟩
    simpa [compared first mem_cons_self] using expired

/-- Every step keeps the list in order, and leaves, sets or runs each timer. -/
theorem Sound.step (sound : system.Sound armed) {op : TimerOp count} (fits : system.Fits op)
    (steps : system.step op = some next) : (∃ after, next.Sound after) ∧
    ∀ timer, op.Sets timer ∧ next.ran = system.ran ∨ Keeps system next timer ∨ Runs system next timer := by
  have same (timer : Fin count) : Keeps system system timer := .of_check rfl rfl rfl le_rfl rfl
  have flag {after : List (Fin count)} {other : TimerSystem count} (kept : other.Sound after) {timer : Fin count}
      (mem : timer ∈ after ↔ timer ∈ armed) : other.timers.active timer = system.timers.active timer :=
    Bool.eq_iff_iff.mpr ((kept.chained.active timer).trans (mem.trans (sound.chained.active timer).symm))
  cases op with
  | start set expiry =>
    obtain ⟨started, starts, after, perm, kept⟩ := sound.start fits
    rw [TimerSystem.step, starts] at steps
    cases steps
    refine ⟨⟨after, kept⟩, fun timer => ?_⟩
    by_cases this : set = timer
    · exact .inl ⟨this, rfl⟩
    have other : timer ≠ set := Ne.symm this
    refine .inr (.inl (.of_check (flag kept ?_) rfl (update_of_ne other ..) le_rfl rfl))
    rw [perm.mem_iff, mem_cons, mem_erase_of_ne other]
    exact or_iff_right other
  | cancel set =>
    cases steps
    have kept : Sound { system with timers := system.timers.galioKtimerCancel set } _ :=
      sound.shorter (sound.chained.cancel set) erase_sublist (Ktimers.galioKtimerCancel_expires ..)
    refine ⟨⟨_, kept⟩, fun timer => ?_⟩
    by_cases this : set = timer
    · exact .inl ⟨this, rfl⟩
    · exact .inr (.inl (.of_check (flag kept (mem_erase_of_ne (Ne.symm this))) rfl rfl le_rfl rfl))
  | tick =>
    cases steps
    split
    · exact ⟨⟨armed, sound⟩, fun timer => .inr (.inl (same timer))⟩
    rename_i idle
    have check : system.check = system.time + 1 := if_neg idle
    refine ⟨⟨armed, sound.chained, sound.expires, sound.sorted, fun timer mem => ?_⟩,
      fun timer => .inr (.inl (.of_check rfl rfl rfl (Int.le_add_one le_rfl) check.symm))⟩
    obtain ⟨ahead, behind⟩ := sound.near timer mem
    rw [check] at behind
    exact ⟨show system.expiry timer - (system.time + 1) < _ by omega, behind⟩
  | run =>
    by_cases running : system.running
    · have check : system.check = system.time := if_pos running
      rcases sound.run running with ⟨ends, waiting⟩ | ⟨first, rest, left, rfl, chained, expires, expired, taken⟩
      · cases ends.symm.trans steps
        refine ⟨⟨armed, sound.chained, sound.expires, sound.sorted, fun timer mem => ?_⟩,
          fun timer => .inr (.inl ⟨rfl, rfl, rfl, le_rfl, ?_, fun active => ?_⟩)⟩
        · have := waiting timer mem
          exact ⟨(sound.near timer mem).1, show system.time + 1 - system.expiry timer < _ by omega⟩
        · exact check.le.trans (Int.le_add_one le_rfl)
        · have := waiting timer ((sound.chained.active timer).mp active)
          exact le_max_of_le_left (show system.time + 1 ≤ _ by omega)
      · cases taken.symm.trans steps
        obtain ⟨fresh, -⟩ := nodup_cons.mp sound.chained.distinct
        refine ⟨⟨rest, sound.shorter chained (sublist_cons_self ..) expires⟩, fun timer => .inr ?_⟩
        by_cases this : timer = first
        · subst this
          refine .inr ⟨(sound.chained.active timer).mpr mem_cons_self, ?_, update_self .., expired, rfl, check,
            fun other active => ?_⟩
          · exact Bool.eq_false_iff.mpr fun active => fresh ((chained.active timer).mp active)
          · rcases mem_cons.mp ((sound.chained.active other).mp active) with rfl | later
            · exact le_rfl
            · exact (pairwise_cons.mp sound.sorted).1 other later
        · refine .inl (.of_check ?_ (update_of_ne this ..) rfl le_rfl rfl)
          refine Bool.eq_iff_iff.mpr ((chained.active timer).trans ?_)
          rw [sound.chained.active, mem_cons, or_iff_right this]
    · rw [TimerSystem.step, if_neg running] at steps
      cases steps
      exact ⟨⟨armed, sound⟩, fun timer => .inr (.inl (same timer))⟩

lemma Sound.init (time : Int) : Sound ({ time } : TimerSystem count) [] :=
  ⟨⟨rfl, nodup_nil, by simp⟩, by simp, .nil, by simp⟩

/-- The list holds the active timers once each, sorted by expiry, and every call returns. -/
def Orderly (system : TimerSystem count) : Prop :=
  (∃ armed, system.timers.Chained armed ∧ armed.Pairwise fun one other => system.expiry one ≤ system.expiry other) ∧
  ∀ op, ∃ next, system.step op = some next

lemma Sound.orderly (sound : system.Sound armed) : system.Orderly := by
  refine ⟨⟨armed, sound.chained, sound.sorted⟩, fun op => ?_⟩
  cases op with
  | start timer expiry =>
    obtain ⟨started, starts, -⟩ := sound.chained.start timer (.ofInt 64 expiry)
    exact ⟨_, by rw [TimerSystem.step, starts]; rfl⟩
  | cancel timer => exact ⟨_, rfl⟩
  | tick => exact ⟨_, rfl⟩
  | run => exact ⟨_, rfl⟩

/-- A timer that was armed waits until a tick is due, and runs in it once. -/
def RunsAt (armed : TimerSystem count) (timer : Fin count) (due : Int) (system : TimerSystem count) : Prop :=
  system.timers.active timer = true ∧ system.ran timer = armed.ran timer ∧ system.check ≤ due ∨
  system.timers.active timer = false ∧ system.ran timer = armed.ran timer ++ [due] ∧ due ≤ system.time

/-- While an armed timer waits, its expiry stays. -/
def Tracked (start : TimerSystem count) (timer : Fin count) (expiry : Int) (system : TimerSystem count) : Prop :=
  RunsAt start timer (max (expiry + 1) start.check) system ∧
  (system.timers.active timer = true → system.expiry timer = expiry ∧ start.check ≤ system.check)

lemma Tracked.step {start : TimerSystem count}
    (tracked : Tracked start timer expiry system) (does : Keeps system next timer ∨ Runs system next timer) :
    Tracked start timer expiry next := by
  obtain ⟨⟨active, ran, early⟩ | ⟨inactive, ran, late⟩, waits⟩ := tracked
  · obtain ⟨expires, since⟩ := waits active
    rcases does with keeps | runs
    · have due := keeps.due active
      have check := keeps.check
      refine ⟨.inl ⟨keeps.active.trans active, keeps.ran.trans ran, ?_⟩, fun _ => ⟨keeps.expiry.trans expires, ?_⟩⟩
      all_goals omega
    · -- The timer runs at the first check behind its expiry.
      have now : system.time = max (expiry + 1) start.check := by
        have expired := runs.expired
        have check := runs.check
        omega
      exact ⟨.inr ⟨runs.inactive, by rw [runs.ran, ran, now], by rw [runs.time, now]⟩, by simp [runs.inactive]⟩
  · rcases does with keeps | runs
    · have idle := keeps.active.trans inactive
      exact ⟨.inr ⟨idle, keeps.ran.trans ran, late.trans keeps.time⟩, by simp [idle]⟩
    · exact absurd runs.active (by simp [inactive])

/-- A step that returns, and whose expiry, if any, can be compared. -/
def Allowed (system : TimerSystem count) (op : TimerOp count) (next : TimerSystem count) : Prop :=
  system.step op = some next ∧ system.Fits op

lemma Sound.arms (sound : system.Sound armed) (arms : Allowed system (.start timer expiry) next) :
    (∃ after, next.Sound after) ∧ Tracked next timer expiry next := by
  obtain ⟨started, starts, after, perm, kept⟩ := sound.start arms.2
  have result := arms.1
  rw [TimerSystem.step, starts] at result
  cases result
  have active := (kept.chained.active timer).mpr (perm.mem_iff.mpr mem_cons_self)
  exact ⟨⟨after, kept⟩, .inl ⟨active, rfl, le_max_right ..⟩, fun _ => ⟨update_self .., le_rfl⟩⟩

/--
The timers stay in order, and the earliest one runs first. A timer that is armed and then left alone runs once, at the
first tick behind its expiry, which is the tick of its expiry or the next one after the call if the expiry has passed.
-/
theorem ktimers_run_in_order {time : Int} {earlier : List (TimerOp count × TimerSystem count)}
    (follows : Along Allowed { time } earlier) :
    (final { time } earlier).Orderly ∧
    Along (fun system _ next => ∀ timer, next.ran timer ≠ system.ran timer → ∀ other,
      system.timers.active other = true → system.expiry timer ≤ system.expiry other) { time } earlier ∧
    ∀ timer expiry armed later, Allowed (final { time } earlier) (.start timer expiry) armed →
      Along (fun system op next => Allowed system op next ∧ ¬op.Sets timer) armed later →
        RunsAt armed timer (max (expiry + 1) armed.check) (final armed later) ∧
        (expiry < armed.check → RunsAt armed timer (max expiry armed.check) (final armed later)) := by
  have kept (system : TimerSystem count) (op : TimerOp count) (next : TimerSystem count)
      (sound : ∃ armed, system.Sound armed) (allowed : Allowed system op next) : ∃ armed, next.Sound armed := by
    obtain ⟨armed, sound⟩ := sound
    exact (sound.step allowed.2 allowed.1).1
  obtain ⟨reached, sound⟩ := Transition.final_of_invariant _ kept ⟨[], .init time⟩ follows
  refine ⟨sound.orderly, ?_, fun timer expiry armed later arms follows => ?_⟩
  · refine Transition.along_of_invariant (fun system => ∃ armed, system.Sound armed) ?_ ⟨[], .init time⟩ follows
    intro system op next invariant allowed
    refine ⟨kept _ _ _ invariant allowed, fun timer ran => ?_⟩
    obtain ⟨list, sound⟩ := invariant
    rcases (sound.step allowed.2 allowed.1).2 timer with ⟨-, same⟩ | keeps | runs
    · exact absurd (congrFun same timer) ran
    · exact absurd keeps.ran ran
    · exact runs.earliest
  -- The list is carried along with the timer, since the loop runs a timer only as the first of it.
  · obtain ⟨-, on_time, -⟩ := Transition.final_of_invariant
      (fun system => (∃ list, system.Sound list) ∧ Tracked armed timer expiry system)
      (fun system op next invariant allowed => by
        obtain ⟨⟨list, sound⟩, tracked⟩ := invariant
        obtain ⟨after, does⟩ := sound.step allowed.1.2 allowed.1.1
        exact ⟨after, tracked.step ((does timer).resolve_left fun sets => allowed.2 sets.1)⟩)
      (sound.arms arms) follows
    refine ⟨on_time, fun early => ?_⟩
    have same : max (expiry + 1) armed.check = max expiry armed.check := by omega
    exact same ▸ on_time

/-- A step that returns, or nothing. -/
def exec (system : TimerSystem count) (op : TimerOp count) : TimerSystem count := (system.step op).getD system

/-- One timer, armed at time 1 with expiry 0. -/
def sampleArmed : TimerSystem 1 := [.tick, .run, .start 0 0].foldl exec { time := 0 }

/-- A timer that has expired when it is armed runs in the next tick. -/
theorem ktimer_runs_when_expired :
    RunsAt sampleArmed 0 2 (final sampleArmed (Transition.record exec sampleArmed [.tick, .run, .run])) :=
  ((ktimers_run_in_order (show Along Allowed { time := 0 } (Transition.record exec { time := 0 } [.tick, .run]) from
    ⟨⟨rfl, trivial⟩, ⟨rfl, trivial⟩, trivial⟩)).2.2 0 0 sampleArmed
    (Transition.record exec sampleArmed [.tick, .run, .run]) ⟨rfl, by decide, by decide, by decide⟩
    ⟨⟨⟨rfl, trivial⟩, not_false⟩, ⟨⟨rfl, trivial⟩, not_false⟩, ⟨⟨rfl, trivial⟩, not_false⟩, trivial⟩).2 (by decide)

/-- A timer does not run in the tick of its expiry, and two expiries near the time are put in the wrong order. -/
theorem ktimer_runs_late :
    (let late := ([.start 0 1, .tick, .run] : List (TimerOp 1)).foldl exec { time := 0 };
      late.time = 1 ∧ late.running = false ∧ late.expiry 0 = 1 ∧ late.ran 0 = []) ∧
    (([.start 0 1, .tick, .run, .tick, .run] : List (TimerOp 1)).foldl exec { time := 0 }).ran 0 = [2] ∧
    (let wide := ([.start 0 (2 ^ 62), .start 1 (-2 ^ 62 - 1)] : List (TimerOp 2)).foldl exec { time := 0 };
      wide.timers.ktimerList = some 0 ∧ wide.timers.next 0 = some 1 ∧ wide.expiry 1 < wide.expiry 0) := by
  decide +kernel

end TimerSystem

end Galio
