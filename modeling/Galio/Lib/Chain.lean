import Mathlib.Data.List.Nodup
import Mathlib.Logic.Function.Basic

/-! Singly linked lists whose links are a table from each node to the next. -/

namespace Chain

open Function List

variable {Node : Type}

/-- The nodes met from a head along the links, in order, up to the end. -/
def Linked (next : Node → Option Node) : Option Node → List Node → Prop
  | head, [] => head = none
  | head, node :: rest => head = some node ∧ Linked next (next node) rest

variable {next other : Node → Option Node} {head : Option Node} {nodes : List Node}

lemma Linked.congr (linked : Linked next head nodes) (same : ∀ node ∈ nodes, other node = next node) :
    Linked other head nodes := by
  induction nodes generalizing head with
  | nil => exact linked
  | cons node rest ih =>
    refine ⟨linked.1, ?_⟩
    rw [same node mem_cons_self]
    exact ih linked.2 fun later mem => same later (mem_cons_of_mem _ mem)

variable {first node : Node} {fuel : Nat} {rest : List Node}

lemma Linked.push (linked : Linked next head nodes) (link : next node = head) :
    Linked next (some node) (node :: nodes) := ⟨rfl, link ▸ linked⟩

lemma Linked.next_mem (linked : Linked next head nodes) {later : Node} (mem : node ∈ nodes)
    (link : next node = some later) : later ∈ nodes := by
  induction nodes generalizing head with
  | nil => simp at mem
  | cons first rest ih =>
    rcases mem_cons.mp mem with rfl | inside
    · cases rest with
      | nil => exact absurd (linked.2.symm.trans link) (by simp)
      | cons second rest =>
        cases linked.2.1.symm.trans link
        exact mem_cons_of_mem _ mem_cons_self
    · exact mem_cons_of_mem _ (ih linked.2 inside)

lemma Linked.head_mem (linked : Linked next (some node) nodes) : node ∈ nodes := by
  cases nodes with
  | nil => exact absurd linked (by simp [Linked])
  | cons first rest =>
    obtain rfl := Option.some.inj linked.1
    exact mem_cons_self

section Unlink

variable [DecidableEq Node]

lemma Linked.unlink (linked : Linked next head nodes) (distinct : nodes.Nodup) {before : Node}
    (mem : before ∈ nodes) (link : next before = some node) :
    Linked (update next before (next node)) head (nodes.erase node) := by
  induction nodes generalizing head with
  | nil => simp at mem
  | cons first rest ih =>
    obtain ⟨here, tail⟩ := linked
    obtain ⟨fresh, others⟩ := nodup_cons.mp distinct
    by_cases start : before = first
    · -- The node to take out is the second one.
      subst start
      rw [link] at tail
      cases rest with
      | nil => exact absurd tail (by simp [Linked])
      | cons second rest =>
        obtain ⟨same, after⟩ := tail
        cases same
        have different : before ≠ node := fun equal => fresh (equal ▸ mem_cons_self)
        rw [erase_cons_tail (by simpa using different), erase_cons_head]
        refine ⟨here, ?_⟩
        rw [update_self]
        refine after.congr fun later inside => update_of_ne ?_ ..
        rintro rfl
        exact fresh (mem_cons_of_mem _ inside)
    · have inside : before ∈ rest := (mem_cons.mp mem).resolve_left start
      have later : node ∈ rest := tail.next_mem inside link
      have different : first ≠ node := fun equal => fresh (equal ▸ later)
      rw [erase_cons_tail (by simpa using different)]
      refine ⟨here, ?_⟩
      rw [update_of_ne (Ne.symm start)]
      exact ih tail others inside

/-- The node before another one, found by a walk with a bound on its steps. -/
def before (next : Node → Option Node) (node : Node) : Nat → Node → Option (Option Node)
  | 0, _ => none
  | fuel + 1, here =>
    match next here with
    | none => some none
    | some later => if later = node then some (some here) else before next node fuel later

lemma Linked.before_eq (linked : Linked next (some first) (first :: rest)) (later : node ∈ rest)
    (enough : rest.length ≤ fuel) :
    ∃ previous ∈ first :: rest, next previous = some node ∧ before next node fuel first = some (some previous) := by
  induction rest generalizing first fuel with
  | nil => simp at later
  | cons second rest ih =>
    obtain ⟨_, link, tail⟩ := linked
    cases fuel with
    | zero => simp at enough
    | succ fuel =>
      rw [before, link]
      dsimp only
      by_cases found : second = node
      · exact ⟨first, mem_cons_self, by rw [link, found], by rw [if_pos found]⟩
      rw [if_neg found]
      have inside : node ∈ rest := (mem_cons.mp later).resolve_left (Ne.symm found)
      obtain ⟨previous, mem, link, walked⟩ := ih ⟨rfl, tail⟩ inside (Nat.le_of_succ_le_succ enough)
      exact ⟨previous, mem_cons_of_mem _ mem, link, walked⟩

/-- The last of the nodes that pass a test, from a node on, with a bound on the steps. -/
def seek (next : Node → Option Node) (passes : Node → Bool) : Nat → Node → Option Node
  | 0, _ => none
  | fuel + 1, here =>
    match next here with
    | none => some here
    | some later => if passes later then seek next passes fuel later else some here

/-- A new node is linked behind the one that the walk finds. -/
theorem Linked.insert {new : Node} (passes : Node → Bool)
    (linked : Linked next (some first) (first :: rest)) (distinct : (first :: rest).Nodup)
    (fresh : new ∉ first :: rest) (enough : rest.length < fuel) :
    ∃ node ∈ first :: rest, seek next passes fuel first = some node ∧
      Linked (update (update next new (next node)) node (some new)) (some first)
        (first :: (rest.takeWhile passes ++ new :: rest.dropWhile passes)) := by
  induction rest generalizing first fuel with
  | nil =>
    obtain ⟨fuel, rfl⟩ := Nat.exists_eq_add_one_of_ne_zero (Nat.ne_of_gt enough)
    have other : new ≠ first := fun equal => fresh (equal ▸ mem_cons_self)
    have last : next first = none := linked.2
    refine ⟨first, mem_cons_self, by simp [seek, last], ?_⟩
    simp [Linked, last, other]
  | cons second rest ih =>
    obtain ⟨fuel, rfl⟩ := Nat.exists_eq_add_one_of_ne_zero (Nat.ne_of_gt (Nat.zero_lt_of_lt enough))
    obtain ⟨-, link, tail⟩ := linked
    obtain ⟨apart, others⟩ := nodup_cons.mp distinct
    obtain ⟨other, unseen⟩ := ne_and_not_mem_of_not_mem_cons fresh
    rw [seek, link]
    dsimp only
    cases passed : passes second with
    | true =>
      obtain ⟨node, mem, found, inserted⟩ := ih ⟨rfl, tail⟩ others unseen (Nat.lt_of_succ_lt_succ enough)
      have different : first ≠ node := fun equal => apart (equal ▸ mem)
      refine ⟨node, mem_cons_of_mem _ mem, by simpa using found, rfl, ?_⟩
      rw [update_of_ne different, update_of_ne (other.symm), link]
      simpa [passed] using inserted
    | false =>
      refine ⟨first, mem_cons_self, by simp, rfl, ?_⟩
      rw [update_self, takeWhile_cons_of_neg (by simp [passed]),
        dropWhile_cons_of_neg (by simp [passed])]
      refine ⟨rfl, ?_⟩
      rw [update_of_ne other, update_self, link]
      refine Linked.congr ⟨rfl, tail⟩ fun node mem => ?_
      rw [update_of_ne (by rintro rfl; exact apart mem), update_of_ne (by rintro rfl; exact unseen mem)]

end Unlink

end Chain
