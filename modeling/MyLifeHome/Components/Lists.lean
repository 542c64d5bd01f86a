import MyLifeHome.Library.Chains
import MyLifeHome.Library.Runs
import Mathlib.Logic.Function.Basic

/-!
# Intrusive lists

`list.c` threads its lists through the first words of the nodes, which the callers own. A list is
its two ends; the rest is in the memory.
-/
namespace MyLifeHome.Components.Lists

open Runs

/-- The address of a node; `NULL` is `none`. -/
abbrev Pointer := Nat

structure ListNode where
  next : Option Pointer
  prev : Option Pointer
  deriving DecidableEq

/-- `struct list` -/
structure LinkedList where
  head : Option Pointer
  tail : Option Pointer
  deriving DecidableEq

abbrev Memory := Pointer → ListNode

structure State where
  list : LinkedList
  memory : Memory

namespace State

def setNext (s : State) (node : Pointer) (next : Option Pointer) : State :=
  { s with memory := Function.update s.memory node { s.memory node with next } }

def setPrev (s : State) (node : Pointer) (prev : Option Pointer) : State :=
  { s with memory := Function.update s.memory node { s.memory node with prev } }

variable {s : State} {node other : Pointer} {p : Option Pointer}

@[simp] theorem setNext_list : (s.setNext node p).list = s.list := rfl
@[simp] theorem setPrev_list : (s.setPrev node p).list = s.list := rfl

@[simp] theorem setNext_next :
    ((s.setNext node p).memory other).next = if other = node then p else (s.memory other).next := by
  by_cases h : other = node <;> simp [setNext, h]

@[simp] theorem setNext_prev : ((s.setNext node p).memory other).prev = (s.memory other).prev := by
  by_cases h : other = node <;> simp [setNext, h]

@[simp] theorem setPrev_prev :
    ((s.setPrev node p).memory other).prev = if other = node then p else (s.memory other).prev := by
  by_cases h : other = node <;> simp [setPrev, h]

@[simp] theorem setPrev_next : ((s.setPrev node p).memory other).next = (s.memory other).next := by
  by_cases h : other = node <;> simp [setPrev, h]

end State

def list_init (s : State) : State := { s with list := ⟨none, none⟩ }

def list_add (s : State) (node : Pointer) : State :=
  let s := (s.setNext node none).setPrev node none
  match s.list.tail with
  | none => { s with list := ⟨some node, some node⟩ }
  | some tail =>
    let s := (s.setNext tail (some node)).setPrev node (some tail)
    { s with list := { s.list with tail := some node } }

def list_remove (s : State) (node : Pointer) : State :=
  let s := match (s.memory node).prev with
    | some prev => s.setNext prev (s.memory node).next
    | none => { s with list := { s.list with head := (s.memory node).next } }
  let s := match (s.memory node).next with
    | some next => s.setPrev next (s.memory node).prev
    | none => { s with list := { s.list with tail := (s.memory node).prev } }
  (s.setPrev node none).setNext node none

/-- The callback may write to the memory, and goes on or not. The loop has `n` rounds at most. -/
def list_foreach {σ : Type} (list : LinkedList)
    (callback : Memory × σ → Pointer → (Memory × σ) × Bool) (n : Nat) (s : Memory × σ) :
    Option (Memory × σ) :=
  Chains.loop (fun s node => (s.1 node).next) callback n list.head s

def list_clear (free_node : Pointer → Memory → Memory) : Nat → State → Option State
  | n, s =>
    match s.list.head with
    | none => some s
    | some node =>
      match n with
      | 0 => none
      | n + 1 =>
        let s := list_remove s node
        list_clear free_node n { s with memory := free_node node s.memory }

def list_is_empty (s : State) : Int :=
  match s.list.head with
  | some _ => 0
  | none => 1

def list_count (n : Nat) (s : State) : Option Nat :=
  Chains.loop (fun _ node => (s.memory node).next) (fun count _ => (count + 1, true)) n
    s.list.head 0

inductive Op where
  | init
  | add (node : Pointer)
  | remove (node : Pointer)
  | clear (free_node : Pointer → Memory → Memory)

def Op.perform (n : Nat) (s : State) : Op → Option State
  | .init => some (list_init s)
  | .add node => some (list_add s node)
  | .remove node => some (list_remove s node)
  | .clear free_node => list_clear free_node n s

def run (n : Nat) (ops : List Op) (s : State) : Option State := ops.foldlM (Op.perform n) s

/-! ## The sequence -/

/-- What an operation makes of the sequence. A node is in the list once, and what is done to one
that leaves a list is not done to those that are still in it. -/
inductive Op.Applies : List Pointer → Op → List Pointer → Prop where
  | init {xs : List Pointer} : Applies xs .init []
  | add {xs : List Pointer} {node : Pointer} (h : node ∉ xs) : Applies xs (.add node) (xs ++ [node])
  | remove {xs : List Pointer} {node : Pointer} (h : node ∈ xs) :
      Applies xs (.remove node) (xs.erase node)
  | clear {xs : List Pointer} {free_node : Pointer → Memory → Memory}
      (h : ∀ node ∈ xs, ∀ other ∈ xs, other ≠ node →
        ∀ memory, free_node node memory other = memory other) :
      Applies xs (.clear free_node) []

/-- The list is the sequence of nodes. -/
def State.Represents (s : State) (xs : List Pointer) : Prop :=
  Chains.Linked s.list.head s.list.tail (fun node => (s.memory node).next)
    (fun node => (s.memory node).prev) xs

variable {s s' : State} {xs ys : List Pointer} {node : Pointer} {op : Op} {ops : List Op} {n : Nat}

theorem represents_init (s : State) : (list_init s).Represents [] := Chains.Linked.empty

theorem State.Represents.add (h : s.Represents xs) (hnode : node ∉ xs) :
    (list_add s node).Represents (xs ++ [node]) := by
  have hlist : (list_add s node).list = ⟨s.list.head.or (some node), some node⟩ := by
    cases xs with
    | nil => simp [list_add, h.head, h.tail]
    | cons x xs =>
      obtain ⟨tail, htail⟩ := Option.ne_none_iff_exists'.mp (h.tail_eq_none_iff.not.mpr (by simp))
      simp [list_add, h.head, htail]
  have htail : ∀ tail, s.list.tail = some tail → tail ≠ node := by
    rintro tail htail rfl
    apply hnode
    rw [h.tail] at htail
    exact List.mem_of_getLast? htail
  unfold Represents
  rw [hlist]
  apply Chains.Linked.snoc h hnode
  · intro other
    cases ht : s.list.tail with
    | none => simp [list_add, ht]
    | some tail =>
      have hne := htail tail ht
      simp [list_add, ht, eq_comm]
  · intro other
    cases ht : s.list.tail with
    | none => simp [list_add, ht]
    | some tail => simp [list_add, ht]; grind

theorem State.Represents.remove (h : s.Represents xs) (hnode : node ∈ xs) :
    (list_remove s node).Represents (xs.erase node) := by
  have hlist : (list_remove s node).list =
      ⟨if (s.memory node).prev = none then (s.memory node).next else s.list.head,
        if (s.memory node).next = none then (s.memory node).prev else s.list.tail⟩ := by
    cases hp : (s.memory node).prev <;> cases hn : (s.memory node).next <;>
      simp [list_remove, hp, hn]
  unfold Represents
  rw [hlist]
  apply Chains.Linked.erase h hnode
  · intro other hne
    cases hp : (s.memory node).prev <;> cases hn : (s.memory node).next <;>
      simp [list_remove, hp, hn, hne, eq_comm]
  · intro other hne
    cases hp : (s.memory node).prev <;> cases hn : (s.memory node).next <;>
      simp [list_remove, hp, hn, hne, eq_comm]

/-- Writing to other nodes does not matter. -/
theorem State.Represents.congr (h : s.Represents xs) {memory : Memory}
    (hsame : ∀ node ∈ xs, memory node = s.memory node) :
    State.Represents { s with memory := memory } xs := by
  refine ⟨h.nodup, h.head, h.tail, ?_⟩
  rintro ps node qs rfl
  have hcell := h.cells ps node qs rfl
  dsimp only
  rwa [hsame node (by simp)]

/-- The loop takes the first node out until there is none. -/
theorem State.Represents.clear {free_node : Pointer → Memory → Memory} (h : s.Represents xs)
    (hfree : ∀ node ∈ xs, ∀ other ∈ xs, other ≠ node →
      ∀ memory, free_node node memory other = memory other) (hn : xs.length ≤ n) :
    ∃ s', list_clear free_node n s = some s' ∧ s'.Represents [] := by
  induction xs generalizing s n with
  | nil =>
    have hhead := h.head
    refine ⟨s, ?_, h⟩
    unfold list_clear
    rw [hhead]
    rfl
  | cons node xs ih =>
    obtain ⟨m, rfl⟩ : ∃ m, n = m + 1 := ⟨n - 1, by grind⟩
    have hhead := h.head
    have hrest := h.remove List.mem_cons_self
    rw [List.erase_cons_head] at hrest
    have hnodup := List.nodup_cons.mp h.nodup
    unfold list_clear
    rw [hhead]
    apply ih
    · apply hrest.congr
      intro other hother
      apply hfree node List.mem_cons_self other (List.mem_cons_of_mem node hother)
      grind
    · exact fun a ha b hb => hfree a (List.mem_cons_of_mem node ha) b (List.mem_cons_of_mem node hb)
    · grind

/-- What an operation makes of the list. -/
theorem State.Represents.perform (h : s.Represents xs) (hop : op.Applies xs ys)
    (hn : xs.length ≤ n) : ∃ s', op.perform n s = some s' ∧ s'.Represents ys := by
  cases hop with
  | init => exact ⟨_, rfl, represents_init s⟩
  | add hnode => exact ⟨_, rfl, h.add hnode⟩
  | remove hnode => exact ⟨_, rfl, h.remove hnode⟩
  | clear hfree => exact h.clear hfree hn

theorem Op.Applies.length_le (h : Op.Applies xs op ys) : ys.length ≤ xs.length + 1 := by
  cases h <;> grind

theorem length_le_of_steps (h : Steps Op.Applies xs ops ys) : ys.length ≤ xs.length + ops.length := by
  induction h with
  | nil xs => exact Nat.le_refl _
  | cons hop _ ih =>
    have hlength := hop.length_le
    rw [List.length_cons]
    omega

/-- What a run makes of it. -/
theorem State.Represents.run (h : s.Represents xs) (hops : Steps Op.Applies xs ops ys)
    (hn : xs.length + ops.length ≤ n) : ∃ s', run n ops s = some s' ∧ s'.Represents ys := by
  induction hops generalizing s with
  | nil xs => exact ⟨s, rfl, h⟩
  | cons hop _ ih =>
    rw [List.length_cons] at hn
    have hlength := hop.length_le
    obtain ⟨s₁, h₁, hs₁⟩ := h.perform (n := n) hop (by omega)
    obtain ⟨s', h', hs'⟩ := ih hs₁ (by omega)
    refine ⟨s', ?_, hs'⟩
    rw [Lists.run, List.foldlM_cons, h₁]
    exact h'

/-! ## Reading -/

theorem State.Represents.list_is_empty_eq (h : s.Represents xs) :
    list_is_empty s = if xs = [] then 1 else 0 := by
  unfold list_is_empty
  rw [h.head]
  cases xs <;> rfl

theorem each_count (xs : List Pointer) (count : Nat) :
    Chains.each (fun count _ => (count + 1, true)) xs count = count + xs.length := by
  induction xs generalizing count with
  | nil => rfl
  | cons x xs ih =>
    rw [List.length_cons]
    have hrest := ih (count + 1)
    exact hrest.trans (by omega)

theorem State.Represents.list_count_eq (h : s.Represents xs) (hn : xs.length ≤ n) :
    list_count n s = some xs.length := by
  have hcount := each_count xs 0
  rw [Nat.zero_add] at hcount
  rw [list_count, ← hcount]
  exact Chains.loop_eq_each h.leads (fun _ _ _ _ _ => rfl) hn

/-- The callback leaves the nodes of the list as they are. -/
def NonModifying {σ : Type} (xs : List Pointer)
    (callback : Memory × σ → Pointer → (Memory × σ) × Bool) : Prop :=
  ∀ s, ∀ node ∈ xs, ∀ other ∈ xs, (callback s node).1.1 other = s.1 other

theorem State.Represents.list_foreach_eq {σ : Type} (h : s.Represents xs)
    {callback : Memory × σ → Pointer → (Memory × σ) × Bool} (hcallback : NonModifying xs callback)
    (hn : xs.length ≤ n) (ctx : σ) :
    list_foreach s.list callback n (s.memory, ctx) =
      some (Chains.each callback xs (s.memory, ctx)) := by
  apply Chains.loop_eq_each h.leads _ hn
  intro s a ha b hb
  rw [hcallback s a ha b hb]

/-- After any operations the list is the sequence, for whoever follows the pointers, and for the
functions that read it. -/
theorem run_represents (s : State) (hops : Steps Op.Applies [] ops xs) (hn : ops.length ≤ n) :
    ∃ s', run n (.init :: ops) s = some s' ∧
      Chains.Leads (fun node => (s'.memory node).next) s'.list.head xs ∧
      Chains.Leads (fun node => (s'.memory node).prev) s'.list.tail xs.reverse ∧
      (s'.list.head = none ↔ xs = []) ∧ (s'.list.tail = none ↔ xs = []) ∧
      list_count n s' = some xs.length ∧ list_is_empty s' = (if xs = [] then 1 else 0) ∧
      ∀ (σ : Type) (callback : Memory × σ → Pointer → (Memory × σ) × Bool) (ctx : σ),
        NonModifying xs callback → list_foreach s'.list callback n (s'.memory, ctx) =
          some (Chains.each callback xs (s'.memory, ctx)) := by
  obtain ⟨s', hrun, h⟩ := (represents_init s).run hops (by simpa using hn)
  have hlength : xs.length ≤ n := by
    have hle := length_le_of_steps hops
    rw [List.length_nil, Nat.zero_add] at hle
    exact Nat.le_trans hle hn
  exact ⟨s', hrun, h.leads, h.leads_reverse, h.head_eq_none_iff, h.tail_eq_none_iff,
    h.list_count_eq hlength, h.list_is_empty_eq,
    fun σ callback ctx hcallback => h.list_foreach_eq hcallback hlength ctx⟩

/-- Two nodes, of which the first is taken out. -/
theorem run_represents_second : ∃ s', run 3 [.init, .add 4, .add 8, .remove 4] ⟨⟨none, none⟩,
      fun _ => ⟨none, none⟩⟩ = some s' ∧
    list_count 3 s' = some 1 ∧ s'.list.head = some 8 := by
  have hops : Steps Op.Applies [] [.add 4, .add 8, .remove 4] [8] :=
    .cons (.add (by decide)) (.cons (.add (by decide)) (.cons (.remove (by decide)) (.nil _)))
  obtain ⟨s', hrun, hnext, _, _, _, hcount, _⟩ := run_represents ⟨⟨none, none⟩, fun _ => ⟨none, none⟩⟩
    (n := 3) hops (by decide)
  refine ⟨s', hrun, hcount, ?_⟩
  generalize s'.list.head = head at hnext
  cases hnext
  rfl

end MyLifeHome.Components.Lists
