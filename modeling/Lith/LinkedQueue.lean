import Mathlib.Data.List.Nodup
import Mathlib.Tactic

/-!
# Queues of linked cells

A first-in first-out queue with a head pointer, a tail pointer and a counter,
kept in cells of a heap.  `Represents` says that the three views agree with a
list of nodes and the list of their values; linking a node appends to the list
and unlinking the head removes its first value.
-/

namespace Lith

structure Cell (Addr α : Type*) where
  value : α
  next : Option Addr

abbrev Heap (Addr α : Type*) := Addr → Option (Cell Addr α)

structure LinkedQueue (Addr : Type*) where
  head : Option Addr
  tail : Option Addr
  size : ℤ

/-- The nodes that are reachable from a pointer, up to the null pointer, and
their values. -/
inductive Chain {Addr α : Type*} (heap : Heap Addr α) :
    Option Addr → List Addr → List α → Prop where
  | nil : Chain heap none [] []
  | cons {node : Addr} {cell : Cell Addr α} {nodes : List Addr}
      {values : List α} (hcell : heap node = some cell)
      (hrest : Chain heap cell.next nodes values) :
      Chain heap (some node) (node :: nodes) (cell.value :: values)

section Chains

variable {Addr α : Type*} {heap heap' : Heap Addr α} {start : Option Addr}
  {nodes : List Addr} {values : List α}

theorem Chain.congr (hchain : Chain heap start nodes values)
    (hsame : ∀ node ∈ nodes, heap' node = heap node) :
    Chain heap' start nodes values := by
  induction hchain with
  | nil => exact .nil
  | @cons node cell nodes values hcell hrest ih =>
      have hcell' : heap' node = some cell := by
        rw [hsame node List.mem_cons_self, hcell]
      exact .cons hcell' (ih fun other hother =>
        hsame other (List.mem_cons_of_mem _ hother))

theorem Chain.allocated (hchain : Chain heap start nodes values) {node : Addr}
    (hmem : node ∈ nodes) : heap node ≠ none := by
  induction hchain with
  | nil => simp at hmem
  | cons hcell hrest ih =>
      rcases List.mem_cons.mp hmem with rfl | hmem
      · simp [hcell]
      · exact ih hmem

theorem Chain.exists_cell (hchain : Chain heap start nodes values)
    {node : Addr} (hstart : start = some node) :
    ∃ cell, heap node = some cell := by
  subst hstart
  cases hchain with
  | cons hcell hrest => exact ⟨_, hcell⟩

theorem Chain.start_eq_none_iff (hchain : Chain heap start nodes values) :
    start = none ↔ nodes = [] := by
  cases hchain <;> simp

theorem Chain.length_eq (hchain : Chain heap start nodes values) :
    nodes.length = values.length := by
  induction hchain with
  | nil => rfl
  | cons hcell hrest ih => simp [ih]

variable [DecidableEq Addr]

theorem Chain.append (hchain : Chain heap start nodes values)
    (hnodup : nodes.Nodup) {last node : Addr}
    (hlast : nodes.getLast? = some last) {cell : Cell Addr α}
    (hcell : heap last = some cell) {value : α}
    (hnode : heap node = some ⟨value, none⟩) (hfresh : node ∉ nodes) :
    Chain (Function.update heap last (some { cell with next := some node }))
      start (nodes ++ [node]) (values ++ [value]) := by
  induction hchain with
  | nil => simp at hlast
  | @cons first cell' nodes values hfirst hrest ih =>
      obtain ⟨hnotMem, hnodup⟩ := List.nodup_cons.mp hnodup
      obtain ⟨hne, hfresh⟩ : node ≠ first ∧ node ∉ nodes := by
        simpa using hfresh
      by_cases hnodes : nodes = []
      · subst hnodes
        have hsame : first = last := by simpa using hlast
        subst hsame
        have hcells : cell' = cell := by
          rw [hfirst] at hcell
          exact Option.some.inj hcell
        subst hcells
        have hvalues : values = [] := by
          have hlen := hrest.length_eq
          simpa using hlen.symm
        subst hvalues
        have hfirst' : Function.update heap first
            (some { cell' with next := some node }) first =
              some { cell' with next := some node } := Function.update_self ..
        have hnode' : Function.update heap first
            (some { cell' with next := some node }) node =
              some ⟨value, none⟩ := by
          rw [Function.update_of_ne hne, hnode]
        have htwo := Chain.cons hfirst' (Chain.cons hnode' .nil)
        exact htwo
      · have hlast' : nodes.getLast? = some last := by
          obtain ⟨second, others, rfl⟩ := List.exists_cons_of_ne_nil hnodes
          simpa using hlast
        have hapart : first ≠ last := by
          intro heq
          apply hnotMem
          rw [heq]
          exact List.mem_of_getLast? hlast'
        refine .cons ?_ (ih hnodup hlast' hfresh)
        rw [Function.update_of_ne hapart, hfirst]

end Chains

namespace LinkedQueue

variable {Addr α : Type*}

def empty : LinkedQueue Addr := ⟨none, none, 0⟩

/-- The queue without its first node, whose cell is given. -/
def unlink (queue : LinkedQueue Addr) (cell : Cell Addr α) :
    LinkedQueue Addr where
  head := cell.next
  tail := if cell.next.isNone then none else queue.tail
  size := queue.size - 1

/-- The queue with a node hung behind its last one. -/
def link [DecidableEq Addr] (queue : LinkedQueue Addr) (heap : Heap Addr α)
    (node : Addr) : Heap Addr α × LinkedQueue Addr :=
  match queue.tail with
  | none => (heap, ⟨some node, some node, queue.size + 1⟩)
  | some last =>
      (Function.update heap last
        ((heap last).map fun cell => { cell with next := some node }),
        ⟨queue.head, some node, queue.size + 1⟩)

structure Represents (heap : Heap Addr α) (queue : LinkedQueue Addr)
    (nodes : List Addr) (values : List α) : Prop where
  chain : Chain heap queue.head nodes values
  tail : queue.tail = nodes.getLast?
  size : queue.size = nodes.length
  nodup : nodes.Nodup

variable {heap heap' : Heap Addr α} {queue : LinkedQueue Addr}
  {nodes : List Addr} {values : List α} {node : Addr}

theorem represents_empty (heap : Heap Addr α) :
    Represents heap LinkedQueue.empty [] [] where
  chain := .nil
  tail := rfl
  size := rfl
  nodup := List.nodup_nil

theorem Represents.congr (hrepr : Represents heap queue nodes values)
    (hsame : ∀ node ∈ nodes, heap' node = heap node) :
    Represents heap' queue nodes values :=
  { hrepr with chain := hrepr.chain.congr hsame }

theorem Represents.head_eq_none_iff_tail
    (hrepr : Represents heap queue nodes values) :
    queue.head = none ↔ queue.tail = none := by
  rw [hrepr.chain.start_eq_none_iff, hrepr.tail, List.getLast?_eq_none_iff]

theorem Represents.head_eq_none_iff_values
    (hrepr : Represents heap queue nodes values) :
    queue.head = none ↔ values = [] := by
  rw [hrepr.chain.start_eq_none_iff, ← List.length_eq_zero_iff,
    hrepr.chain.length_eq, List.length_eq_zero_iff]

theorem Represents.unlink (hrepr : Represents heap queue nodes values)
    (hhead : queue.head = some node) {cell : Cell Addr α}
    (hcell : heap node = some cell) :
    ∃ rest others, nodes = node :: rest ∧ values = cell.value :: others ∧
      Represents heap (queue.unlink cell) rest others := by
  have hchain := hrepr.chain
  rw [hhead] at hchain
  cases hchain with
  | @cons _ cell' rest others hcell' hrest =>
      have hsame : cell' = cell := by
        rw [hcell] at hcell'
        exact (Option.some.inj hcell').symm
      subst hsame
      refine ⟨rest, others, rfl, rfl, hrest, ?_, ?_, ?_⟩
      · unfold LinkedQueue.unlink
        have hnone := hrest.start_eq_none_iff
        cases hnext : cell'.next with
        | none => simp [hnone.mp hnext]
        | some second =>
            have hne : rest ≠ [] := by
              intro hempty
              rw [hnone.mpr hempty] at hnext
              simp at hnext
            obtain ⟨third, more, rfl⟩ := List.exists_cons_of_ne_nil hne
            simpa using hrepr.tail
      · have hsize := hrepr.size
        simp only [LinkedQueue.unlink, List.length_cons] at hsize ⊢
        omega
      · exact (List.nodup_cons.mp hrepr.nodup).2

theorem Represents.link [DecidableEq Addr]
    (hrepr : Represents heap queue nodes values) {value : α}
    (hnode : heap node = some ⟨value, none⟩) (hfresh : node ∉ nodes) :
    Represents (queue.link heap node).1 (queue.link heap node).2
      (nodes ++ [node]) (values ++ [value]) := by
  have hsize := hrepr.size
  have hnodup : (nodes ++ [node]).Nodup := by
    rw [List.nodup_append]
    refine ⟨hrepr.nodup, by simp, ?_⟩
    intro first hfirst second hsecond heq
    rw [List.mem_singleton] at hsecond
    exact hfresh (hsecond ▸ heq ▸ hfirst)
  unfold LinkedQueue.link
  cases htail : queue.tail with
  | none =>
      have hempty : nodes = [] := by
        rw [hrepr.tail, List.getLast?_eq_none_iff] at htail
        exact htail
      subst hempty
      have hvalues : values = [] := by
        have hlen := hrepr.chain.length_eq
        simpa using hlen.symm
      subst hvalues
      refine ⟨.cons hnode .nil, rfl, ?_, hnodup⟩
      simp only [List.length_nil, List.nil_append, List.length_singleton] at hsize ⊢
      omega
  | some last =>
      have hlast : nodes.getLast? = some last := by
        rw [← hrepr.tail, htail]
      obtain ⟨cell, hcell⟩ := Option.ne_none_iff_exists'.mp
        (hrepr.chain.allocated (List.mem_of_getLast? hlast))
      simp only [hcell, Option.map_some]
      refine ⟨?_, ?_, ?_, hnodup⟩
      · exact hrepr.chain.append hrepr.nodup hlast hcell hnode hfresh
      · simp
      · simp only [List.length_append, List.length_singleton]
        omega

theorem link_heap_of_ne [DecidableEq Addr]
    (hrepr : Represents heap queue nodes values) (node : Addr) {other : Addr}
    (hother : other ∉ nodes) : (queue.link heap node).1 other = heap other := by
  unfold LinkedQueue.link
  cases htail : queue.tail with
  | none => rfl
  | some last =>
      have hlast : nodes.getLast? = some last := by
        rw [← hrepr.tail, htail]
      have hne : other ≠ last := by
        intro heq
        exact hother (heq ▸ List.mem_of_getLast? hlast)
      simp only [Function.update_of_ne hne]

end LinkedQueue

end Lith
