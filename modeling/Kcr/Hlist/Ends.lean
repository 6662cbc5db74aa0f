import Kcr.Hlist.Region

/-!
# Chains that end

A removal joins the chain that led to the node with the one behind it, which makes a
cycle when the link it writes lies behind the node. An insertion makes one when the
node is already on the chain it is put in front of. Otherwise every chain that ended
still ends.
-/

namespace Kcr.Hlist.Heap

variable {H N : Type} {heap heap' : Heap H N}

/-- The chain from the link ends. -/
def Ends (heap : Heap H N) (l : Link H N) : Prop := ∃ ns, heap.Chain l ns

/-- A chain whose links hold the same pointers in another heap is a chain there. -/
theorem Chain.congr {l : Link H N} {ns : List N} (chain : heap.Chain l ns)
    (same : ∀ m, heap.Leads l m → heap'.read m = heap.read m) : heap'.Chain l ns := by
  induction chain with
  | @nil l ends => exact .nil ((same l (.refl l)).trans ends)
  | @cons l n ns designates _ ih =>
      refine .cons ((same l (.refl l)).trans designates) (ih fun m path => same m ?_)
      exact Leads.trans ((Leads.refl l).snoc designates) path

namespace Ends

theorem of_none {l : Link H N} (null : heap.read l = none) : heap.Ends l := ⟨[], .nil null⟩

theorem of_next {l : Link H N} {n : N} (designates : heap.read l = some n)
    (rest : heap.Ends (.next n)) : heap.Ends l := by
  obtain ⟨ns, chain⟩ := rest
  exact ⟨n :: ns, .cons designates chain⟩

theorem of_read {l m : Link H N} (same : heap.read m = heap.read l) (ends : heap.Ends l) :
    heap.Ends m := by
  obtain ⟨ns, chain⟩ := ends
  exact ⟨ns, chain.of_read same⟩

theorem leads {l m : Link H N} (ends : heap.Ends l) (path : heap.Leads l m) : heap.Ends m := by
  obtain ⟨ns, chain⟩ := ends
  obtain ⟨rest, after, _⟩ := chain.leads path
  exact ⟨rest, after⟩

theorem congr {l : Link H N} (ends : heap.Ends l)
    (same : ∀ m, heap.Leads l m → heap'.read m = heap.read m) : heap'.Ends l := by
  obtain ⟨ns, chain⟩ := ends
  exact ⟨ns, chain.congr same⟩

/-- No node follows itself on a chain that ends. -/
theorem not_onChain_next {n : N} (ends : heap.Ends (.next n)) : ¬ heap.OnChain (.next n) n := by
  obtain ⟨ns, chain⟩ := ends
  exact fun visited => chain.not_mem_rest (chain.mem_iff.mpr visited)

/-- Every search of a chain that ends returns. -/
theorem finds {l : Link H N} (ends : heap.Ends l) (accepts : N → Bool) :
    ∃ result, heap.Finds accepts l result := by
  obtain ⟨ns, chain⟩ := ends
  exact ⟨_, chain.finds accepts⟩

variable [DecidableEq H] [DecidableEq N] {n : N}

/-- Removal through a link that does not lie behind the node. -/
theorem unlinked {l m : Link H N} (ends : heap.Ends m) (gone : Unlinked heap n l heap')
    (behind : heap.Ends (.next n)) (outside : ∀ k, heap.OnChain (.next n) k → l ≠ .next k) :
    heap'.Ends m := by
  have unchanged : ∀ k, heap.Leads (.next n) k → heap'.read k = heap.read k := by
    intro k path
    by_cases atLink : k = l
    · rcases Relation.ReflTransGen.cases_tail path with same | ⟨j, before, i, designates, same⟩
      · rw [← atLink, same] at gone
        rw [same]
        exact gone.next_self
      · exact absurd (atLink ▸ same) (outside i ⟨j, before, designates⟩)
    · exact gone.read_other atLink
  have behind' : heap'.Ends (.next n) := behind.congr unchanged
  obtain ⟨ns, chain⟩ := ends
  induction chain with
  | @nil m null =>
      by_cases atLink : m = l
      · exact behind'.of_read (atLink ▸ gone.read_named.trans gone.next_self.symm)
      · exact .of_none ((gone.read_other atLink).trans null)
  | @cons m k ns designates _ ih =>
      by_cases atLink : m = l
      · exact behind'.of_read (atLink ▸ gone.read_named.trans gone.next_self.symm)
      · exact .of_next ((gone.read_other atLink).trans designates) ih

/-- Insertion of a node that is not on the chain. -/
theorem pushed {h : H} {m : Link H N} (ends : heap.Ends m) (added : Pushed heap n h heap')
    (front : heap.Ends (.head h)) (absent : ¬ heap.OnChain (.head h) n) : heap'.Ends m := by
  have rest : heap'.Ends (.next n) := by
    cases first : heap.first h with
    | none => exact .of_none (added.read_next.trans first)
    | some k =>
        refine .of_next (added.read_next.trans first) ?_
        have designates : heap.read (.head h) = some k := first
        have path : heap.Leads (.head h) (.next k) := (Leads.refl _).snoc designates
        refine (front.leads path).congr fun j after => added.read_other ?_ ?_
        · rintro rfl
          have reached : .head h ∈ heap.Reached {.next k} := ⟨_, rfl, after⟩
          cases head_mem_of_reached reached
        · rintro rfl
          rcases Relation.ReflTransGen.cases_tail after with same | ⟨i, before, _, leads, same⟩
          · obtain rfl := Link.next.inj same
            exact absent (.of_read designates)
          · obtain rfl := Link.next.inj same
            exact absent ⟨i, path.trans before, leads⟩
  have atHead : heap'.Ends (.head h) := .of_next added.read_head rest
  obtain ⟨ns, chain⟩ := ends
  induction chain with
  | @nil m null =>
      by_cases isHead : m = .head h
      · exact isHead ▸ atHead
      · by_cases isNext : m = .next n
        · exact isNext ▸ rest
        · exact .of_none ((added.read_other isHead isNext).trans null)
  | @cons m k ns designates _ ih =>
      by_cases isHead : m = .head h
      · exact isHead ▸ atHead
      · by_cases isNext : m = .next n
        · exact isNext ▸ rest
        · exact .of_next ((added.read_other isHead isNext).trans designates) ih

end Ends

end Kcr.Hlist.Heap
