import Kcr.Hlist.Colour
import Kcr.Hlist.Ends
import Kcr.Hlist.Front

/-!
# Nodes whose memory is given back

Giving back a node's memory clears its two fields. The rest of the heap does not notice
when nothing refers to the node any more: no link leads to it, and no `pprev` names its
`next`. Chains then stay as they are; without that they may be cut short, and a walk that
ended still ends.
-/

namespace Kcr.Hlist.Heap

variable {H N : Type} {heap : Heap H N} {n : N}

/-- Nothing refers to the node but its own fields. -/
structure Loose (heap : Heap H N) (n : N) : Prop where
  unread : ∀ l, l ≠ .next n → heap.read l ≠ some n
  unnamed : ∀ m, m ≠ n → heap.pprev m ≠ .link (.next n)

/-- Walks do not come to the `next` of a loose node. -/
theorem Loose.closed (loose : heap.Loose n) : heap.Closed {l | l ≠ .next n} := by
  rintro l start k designates behind
  obtain rfl := Link.next.inj behind
  exact loose.unread l start designates

/-- A loose node is on no chain. -/
theorem Loose.not_onChain (loose : heap.Loose n) {l : Link H N} (start : l ≠ .next n) :
    ¬ heap.OnChain l n := by
  rintro ⟨m, path, designates⟩
  exact loose.unread m (loose.closed.leads start path) designates

section Clear

variable [DecidableEq H] [DecidableEq N]

/-- Zero both fields of a node. -/
def clear (heap : Heap H N) (n : N) : Heap H N := (heap.write (.next n) none).setPprev n .null

@[simp] theorem read_clear (l : Link H N) :
    (heap.clear n).read l = if l = .next n then none else heap.read l := by
  simp [clear]

@[simp] theorem pprev_clear (m : N) :
    (heap.clear n).pprev m = if m = n then .null else heap.pprev m := by
  simp [clear]

/-- A link that leads somewhere after the node is cleared led there before. -/
theorem read_of_clear {l : Link H N} {k : N} (designates : (heap.clear n).read l = some k) :
    l ≠ .next n ∧ heap.read l = some k := by
  rw [read_clear] at designates
  split at designates
  · cases designates
  · next other => exact ⟨other, designates⟩

/-- So did a `pprev`. -/
theorem pprev_of_clear {m : N} {l : Link H N} (named : (heap.clear n).pprev m = .link l) :
    m ≠ n ∧ heap.pprev m = .link l := by
  rw [pprev_clear] at named
  split at named
  · cases named
  · next other => exact ⟨other, named⟩

/-! ## What clearing keeps -/

theorem Confined.clear {live : Set N} (confined : heap.Confined live) (loose : heap.Loose n) :
    (heap.clear n).Confined {m | m ∈ live ∧ m ≠ n} where
  read {l k} designates := by
    obtain ⟨other, before⟩ := read_of_clear designates
    refine ⟨confined.read before, ?_⟩
    rintro rfl
    exact loose.unread l other before
  named {m k} named := by
    obtain ⟨other, before⟩ := pprev_of_clear named
    refine ⟨confined.named before, ?_⟩
    rintro rfl
    exact loose.unnamed m other before
  zeroed {k} outside := by
    by_cases same : k = n
    · subst same
      refine ⟨?_, by rw [pprev_clear, if_pos rfl]⟩
      rw [← read_next, read_clear, if_pos rfl]
    · obtain ⟨next, pprev⟩ := confined.zeroed fun inside => outside ⟨inside, same⟩
      refine ⟨?_, by rw [pprev_clear, if_neg same, pprev]⟩
      rw [← read_next, read_clear, if_neg fun own => same (Link.next.inj own), read_next, next]
  linked {l k} designates := by
    obtain ⟨other, before⟩ := read_of_clear designates
    have distinct : k ≠ n := by
      rintro rfl
      exact loose.unread l other before
    rw [pprev_clear, if_neg distinct]
    exact confined.linked before

theorem Coloured.clear {C : Type} {head : H → C} {node : N → C}
    (coloured : heap.Coloured head node) : (heap.clear n).Coloured head node where
  read designates := coloured.read (read_of_clear designates).2
  named named := coloured.named (pprev_of_clear named).2

theorem Fronted.clear (fronted : heap.Fronted) : (heap.clear n).Fronted := by
  intro m h named
  have first := fronted (pprev_of_clear named).2
  rwa [← read_head, read_clear, if_neg nofun]

theorem Closed.clear {region : Set (Link H N)} (closed : heap.Closed region) :
    (heap.clear n).Closed region :=
  fun _ member _ designates => closed member (read_of_clear designates).2

theorem targets_clear {region : Set (Link H N)} :
    (heap.clear n).Targets region ⊆ heap.Targets region := by
  rintro k ⟨l, member, designates⟩
  exact ⟨l, member, (read_of_clear designates).2⟩

/-- A chain that ended still ends, at the cleared node if it led there. -/
theorem Ends.clear {l : Link H N} (ends : heap.Ends l) : (heap.clear n).Ends l := by
  obtain ⟨ns, chain⟩ := ends
  induction chain with
  | @nil l null => exact .of_none (by rw [read_clear, null, ite_self])
  | @cons l k ns designates _ ih =>
      by_cases own : l = .next n
      · exact .of_none (by rw [read_clear, if_pos own])
      · exact .of_next (by rw [read_clear, if_neg own, designates]) ih

/-- Chains keep their nodes. -/
theorem OnChain.clear {l : Link H N} {k : N} (visited : heap.OnChain l k) (loose : heap.Loose n)
    (start : l ≠ .next n) : (heap.clear n).OnChain l k :=
  visited.congr loose.closed (fun m other => by rw [read_clear, if_neg other]) start

/-- Searches do not come to a loose node, so they find what they found. -/
theorem Finds.clear {accepts : N → Bool} {l : Link H N} {result : Option N}
    (found : heap.Finds accepts l result) (loose : heap.Loose n) (start : l ≠ .next n) :
    (heap.clear n).Finds accepts l result := by
  refine found.induct (motive := fun l result => l ≠ .next n →
    (heap.clear n).Finds accepts l result) ?_ ?_ ?_ start
  · exact fun null start => .ends (by rw [read_clear, if_neg start, null])
  · exact fun designates accepted start =>
      .here (by rw [read_clear, if_neg start, designates]) accepted
  · intro l k result designates rejected _ ih start
    exact .later (by rw [read_clear, if_neg start, designates]) rejected
      (ih (loose.closed start designates))

end Clear

end Kcr.Hlist.Heap
