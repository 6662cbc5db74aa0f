import Kcr.Hlist.Heap
import Mathlib.Logic.Relation
import Mathlib.Data.Set.Insert

/-!
# Chains

Following `next` from a link visits a chain of entries. Reachability is a
relation between links, so that a chain may be cyclic; a region of links closed
under following bounds what a walk can visit, and it is the closed regions that
removals and insertions are shown to keep. `Chain` lists the entries of a chain
that ends.
-/

namespace Kcr.Hlist.Heap

variable {H N : Type} {heap heap' : Heap H N}

/-- One link leads to the next field of the entry it designates. -/
def Follows (heap : Heap H N) (l m : Link H N) : Prop :=
  ∃ n, heap.read l = some n ∧ m = .next n

/-- A walk from the link `l` reads the link `m`. -/
def Leads (heap : Heap H N) : Link H N → Link H N → Prop :=
  Relation.ReflTransGen heap.Follows

/-- The entry is visited by a walk from the link. -/
def OnChain (heap : Heap H N) (l : Link H N) (n : N) : Prop :=
  ∃ m, heap.Leads l m ∧ heap.read m = some n

/-- The links read by walks that start at links of a set. -/
def Reached (heap : Heap H N) (starts : Set (Link H N)) : Set (Link H N) :=
  {m | ∃ l ∈ starts, heap.Leads l m}

/-- The links read by walks from the list heads. -/
def Rooted (heap : Heap H N) : Set (Link H N) := heap.Reached (Set.range .head)

/-- The entries that links of a region lead to. -/
def Targets (heap : Heap H N) (region : Set (Link H N)) : Set N :=
  {n | ∃ l ∈ region, heap.read l = some n}

/-- A set of links that following never leaves. -/
def Closed (heap : Heap H N) (region : Set (Link H N)) : Prop :=
  ∀ ⦃l⦄, l ∈ region → ∀ ⦃n⦄, heap.read l = some n → .next n ∈ region

theorem Leads.refl (l : Link H N) : heap.Leads l l := Relation.ReflTransGen.refl

theorem Leads.snoc {l m : Link H N} {n : N} (prior : heap.Leads l m)
    (designates : heap.read m = some n) : heap.Leads l (.next n) :=
  Relation.ReflTransGen.tail prior ⟨n, designates, rfl⟩

theorem Leads.trans {l m k : Link H N} (before : heap.Leads l m) (after : heap.Leads m k) :
    heap.Leads l k :=
  Relation.ReflTransGen.trans before after

/-- A closed region holds everything its links lead to. -/
theorem Closed.leads {region : Set (Link H N)} (closed : heap.Closed region) {l m : Link H N}
    (inside : l ∈ region) (path : heap.Leads l m) : m ∈ region := by
  induction path with
  | refl => exact inside
  | tail _ step ih =>
      obtain ⟨n, designates, rfl⟩ := step
      exact closed ih designates

/-- The links a set of links leads to form a closed region. -/
theorem closed_reached (starts : Set (Link H N)) : heap.Closed (heap.Reached starts) := by
  rintro m ⟨l, start, path⟩ n designates
  exact ⟨l, start, path.snoc designates⟩

theorem subset_reached (starts : Set (Link H N)) : starts ⊆ heap.Reached starts :=
  fun l start => ⟨l, start, .refl l⟩

/-- It is the least closed region that holds them. -/
theorem Closed.reached {region starts : Set (Link H N)} (closed : heap.Closed region)
    (inside : starts ⊆ region) : heap.Reached starts ⊆ region := by
  rintro m ⟨l, start, path⟩
  exact closed.leads (inside start) path

theorem Closed.reached_singleton {region : Set (Link H N)} (closed : heap.Closed region)
    {l : Link H N} (inside : l ∈ region) : heap.Reached {l} ⊆ region :=
  closed.reached (Set.singleton_subset_iff.mpr inside)

theorem reached_mono {starts more : Set (Link H N)} (subset : starts ⊆ more) :
    heap.Reached starts ⊆ heap.Reached more :=
  (closed_reached more).reached (subset.trans (subset_reached more))

theorem head_mem_rooted (h : H) : .head h ∈ heap.Rooted := subset_reached _ ⟨h, rfl⟩

theorem closed_rooted : heap.Closed heap.Rooted := closed_reached _

/-- Every closed region with all heads holds the rooted links. -/
theorem Closed.rooted {region : Set (Link H N)} (closed : heap.Closed region)
    (heads : ∀ h, .head h ∈ region) : heap.Rooted ⊆ region :=
  closed.reached (by rintro _ ⟨h, rfl⟩; exact heads h)

/-- Links reached from heads are rooted. -/
theorem reached_subset_rooted {starts : Set (Link H N)} (inside : starts ⊆ heap.Rooted) :
    heap.Reached starts ⊆ heap.Rooted :=
  closed_rooted.reached inside

theorem Targets.mono {region more : Set (Link H N)} (subset : region ⊆ more) :
    heap.Targets region ⊆ heap.Targets more := by
  rintro n ⟨l, member, designates⟩
  exact ⟨l, subset member, designates⟩

/-- The next field of an entry that a closed region leads to belongs to the region. -/
theorem Closed.next_mem {region : Set (Link H N)} (closed : heap.Closed region) {n : N}
    (target : n ∈ heap.Targets region) : .next n ∈ region := by
  obtain ⟨l, member, designates⟩ := target
  exact closed member designates

/-- A next field is only reached through its entry, unless the walk starts there. -/
theorem mem_targets_of_next {starts : Set (Link H N)} {n : N}
    (reached : .next n ∈ heap.Reached starts) (notStart : .next n ∉ starts) :
    n ∈ heap.Targets (heap.Reached starts) := by
  obtain ⟨l, start, path⟩ := reached
  rcases Relation.ReflTransGen.cases_tail path with same | ⟨m, before, k, designates, same⟩
  · exact absurd (same ▸ start) notStart
  · obtain rfl := Link.next.inj same
    exact ⟨m, ⟨l, start, before⟩, designates⟩

/-- Walks do not lead to heads: a head is reached only where the walk starts. -/
theorem head_mem_of_reached {starts : Set (Link H N)} {h : H}
    (reached : .head h ∈ heap.Reached starts) : .head h ∈ starts := by
  obtain ⟨l, start, path⟩ := reached
  rcases Relation.ReflTransGen.cases_tail path with same | ⟨m, _, k, _, same⟩
  · exact same ▸ start
  · cases same

/-- A walk whose links hold the same pointers in another heap is a walk there. -/
theorem Leads.congr {l m : Link H N} (path : heap.Leads l m)
    (same : ∀ k, heap.Leads l k → heap'.read k = heap.read k) : heap'.Leads l m := by
  induction path with
  | refl => exact .refl l
  | @tail k _ before step ih =>
      obtain ⟨n, designates, rfl⟩ := step
      exact ih.snoc ((same k before).trans designates)

/-- Changing the pointer of the link a walk ends at does not change the walk. -/
theorem Leads.congr_until {l m : Link H N} (path : heap.Leads l m)
    (same : ∀ k, k ≠ m → heap'.read k = heap.read k) : heap'.Leads l m := by
  induction path using Relation.ReflTransGen.head_induction_on with
  | refl => exact .refl m
  | @head k j step _ ih =>
      by_cases here : k = m
      · rw [here]
        exact .refl m
      · obtain ⟨n, designates, rfl⟩ := step
        exact Relation.ReflTransGen.head ⟨n, (same k here).trans designates, rfl⟩ ih

theorem mem_targets_of_onChain {starts : Set (Link H N)} {l : Link H N} {n : N}
    (visited : heap.OnChain l n) (start : l ∈ starts) : n ∈ heap.Targets (heap.Reached starts) := by
  obtain ⟨m, path, designates⟩ := visited
  exact ⟨m, ⟨l, start, path⟩, designates⟩

theorem OnChain.of_read {l : Link H N} {n : N} (designates : heap.read l = some n) :
    heap.OnChain l n :=
  ⟨l, .refl l, designates⟩

/-- The rest of a chain belongs to it. -/
theorem OnChain.of_next {l : Link H N} {m n : N} (designates : heap.read l = some m)
    (rest : heap.OnChain (.next m) n) : heap.OnChain l n := by
  obtain ⟨k, path, atEnd⟩ := rest
  exact ⟨k, Leads.trans ((Leads.refl l).snoc designates) path, atEnd⟩

/-- A chain consists of its first entry and the rest. -/
theorem OnChain.cases {l : Link H N} {m n : N} (visited : heap.OnChain l n)
    (designates : heap.read l = some m) : n = m ∨ heap.OnChain (.next m) n := by
  obtain ⟨k, path, atEnd⟩ := visited
  rcases Relation.ReflTransGen.cases_head path with rfl | ⟨j, ⟨first, isFirst, rfl⟩, rest⟩
  · exact .inl (Option.some.inj (atEnd.symm.trans designates))
  · obtain rfl := Option.some.inj (isFirst.symm.trans designates)
    exact .inr ⟨k, rest, atEnd⟩

theorem not_onChain_of_none {l : Link H N} {n : N} (ends : heap.read l = none) :
    ¬ heap.OnChain l n := by
  rintro ⟨k, path, atEnd⟩
  rcases Relation.ReflTransGen.cases_head path with rfl | ⟨j, ⟨first, isFirst, rfl⟩, _⟩
  · rw [ends] at atEnd
    cases atEnd
  · rw [ends] at isFirst
    cases isFirst

theorem mem_targets_singleton {l : Link H N} {n : N} :
    n ∈ heap.Targets (heap.Reached {l}) ↔ heap.OnChain l n := by
  constructor
  · rintro ⟨m, ⟨_, rfl, path⟩, designates⟩
    exact ⟨m, path, designates⟩
  · rintro ⟨m, path, designates⟩
    exact ⟨m, ⟨l, rfl, path⟩, designates⟩

theorem OnChain.leads {l : Link H N} {n : N} (visited : heap.OnChain l n) :
    heap.Leads l (.next n) := by
  obtain ⟨m, path, designates⟩ := visited
  exact path.snoc designates

/-- A chain holds what the chains it leads to hold. -/
theorem OnChain.of_leads {l m : Link H N} {n : N} (visited : heap.OnChain m n)
    (path : heap.Leads l m) : heap.OnChain l n := by
  obtain ⟨k, after, designates⟩ := visited
  exact ⟨k, path.trans after, designates⟩

/-- A chain depends on a link only through the pointer it holds. -/
theorem OnChain.of_same {l m : Link H N} {n : N} (same : heap.read m = heap.read l)
    (visited : heap.OnChain l n) : heap.OnChain m n := by
  cases first : heap.read l with
  | none => exact absurd visited (not_onChain_of_none first)
  | some k =>
      rcases visited.cases first with rfl | rest
      · exact .of_read (same.trans first)
      · exact .of_next (same.trans first) rest

/-- Induction along a chain up to an entry of it. -/
theorem OnChain.induct {n : N} {motive : Link H N → Prop}
    (here : ∀ {l}, heap.read l = some n → motive l)
    (later : ∀ {l m}, heap.read l = some m → heap.OnChain (.next m) n → motive (.next m) →
      motive l) {l : Link H N} (visited : heap.OnChain l n) : motive l := by
  obtain ⟨k, path, atEnd⟩ := visited
  induction path using Relation.ReflTransGen.head_induction_on with
  | refl => exact here atEnd
  | head step rest ih =>
      obtain ⟨m, designates, rfl⟩ := step
      exact later designates ⟨k, rest, atEnd⟩ ih

/-- A closed region with the same pointers in another heap has the same chains. -/
theorem OnChain.congr {region : Set (Link H N)} (closed : heap.Closed region)
    (same : ∀ m ∈ region, heap'.read m = heap.read m) {l : Link H N} {n : N} (member : l ∈ region)
    (visited : heap.OnChain l n) : heap'.OnChain l n := by
  refine visited.induct (motive := fun l => l ∈ region → heap'.OnChain l n) ?_ ?_ member
  · exact fun designates member => .of_read ((same _ member).trans designates)
  · exact fun designates _ ih member =>
      .of_next ((same _ member).trans designates) (ih (closed member designates))

/-- The entries of a chain that ends, in order. -/
inductive Chain (heap : Heap H N) : Link H N → List N → Prop where
  | nil {l} (ends : heap.read l = none) : Chain heap l []
  | cons {l n ns} (designates : heap.read l = some n) (rest : Chain heap (.next n) ns) :
      Chain heap l (n :: ns)

namespace Chain

theorem unique {l : Link H N} {xs ys : List N} (left : heap.Chain l xs)
    (right : heap.Chain l ys) : xs = ys := by
  induction left generalizing ys with
  | nil ends =>
      cases right with
      | nil => rfl
      | cons designates _ => simp [ends] at designates
  | cons designates _ ih =>
      cases right with
      | nil ends => simp [designates] at ends
      | cons designates' rest' =>
          obtain rfl : _ = _ := Option.some.inj (designates.symm.trans designates')
          rw [ih rest']

/-- Chains depend on a link only through the pointer it holds. -/
theorem of_read {l m : Link H N} {ns : List N} (same : heap.read m = heap.read l)
    (chain : heap.Chain l ns) : heap.Chain m ns := by
  cases chain with
  | nil ends => exact .nil (same.trans ends)
  | cons designates rest => exact .cons (same.trans designates) rest

theorem onChain {l : Link H N} {ns : List N} (chain : heap.Chain l ns) {n : N}
    (member : n ∈ ns) : heap.OnChain l n := by
  induction chain with
  | nil => simp at member
  | cons designates _ ih =>
      rcases List.mem_cons.mp member with rfl | later
      · exact .of_read designates
      · exact .of_next designates (ih later)

/-- A chain that ends also ends when started further on. -/
theorem leads {l m : Link H N} {ns : List N} (chain : heap.Chain l ns)
    (path : heap.Leads l m) : ∃ rest, heap.Chain m rest ∧ rest <:+ ns := by
  induction path with
  | refl => exact ⟨ns, chain, List.suffix_refl ns⟩
  | tail _ step ih =>
      obtain ⟨n, designates, rfl⟩ := step
      obtain ⟨rest, before, isSuffix⟩ := ih
      cases before with
      | nil ends => simp [designates] at ends
      | cons designates' after =>
          obtain rfl : _ = _ := Option.some.inj (designates.symm.trans designates')
          exact ⟨_, after, (List.suffix_cons _ _).trans isSuffix⟩

theorem mem_iff {l : Link H N} {ns : List N} (chain : heap.Chain l ns) {n : N} :
    n ∈ ns ↔ heap.OnChain l n := by
  constructor
  · exact chain.onChain
  · rintro ⟨m, path, designates⟩
    obtain ⟨rest, after, isSuffix⟩ := chain.leads path
    cases after with
    | nil ends => simp [designates] at ends
    | cons designates' _ =>
        obtain rfl : _ = _ := Option.some.inj (designates.symm.trans designates')
        exact isSuffix.subset (by simp)

/-- No entry follows itself on a chain that ends. -/
theorem not_mem_rest {n : N} {ns : List N} (chain : heap.Chain (.next n) ns) : n ∉ ns := by
  intro member
  obtain ⟨rest, again, isSuffix⟩ := chain.leads (chain.onChain member).leads
  obtain rfl := again.unique chain
  obtain ⟨m, path, designates⟩ := chain.onChain member
  obtain ⟨fromM, chainM, suffixM⟩ := chain.leads path
  cases chainM with
  | nil ends => simp [designates] at ends
  | cons designates' after =>
      obtain rfl : _ = _ := Option.some.inj (designates.symm.trans designates')
      obtain rfl := after.unique chain
      have longer := suffixM.length_le
      simp only [List.length_cons] at longer
      omega

end Chain

/-! ## Walks -/

/-- A walk over a chain that ends returns, given fuel for its length. -/
theorem Chain.findEntry {l : Link H N} {ns : List N} (chain : heap.Chain l ns)
    (accepts : N → Bool) {fuel : Nat} (enough : ns.length ≤ fuel) :
    heap.findEntry accepts fuel (heap.read l) = .ok (ns.find? accepts) := by
  induction chain generalizing fuel with
  | nil ends => simp [ends, Heap.findEntry]
  | @cons l n ns designates _ ih =>
      obtain ⟨fuel, rfl⟩ : ∃ k, fuel = k + 1 := ⟨fuel - 1, by simp at enough; omega⟩
      rw [designates, Heap.findEntry, List.find?_cons]
      have shorter : ns.length ≤ fuel := by simpa using enough
      have tail := ih shorter
      cases accepts n with
      | true => rfl
      | false => exact tail

/-- More fuel does not change the result of a walk that returned. -/
theorem findEntry_mono {accepts : N → Bool} {fuel more : Nat} {start result : Option N}
    (enough : fuel ≤ more) (returned : heap.findEntry accepts fuel start = .ok result) :
    heap.findEntry accepts more start = .ok result := by
  induction fuel generalizing more start with
  | zero =>
      cases start with
      | none =>
          cases more <;> exact returned
      | some n => simp [Heap.findEntry] at returned
  | succ fuel ih =>
      obtain ⟨more, rfl⟩ : ∃ k, more = k + 1 := ⟨more - 1, by omega⟩
      cases start with
      | none => simpa [Heap.findEntry] using returned
      | some n =>
          rw [Heap.findEntry] at returned ⊢
          split
          · next accepted => simpa [accepted] using returned
          · next rejected => exact ih (by omega) (by simpa [rejected] using returned)

/-- Two walks that return agree, whatever fuel they had. -/
theorem findEntry_unique {accepts : N → Bool} {fuel fuel' : Nat} {start left right : Option N}
    (first : heap.findEntry accepts fuel start = .ok left)
    (second : heap.findEntry accepts fuel' start = .ok right) : left = right := by
  have one := findEntry_mono (Nat.le_max_left fuel fuel') first
  have two := findEntry_mono (Nat.le_max_right fuel fuel') second
  simpa using one.symm.trans two

/-- A walk never faults: it only lacks fuel. -/
theorem findEntry_error {accepts : N → Bool} {fuel : Nat} {start : Option N} {reason : Halt}
    (failed : heap.findEntry accepts fuel start = .error reason) : reason = .fuel := by
  induction fuel generalizing start with
  | zero =>
      cases start with
      | none => simp [Heap.findEntry] at failed
      | some n => simpa [Heap.findEntry] using failed.symm
  | succ fuel ih =>
      cases start with
      | none => simp [Heap.findEntry] at failed
      | some n =>
          rw [Heap.findEntry] at failed
          split at failed
          · simp at failed
          · exact ih failed

/-- The search loop started at a link returns `result`, given enough fuel. -/
def Finds (heap : Heap H N) (accepts : N → Bool) (l : Link H N) (result : Option N) : Prop :=
  ∃ fuel, heap.findEntry accepts fuel (heap.read l) = .ok result

namespace Finds

variable {accepts : N → Bool} {l : Link H N}

/-- Induction along a search: the chain ends, its entry is accepted, or the search
goes on behind a rejected entry. -/
theorem induct {motive : Link H N → Option N → Prop}
    (ends : ∀ {l}, heap.read l = Option.none → motive l Option.none)
    (here : ∀ {l n}, heap.read l = Option.some n → accepts n = true → motive l (Option.some n))
    (later : ∀ {l n result}, heap.read l = Option.some n → accepts n = false →
      heap.Finds accepts (.next n) result → motive (.next n) result → motive l result)
    {result : Option N} (found : heap.Finds accepts l result) : motive l result := by
  obtain ⟨fuel, returned⟩ := found
  induction fuel generalizing l with
  | zero =>
      cases designates : heap.read l with
      | none =>
          rw [designates, findEntry] at returned
          exact Except.ok.inj returned ▸ ends designates
      | some n => simp [designates, findEntry] at returned
  | succ fuel ih =>
      cases designates : heap.read l with
      | none =>
          rw [designates, findEntry] at returned
          exact Except.ok.inj returned ▸ ends designates
      | some n =>
          rw [designates, findEntry] at returned
          cases verdict : accepts n with
          | true =>
              rw [verdict, if_pos rfl] at returned
              exact Except.ok.inj returned ▸ here designates verdict
          | false =>
              rw [verdict] at returned
              have rest : heap.findEntry accepts fuel (heap.read (.next n)) = .ok result := returned
              exact later designates verdict ⟨fuel, rest⟩ (ih rest)

/-- An entry a search stops at is on the chain and accepted. -/
theorem some {n : N} (found : heap.Finds accepts l (some n)) :
    heap.OnChain l n ∧ accepts n = true := by
  refine found.induct (motive := fun l r => r = Option.some n → heap.OnChain l n ∧ accepts n = true)
    ?_ ?_ ?_ rfl
  · intro l _ result
    cases result
  · intro l m designates accepted result
    obtain rfl := Option.some.inj result
    exact ⟨.of_read designates, accepted⟩
  · intro l m result designates _ _ ih same
    obtain ⟨visited, accepted⟩ := ih same
    exact ⟨.of_next designates visited, accepted⟩

/-- A search that finds nothing has seen the whole chain. -/
theorem none (missed : heap.Finds accepts l none) :
    ∃ ns, heap.Chain l ns ∧ ∀ n ∈ ns, accepts n = false := by
  refine missed.induct (motive := fun l r => r = Option.none →
    ∃ ns, heap.Chain l ns ∧ ∀ n ∈ ns, accepts n = false) ?_ ?_ ?_ rfl
  · intro l ends _
    exact ⟨[], .nil ends, by simp⟩
  · intro l m _ _ result
    cases result
  · intro l m result designates rejected _ ih same
    obtain ⟨ns, chain, others⟩ := ih same
    exact ⟨m :: ns, .cons designates chain, by simpa using ⟨rejected, others⟩⟩

/-- A search that finds nothing rejects every entry of the chain. -/
theorem rejects (missed : heap.Finds accepts l Option.none) {n : N} (visited : heap.OnChain l n) :
    accepts n = false := by
  obtain ⟨ns, chain, others⟩ := missed.none
  exact others n (chain.mem_iff.mpr visited)

theorem unique {left right : Option N} (first : heap.Finds accepts l left)
    (second : heap.Finds accepts l right) : left = right := by
  obtain ⟨_, one⟩ := first
  obtain ⟨_, two⟩ := second
  exact findEntry_unique one two

/-- The result depends on the link only through the pointer it holds. -/
theorem of_read {m : Link H N} {result : Option N} (same : heap.read m = heap.read l)
    (found : heap.Finds accepts l result) : heap.Finds accepts m result := by
  obtain ⟨fuel, returned⟩ := found
  exact ⟨fuel, same ▸ returned⟩

theorem ends (designates : heap.read l = Option.none) : heap.Finds accepts l Option.none :=
  ⟨0, by rw [designates]; rfl⟩

theorem here {n : N} (designates : heap.read l = Option.some n) (accepted : accepts n = true) :
    heap.Finds accepts l (Option.some n) :=
  ⟨1, by rw [designates, findEntry, if_pos accepted]⟩

theorem later {n : N} {result : Option N} (designates : heap.read l = Option.some n)
    (rejected : accepts n = false) (rest : heap.Finds accepts (.next n) result) :
    heap.Finds accepts l result := by
  obtain ⟨fuel, returned⟩ := rest
  refine ⟨fuel + 1, ?_⟩
  rw [designates, findEntry, rejected]
  exact returned

/-- A search in a closed region is the same in another heap with the same pointers there,
but for the one behind the entry it stops at. -/
theorem congr {region : Set (Link H N)} (closed : heap.Closed region) {result : Option N}
    (same : ∀ m ∈ region, (∀ n ∈ result, m ≠ .next n) → heap'.read m = heap.read m)
    (member : l ∈ region) (start : ∀ n ∈ result, l ≠ .next n)
    (found : heap.Finds accepts l result) : heap'.Finds accepts l result := by
  refine found.induct (motive := fun l result => l ∈ region → (∀ n ∈ result, l ≠ .next n) →
    (∀ m ∈ region, (∀ n ∈ result, m ≠ .next n) → heap'.read m = heap.read m) →
    heap'.Finds accepts l result) ?_ ?_ ?_ member start same
  · exact fun null member start same => .ends ((same _ member start).trans null)
  · exact fun designates accepted member start same =>
      .here ((same _ member start).trans designates) accepted
  · intro l n result designates rejected rest ih member start same
    refine .later ((same l member start).trans designates) rejected
      (ih (closed member designates) ?_ same)
    rintro k ⟨⟩ behind
    obtain rfl := Link.next.inj behind
    rw [rest.some.2] at rejected
    cases rejected

/-- A test that agrees along the chain finds the same entry. -/
theorem test {accepts' : N → Bool} {result : Option N}
    (same : ∀ n, heap.OnChain l n → accepts' n = accepts n)
    (found : heap.Finds accepts l result) : heap.Finds accepts' l result := by
  refine found.induct (motive := fun l result =>
    (∀ n, heap.OnChain l n → accepts' n = accepts n) → heap.Finds accepts' l result) ?_ ?_ ?_ same
  · exact fun null _ => .ends null
  · exact fun designates accepted same =>
      .here designates ((same _ (.of_read designates)).trans accepted)
  · exact fun designates rejected _ ih same =>
      .later designates ((same _ (.of_read designates)).trans rejected)
        (ih fun n onChain => same n (.of_next designates onChain))

/-- A test that still accepts what was found, and still rejects what was rejected, finds the
same entry. -/
theorem again {accepts' : N → Bool} {n : N}
    (rejects : ∀ k, heap.OnChain l k → accepts k = false → accepts' k = false)
    (accepted : accepts' n = true) (found : heap.Finds accepts l (Option.some n)) :
    heap.Finds accepts' l (Option.some n) := by
  refine found.induct (motive := fun l result => result = Option.some n →
    (∀ k, heap.OnChain l k → accepts k = false → accepts' k = false) →
    heap.Finds accepts' l result) ?_ ?_ ?_ rfl rejects
  · exact fun null _ _ => .ends null
  · rintro l k designates _ result _
    obtain rfl := Option.some.inj result
    exact .here designates accepted
  · intro l k result designates rejected _ ih same rejects
    exact .later designates (rejects k (.of_read designates) rejected)
      (ih same fun j visited => rejects j (.of_next designates visited))

/-- A search that was computed. -/
theorem of_toOption {fuel : Nat} {result : Option N}
    (computed : (heap.findEntry accepts fuel (heap.read l)).toOption = Option.some result) :
    heap.Finds accepts l result := by
  refine ⟨fuel, ?_⟩
  cases walk : heap.findEntry accepts fuel (heap.read l) with
  | error reason => simp [walk, Except.toOption] at computed
  | ok found => simpa [walk, Except.toOption] using computed

end Finds

theorem Chain.finds {l : Link H N} {ns : List N} (chain : heap.Chain l ns)
    (accepts : N → Bool) : heap.Finds accepts l (ns.find? accepts) :=
  ⟨ns.length, chain.findEntry accepts (Nat.le_refl _)⟩

section Loop

variable {S : Type} {next : S → N → Option N} {body : N → S → Except Halt S}

/-- Loop rule of `hlist_for_each_entry_safe`: an invariant of the position and the
state that every body execution carries to the saved successor. -/
theorem forEachSafe_rule (Inv : Option N → S → Prop)
    (step : ∀ {n s s'}, Inv (some n) s → body n s = .ok s' → Inv (next s n) s')
    {fuel : Nat} {start : Option N} {s s' : S} (holds : Inv start s)
    (returned : forEachSafe next body fuel start s = .ok s') : Inv none s' := by
  induction fuel generalizing start s with
  | zero =>
      cases start with
      | none => simp only [forEachSafe, Except.ok.injEq] at returned; exact returned ▸ holds
      | some n => simp [forEachSafe] at returned
  | succ fuel ih =>
      cases start with
      | none => simp only [forEachSafe, Except.ok.injEq] at returned; exact returned ▸ holds
      | some n =>
          rw [forEachSafe] at returned
          cases ran : body n s with
          | error reason => simp [ran] at returned
          | ok mid =>
              rw [ran] at returned
              exact ih (step holds ran) returned

/-- The same loop does not fault when no body execution does. -/
theorem forEachSafe_safe (Inv : Option N → S → Prop)
    (step : ∀ {n s}, Inv (some n) s → ∃ s', body n s = .ok s' ∧ Inv (next s n) s')
    {fuel : Nat} {start : Option N} {s : S} {reason : Halt} (holds : Inv start s)
    (failed : forEachSafe next body fuel start s = .error reason) : reason = .fuel := by
  induction fuel generalizing start s with
  | zero =>
      cases start with
      | none => simp [forEachSafe] at failed
      | some n => simpa [forEachSafe] using failed.symm
  | succ fuel ih =>
      cases start with
      | none => simp [forEachSafe] at failed
      | some n =>
          rw [forEachSafe] at failed
          obtain ⟨mid, ran, holds'⟩ := step holds
          rw [ran] at failed
          exact ih holds' failed

/-- Two runs of the loop in step: a relation at equal positions that one body execution
carries over is kept by the whole loop. -/
theorem forEachSafe_simulates {T : Type} (next' : T → N → Option N)
    (body' : N → T → Except Halt T) (Related : Option N → S → T → Prop)
    (step : ∀ {n s s' t}, Related (some n) s t → body n s = .ok s' →
      ∃ t', body' n t = .ok t' ∧ next' t n = next s n ∧ Related (next s n) s' t')
    {fuel : Nat} {start : Option N} {s s' : S} {t : T} (related : Related start s t)
    (returned : forEachSafe next body fuel start s = .ok s') :
    ∃ t', forEachSafe next' body' fuel start t = .ok t' ∧ Related none s' t' := by
  induction fuel generalizing start s t with
  | zero =>
      cases start with
      | none =>
          simp only [forEachSafe, Except.ok.injEq] at returned
          exact ⟨t, rfl, returned ▸ related⟩
      | some n => simp [forEachSafe] at returned
  | succ fuel ih =>
      cases start with
      | none =>
          simp only [forEachSafe, Except.ok.injEq] at returned
          exact ⟨t, rfl, returned ▸ related⟩
      | some n =>
          rw [forEachSafe] at returned
          cases ran : body n s with
          | error reason => simp [ran] at returned
          | ok mid =>
              rw [ran] at returned
              obtain ⟨mid', ran', sameNext, related'⟩ := step related ran
              obtain ⟨t', rest, atEnd⟩ := ih related' returned
              refine ⟨t', ?_, atEnd⟩
              rw [forEachSafe, ran', sameNext]
              exact rest

end Loop

end Kcr.Hlist.Heap
