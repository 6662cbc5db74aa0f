import Kcr.Cache.Buckets
import Kcr.Cache.Phases
import Kcr.Cache.Replacement
import Kcr.Hlist.Avoid

/-!
# Promotion of linked entries

Between the L3 search of a lookup and its promotion a store on another CPU can retire the
entry: the promotion then puts a retired entry into an L2 chain. It cannot when no store
retires an entry that some CPU is about to promote, and retired entries stay off the L3
chains, so that no search finds one.
-/

namespace Kcr

open Hlist Heap

/-- Whenever a promotion can run, its entry is not retired and not poisoned. -/
def PromotesLinked (s : Phases) : Prop :=
  ∀ cpu fingerprint n, s.phase cpu = .foundL3 fingerprint n →
    n ∉ s.state.retired ∧ s.state.heap.pprev n ≠ .poison

/-- The heads that L3 searches start from. -/
def l3Tables : Set Head := {h | ∃ socket bucket, h = .l3 socket bucket}

/-- A store phase may retire the entry: no CPU is about to promote it, its `pprev` names
the only link on L3 chains that leads to it, and the removal splices nothing retired into
these chains. -/
structure Phases.MayRetire (s : Phases) (o : Node) : Prop where
  unheld : ∀ cpu fingerprint, s.phase cpu ≠ .foundL3 fingerprint o
  sole : s.state.heap.SoleLink (s.state.heap.Reached (headLinks l3Tables)) o
  splices : s.state.heap.Splices l3Tables s.state.retiredSet o

/-- A promotion may run: the removal splices nothing retired into the L3 chains, and takes
the entry off them or the L2 chain it joins holds nothing retired. -/
structure Phases.MayPromote (s : Phases) (cpu : Nat) (fingerprint : U64) (n : Node) :
    Prop where
  splices : s.state.heap.Splices l3Tables s.state.retiredSet n
  attaches : s.state.heap.SoleLink (s.state.heap.Reached (headLinks l3Tables)) n ∨
    s.state.heap.Avoids {l2Head cpu fingerprint} s.state.retiredSet

/-- The condition on a phase, in the state before it. -/
def KeepsLinked (P : Platform) (s : Phases) (who : Caller) : PhaseCall → Prop
  | .promote => ∀ fingerprint n, s.phase who.cpu = .foundL3 fingerprint n →
      s.MayPromote who.cpu fingerprint n
  | .insertL2 fingerprint data len mm kzalloc kvmalloc =>
      StoreAccepted P who data len kzalloc kvmalloc s.state →
        ∀ o, s.state.heap.Finds (s.state.sameKey fingerprint mm)
          (.head (l2Head who.cpu fingerprint)) (some o) → s.MayRetire o
  | .insertL3 => ∀ fingerprint n, s.phase who.cpu = .insertedL2 fingerprint n →
      ∀ o, s.state.heap.Finds (s.state.sameKey fingerprint (s.state.entry n).mm)
        (.head (l3Head P who.cpu fingerprint)) (some o) → s.MayRetire o
  | _ => True

/-- An entry between its two insertions: only the L2 head of its CPU leads to it, and no
other CPU works on it. -/
structure Phases.Hidden (s : Phases) (cpu : Nat) (fingerprint : U64) (n : Node) : Prop where
  live : n ∈ s.state.live
  current : n ∉ s.state.retired
  unread : ∀ l, s.state.heap.read l = some n → l = .head (l2Head cpu fingerprint)
  unfound : ∀ cpu' fingerprint', s.phase cpu' ≠ .foundL3 fingerprint' n
  single : ∀ cpu' fingerprint', s.phase cpu' = .insertedL2 fingerprint' n → cpu' = cpu

/-- The invariant: only retired entries are poisoned, none is on an L3 chain or about to
be promoted, and entries between their insertions are hidden. -/
structure Linked (s : Phases) : Prop where
  wellFormed : WellFormed s.state
  poisoned : ∀ n, s.state.heap.pprev n = .poison → n ∈ s.state.retired
  avoids : s.state.heap.Avoids l3Tables s.state.retiredSet
  found : ∀ cpu fingerprint n, s.phase cpu = .foundL3 fingerprint n →
    n ∈ s.state.live ∧ n ∉ s.state.retired
  hidden : ∀ cpu fingerprint n, s.phase cpu = .insertedL2 fingerprint n →
    s.Hidden cpu fingerprint n

theorem l2Head_not_mem_l3Tables (cpu : Nat) (fingerprint : U64) :
    l2Head cpu fingerprint ∉ l3Tables := by
  rintro ⟨socket, bucket, same⟩
  simp [l2Head] at same

theorem l3Head_mem_l3Tables (P : Platform) (cpu : Nat) (fingerprint : U64) :
    l3Head P cpu fingerprint ∈ l3Tables :=
  ⟨_, _, rfl⟩

theorem l2Head_cpu {cpu cpu' : Nat} {fingerprint fingerprint' : U64}
    (same : l2Head cpu fingerprint = l2Head cpu' fingerprint') : cpu = cpu' :=
  (Head.l2.inj same).1

namespace Linked

variable {P : Platform} {who : Caller} {s : Phases} {state : State}

theorem initial : Linked ⟨.initial, fun _ => .idle⟩ where
  wellFormed := .initial
  poisoned n same := by simp [State.initial, Heap.empty] at same
  avoids := by
    rintro n ⟨l, _, designates⟩
    simp [State.initial] at designates
  found _ _ _ here := by cases here
  hidden _ _ _ here := by cases here

end Linked

section Step

variable {P : Platform} {s : Phases} {state : State} {cpu cpu' : Nat} {next : Phase}
  {fingerprint : U64} {n k : Node} {h : Head} {s₀ s₁ : State}

/-- A hidden entry is on no chain but the one of its CPU's L2 head. -/
theorem Phases.Hidden.onChain (hidden : s.Hidden cpu fingerprint n)
    (visited : s.state.heap.OnChain (.head h) n) : h = l2Head cpu fingerprint := by
  obtain ⟨l, path, designates⟩ := visited
  obtain rfl := hidden.unread l designates
  have reached : .head (l2Head cpu fingerprint) ∈ s.state.heap.Reached {.head h} := ⟨_, rfl, path⟩
  have start : Link.head (l2Head cpu fingerprint) ∈ ({.head h} : Set (Link Head Node)) :=
    Heap.head_mem_of_reached reached
  exact (Link.head.inj (Set.mem_singleton_iff.mp start)).symm

/-- It stays hidden while another CPU goes on, if that does not touch it. -/
theorem Phases.Hidden.enter (hidden : s.Hidden cpu fingerprint n) (live : n ∈ state.live)
    (current : n ∉ state.retired)
    (unread : ∀ l, state.heap.read l = some n → l = .head (l2Head cpu fingerprint))
    (unfound : ∀ fingerprint', next ≠ .foundL3 fingerprint' n)
    (single : ∀ fingerprint', next ≠ .insertedL2 fingerprint' n) :
    (s.enter cpu' next state).Hidden cpu fingerprint n := by
  refine ⟨live, current, unread, fun c fingerprint' here => ?_, fun c fingerprint' here => ?_⟩
  · obtain ⟨_, found⟩ | ⟨_, before⟩ := Phases.enter_cases here
    · exact unfound fingerprint' found
    · exact hidden.unfound c fingerprint' before
  · obtain ⟨_, taken⟩ | ⟨_, before⟩ := Phases.enter_cases here
    · exact absurd taken (single fingerprint')
    · exact hidden.single c fingerprint' before

/-- The links that lead to a hidden entry after another CPU's removal and insertion. -/
theorem Phases.Hidden.unread_of_pushed (hidden : s.Hidden cpu fingerprint n) {old : Option Node}
    {mid heap : Heap Head Node} (removal : Removal s.state.heap old mid)
    (added : Pushed mid k h heap) (distinct : n ≠ k) (other : h ≠ l2Head cpu fingerprint)
    (l : Link Head Node) (designates : heap.read l = some n) :
    l = .head (l2Head cpu fingerprint) := by
  rcases Heap.read_of_pushed removal added designates with ⟨_, same⟩ | ⟨j, before, place⟩
  · exact absurd same distinct
  · obtain rfl := hidden.unread j before
    rcases place with same | ⟨o, _, same⟩ | ⟨_, same⟩
    · exact same.symm
    · cases same
    · exact absurd (Link.head.inj same).symm other

/-- An insertion does not retire the entry it inserts. -/
theorem ReplaceReturns.current (returns : ReplaceReturns h n fingerprint s₀ s₁)
    (off : ¬ s₀.heap.OnChain (.head h) n) (current : n ∉ s₀.retired) : n ∉ s₁.retired := by
  obtain ⟨old, mid, found, _, _, retired⟩ := returns.heap_cases
  rw [retired, List.mem_append, Option.mem_toList]
  rintro (earlier | rfl)
  · exact current earlier
  · exact off found.some.1

namespace Linked

/-- A phase that leaves the lists alone. -/
theorem quiet (linked : Linked s) (heap : state.heap = s.state.heap)
    (live : state.live = s.state.live) (retired : state.retired = s.state.retired)
    (unfound : ∀ fingerprint n, next ≠ .foundL3 fingerprint n)
    (outside : ∀ fingerprint n, next ≠ .insertedL2 fingerprint n) :
    Linked (s.enter cpu next state) := by
  refine ⟨⟨?_, ?_⟩, ?_, ?_, fun c fingerprint n here => ?_, fun c fingerprint n here => ?_⟩
  · rw [Phases.enter_state, heap, live]
    exact linked.wellFormed.confined
  · rw [Phases.enter_state, retired, live]
    exact linked.wellFormed.retired
  · rw [Phases.enter_state, heap, retired]
    exact linked.poisoned
  · rw [Phases.enter_state, State.retiredSet, heap, retired]
    exact linked.avoids
  · rw [Phases.enter_state, live, retired]
    obtain ⟨_, found⟩ | ⟨_, before⟩ := Phases.enter_cases here
    · exact absurd found (unfound fingerprint n)
    · exact linked.found c fingerprint n before
  · obtain ⟨_, taken⟩ | ⟨_, before⟩ := Phases.enter_cases here
    · exact absurd taken (outside fingerprint n)
    · have hidden := linked.hidden c fingerprint n before
      exact hidden.enter (live ▸ hidden.live) (retired ▸ hidden.current)
        (heap ▸ hidden.unread) (fun fingerprint' => unfound fingerprint' n)
        (fun fingerprint' => outside fingerprint' n)

/-- An L3 search finds entries that are not retired. -/
theorem hit (linked : Linked s) (onL3 : s.state.heap.OnChain (.head (l3Head P cpu fingerprint)) n) :
    Linked (s.enter cpu (.foundL3 fingerprint n) s.state) := by
  refine ⟨linked.wellFormed, linked.poisoned, linked.avoids, fun c fingerprint' m here => ?_,
    fun c fingerprint' m here => ?_⟩
  · obtain ⟨rfl, found⟩ | ⟨_, before⟩ := Phases.enter_cases here
    · obtain ⟨_, rfl⟩ := Phase.foundL3.inj found
      exact ⟨linked.wellFormed.confined.onChain onL3,
        linked.avoids.onChain (l3Head_mem_l3Tables P c fingerprint) onL3⟩
    · exact linked.found c fingerprint' m before
  · obtain ⟨_, taken⟩ | ⟨_, before⟩ := Phases.enter_cases here
    · cases taken
    · have hidden := linked.hidden c fingerprint' m before
      refine hidden.enter hidden.live hidden.current hidden.unread (fun _ found => ?_) nofun
      obtain ⟨_, rfl⟩ := Phase.foundL3.inj found
      exact l2Head_not_mem_l3Tables c fingerprint'
        (hidden.onChain onL3 ▸ l3Head_mem_l3Tables P cpu fingerprint)

/-- A promotion of an entry that is not retired. -/
theorem promote (linked : Linked s) (here : s.phase cpu = .foundL3 fingerprint n)
    (may : s.MayPromote cpu fingerprint n) {l : Link Head Node} {mid : Heap Head Node}
    (gone : Unlinked s.state.heap n l mid)
    (added : Pushed mid n (l2Head cpu fingerprint) state.heap)
    (live : state.live = s.state.live) (retired : state.retired = s.state.retired) :
    Linked (s.enter cpu .idle state) := by
  obtain ⟨inside, current⟩ := linked.found cpu fingerprint n here
  refine ⟨⟨?_, ?_⟩, fun m poisoned => ?_, ?_, fun c fingerprint' m here' => ?_,
    fun c fingerprint' m here' => ?_⟩
  · rw [Phases.enter_state, live]
    exact (linked.wellFormed.confined.unlinked gone).pushed inside added
  · rw [Phases.enter_state, retired, live]
    exact linked.wellFormed.retired
  · rw [Phases.enter_state, retired]
    rcases Heap.pprev_of_pushed (.some gone) added poisoned with before | ⟨removed, distinct⟩
    · exact linked.poisoned m before
    · exact absurd (Option.some.inj removed).symm distinct
  · rw [Phases.enter_state, State.retiredSet, retired]
    exact linked.avoids.moved gone added current may.splices may.attaches
  · obtain ⟨_, found⟩ | ⟨_, before⟩ := Phases.enter_cases here'
    · cases found
    · rw [Phases.enter_state, live, retired]
      exact linked.found c fingerprint' m before
  · obtain ⟨_, taken⟩ | ⟨other, before⟩ := Phases.enter_cases here'
    · cases taken
    · have hidden := linked.hidden c fingerprint' m before
      have distinct : m ≠ n := by
        rintro rfl
        exact hidden.unfound cpu fingerprint here
      exact hidden.enter (live ▸ hidden.live) (retired ▸ hidden.current)
        (hidden.unread_of_pushed (.some gone) added distinct fun heads =>
          other (l2Head_cpu heads).symm)
        nofun nofun

/-- More entries are allocated. -/
theorem grow (linked : Linked s) (wellFormed : WellFormed state)
    (heap : state.heap = s.state.heap) (retired : state.retired = s.state.retired)
    (more : ∀ n ∈ s.state.live, n ∈ state.live) : Linked ⟨state, s.phase⟩ := by
  refine ⟨wellFormed, ?_, ?_, fun c fingerprint n here => ?_, fun c fingerprint n here => ?_⟩
  · rw [heap, retired]
    exact linked.poisoned
  · rw [State.retiredSet, heap, retired]
    exact linked.avoids
  · rw [retired]
    exact (linked.found c fingerprint n here).imp_left (more n)
  · have hidden := linked.hidden c fingerprint n here
    exact ⟨more n hidden.live, retired ▸ hidden.current, heap ▸ hidden.unread, hidden.unfound,
      hidden.single⟩

/-- The CPU takes on an entry that is hidden. -/
theorem begin (linked : Linked s) (live : n ∈ s.state.live) (current : n ∉ s.state.retired)
    (unread : ∀ l, s.state.heap.read l = some n → l = .head (l2Head cpu fingerprint))
    (unfound : ∀ c fingerprint', s.phase c ≠ .foundL3 fingerprint' n)
    (single : ∀ c fingerprint', s.phase c = .insertedL2 fingerprint' n → c = cpu) :
    Linked (s.enter cpu (.insertedL2 fingerprint n) s.state) := by
  refine ⟨linked.wellFormed, linked.poisoned, linked.avoids, fun c fingerprint' m here => ?_,
    fun c fingerprint' m here => ?_⟩
  · obtain ⟨_, found⟩ | ⟨_, before⟩ := Phases.enter_cases here
    · cases found
    · exact linked.found c fingerprint' m before
  · obtain ⟨rfl, taken⟩ | ⟨other, before⟩ := Phases.enter_cases here
    · obtain ⟨rfl, rfl⟩ := Phase.insertedL2.inj taken
      refine ⟨live, current, unread, fun c' fingerprint' here' => ?_, fun c' fingerprint' here' => ?_⟩
      · obtain ⟨_, found⟩ | ⟨_, before⟩ := Phases.enter_cases here'
        · cases found
        · exact unfound c' fingerprint' before
      · obtain ⟨same, _⟩ | ⟨_, before⟩ := Phases.enter_cases here'
        · exact same
        · exact single c' fingerprint' before
    · have hidden := linked.hidden c fingerprint' m before
      refine hidden.enter hidden.live hidden.current hidden.unread nofun fun _ taken => ?_
      obtain ⟨_, rfl⟩ := Phase.insertedL2.inj taken
      exact other (single c fingerprint' before)

/-- An insertion of the CPU's hidden entry, after which its call has ended. -/
theorem insert (linked : Linked s) (here : s.phase cpu = .insertedL2 fingerprint n)
    (off : ¬ s.state.heap.OnChain (.head h) n)
    (own : ∀ c fingerprint', h = l2Head c fingerprint' → c = cpu)
    (may : ∀ o, s.state.heap.Finds (s.state.sameKey fingerprint (s.state.entry n).mm) (.head h)
      (some o) → s.MayRetire o)
    (returns : ReplaceReturns h n fingerprint s.state state) :
    Linked (s.enter cpu .idle state) := by
  have hiddenN := linked.hidden cpu fingerprint n here
  have wellFormed := linked.wellFormed.replace hiddenN.live returns
  have live := returns.live_eq
  obtain ⟨old, mid, found, removal, added, retired⟩ := returns.heap_cases
  have mayOld : ∀ o ∈ old, s.MayRetire o := by
    rintro o ⟨⟩
    exact may o found
  have onChain : ∀ o ∈ old, s.state.heap.OnChain (.head h) o := by
    rintro o ⟨⟩
    exact found.some.1
  have distinct : n ∉ old := fun removed => off (onChain n removed)
  have mem_retired : ∀ m, m ∈ state.retired ↔ m ∈ s.state.retired ∨ m ∈ old := by
    intro m
    rw [retired, List.mem_append, Option.mem_toList, Option.mem_def]
  have current : n ∉ state.retired := by
    rw [mem_retired]
    exact not_or.mpr ⟨hiddenN.current, distinct⟩
  refine ⟨wellFormed, fun m poisoned => ?_, ?_, fun c fingerprint' m here' => ?_,
    fun c fingerprint' m here' => ?_⟩
  · refine (mem_retired m).mpr ?_
    rcases Heap.pprev_of_pushed removal added poisoned with before | ⟨removed, _⟩
    · exact .inl (linked.poisoned m before)
    · exact .inr removed
  · refine linked.avoids.replaced removal added (fun m bad => (mem_retired m).mp bad) current
      (fun o removed => (mayOld o removed).sole) (fun o removed => (mayOld o removed).splices)
      distinct fun j designates => ?_
    exact ⟨_, hiddenN.unread j designates, l2Head_not_mem_l3Tables cpu fingerprint⟩
  · obtain ⟨_, held⟩ | ⟨_, before⟩ := Phases.enter_cases here'
    · cases held
    · obtain ⟨inside, notRetired⟩ := linked.found c fingerprint' m before
      rw [Phases.enter_state, live, mem_retired]
      exact ⟨inside, not_or.mpr ⟨notRetired, fun removed => (mayOld m removed).unheld c fingerprint'
        before⟩⟩
  · obtain ⟨_, taken⟩ | ⟨other, before⟩ := Phases.enter_cases here'
    · cases taken
    · have hidden := linked.hidden c fingerprint' m before
      have apart : m ≠ n := by
        rintro rfl
        exact other (hiddenN.single c fingerprint' before)
      refine hidden.enter (live ▸ hidden.live) ?_ (hidden.unread_of_pushed removal added apart
        fun heads => other (own c fingerprint' heads)) nofun nofun
      rw [mem_retired]
      exact not_or.mpr ⟨hidden.current, fun removed =>
        other (own c fingerprint' (hidden.onChain (onChain m removed)))⟩

/-- The first phase of a store. -/
theorem insertL2 {who : Caller} {data : Option (Nat → U8)} {len : U32} {mm : U64}
    {kzalloc : Option Node} {kvmalloc : U64} {entry : Node} (linked : Linked s)
    (fresh : (PhaseCall.insertL2 fingerprint data len mm kzalloc kvmalloc).Fresh s.state)
    (may : KeepsLinked P s who (.insertL2 fingerprint data len mm kzalloc kvmalloc))
    (prepared : prepareResult P who fingerprint data len mm kzalloc kvmalloc s.state =
      (.ok entry, s₀))
    (inL2 : ReplaceReturns (l2Head who.cpu fingerprint) entry fingerprint s₀ s₁) :
    Linked (s.enter who.cpu (.insertedL2 fingerprint entry) s₁) := by
  obtain ⟨_, _, _, _, failed⟩ | ⟨accepted, bytes, entry', s₀', rfl, rfl, prepares, same⟩ :=
    prepareResult_cases P who fingerprint data len mm kzalloc kvmalloc s.state
  · rw [failed] at prepared
    cases prepared
  rw [same] at prepared
  obtain ⟨⟨⟩, rfl⟩ := Prod.mk.inj prepared.symm
  have allocation := prepares.allocation linked.wellFormed (fresh.1 entry rfl)
  have unread : ∀ l, s₀.heap.read l ≠ some entry := by
    rw [allocation.heap]
    exact linked.wellFormed.unread allocation.fresh
  have off : ¬ s₀.heap.OnChain (.head (l2Head who.cpu fingerprint)) entry := by
    rintro ⟨l, _, designates⟩
    exact unread l designates
  have current : entry ∉ s₀.retired := by
    rw [allocation.retired]
    exact fun retired => allocation.fresh (linked.wellFormed.retired entry retired)
  have unfound : ∀ c fingerprint', s.phase c ≠ .foundL3 fingerprint' entry :=
    fun c fingerprint' found => allocation.fresh (linked.found c fingerprint' entry found).1
  have single : ∀ c fingerprint', s.phase c = .insertedL2 fingerprint' entry → c = who.cpu :=
    fun c fingerprint' taken => absurd (linked.hidden c fingerprint' entry taken).live
      allocation.fresh
  -- the entry is allocated and hidden, then inserted, and only its own L2 head leads to it
  have grown : Linked ⟨s₀, s.phase⟩ :=
    linked.grow (linked.wellFormed.allocated allocation) allocation.heap allocation.retired
      fun n inside => allocation.live ▸ List.mem_cons_of_mem _ inside
  let t : Phases := s.enter who.cpu (.insertedL2 fingerprint entry) s₀
  have begun : Linked t :=
    grown.begin (allocation.live ▸ List.mem_cons_self) current
      (fun l designates => absurd designates (unread l)) unfound single
  have mayRetire : ∀ o, s₀.heap.Finds (s₀.sameKey fingerprint (s₀.entry entry).mm)
      (.head (l2Head who.cpu fingerprint)) (some o) → t.MayRetire o := by
    intro o found
    rw [allocation.key.2.1] at found
    obtain ⟨unheld, sole, splices⟩ :=
      may accepted o (allocation.finds linked.wellFormed rfl found)
    refine ⟨fun c fingerprint' held => ?_, ?_, ?_⟩
    · obtain ⟨_, found⟩ | ⟨_, before⟩ := Phases.enter_cases held
      · cases found
      · exact unheld c fingerprint' before
    · rw [Phases.enter_state, allocation.heap]
      exact sole
    · rw [Phases.enter_state, State.retiredSet, allocation.heap, allocation.retired]
      exact splices
  have inserted : Linked (t.enter who.cpu .idle s₁) :=
    begun.insert (s.enter_phase ..) off (fun c fingerprint' heads => (l2Head_cpu heads).symm)
      mayRetire inL2
  have ended : ∀ {c phase}, phase ≠ .idle → (t.enter who.cpu .idle s₁).phase c = phase →
      s.phase c = phase := by
    intro c phase working found
    obtain ⟨_, idle⟩ | ⟨other, before⟩ := Phases.enter_cases found
    · exact absurd idle.symm working
    · exact (Phases.enter_other other ..).symm.trans before
  have hidden : ∀ l, s₁.heap.read l = some entry → l = .head (l2Head who.cpu fingerprint) := by
    intro l designates
    obtain ⟨old, mid, _, removal, added, _⟩ := inL2.heap_cases
    rcases Heap.read_of_pushed removal added designates with ⟨same, _⟩ | ⟨j, before, _⟩
    · exact same
    · exact absurd before (unread j)
  have again := inserted.begin (inL2.live_eq ▸ allocation.live ▸ List.mem_cons_self)
    (inL2.current off current) hidden
    (fun c fingerprint' found => unfound c fingerprint' (ended nofun found))
    (fun c fingerprint' taken => single c fingerprint' (ended nofun taken))
  simpa [t] using again

/-- A phase that meets the condition keeps the invariant. -/
theorem step (linked : Linked s) {s' : Phases} {event : PhaseEvent}
    (keeps : KeepsLinked P s event.who event.call) (transition : (phases P).Step s event s') :
    Linked s' := by
  obtain ⟨who, call⟩ := event
  obtain ⟨fresh, step⟩ := phaseStep_iff.mp transition
  cases step with
  | hitL2 | missL2 | missL3 => exact linked.quiet rfl rfl rfl nofun nofun
  | hitL3 here found => exact linked.hit found.some.1
  | promotes here removed =>
      obtain ⟨l, gone⟩ := Heap.unlinked_of_del removed
      exact linked.promote here (keeps _ _ here) gone (Heap.pushed_add _ _ _) rfl rfl
  | @refuses fingerprint data len mm kzalloc kvmalloc status state here refused =>
      obtain ⟨status', state', error, returns, same⟩ | ⟨_, _, _, _, _, _, _, same⟩ :=
        prepareResult_cases P who fingerprint data len mm kzalloc kvmalloc s.state
      · rw [same] at refused
        obtain ⟨_, rfl⟩ := Prod.mk.inj refused
        obtain ⟨heap, live, retired, _⟩ :=
          returns.failed error linked.wellFormed.confined fresh.1
        exact linked.quiet heap live retired nofun nofun
      · rw [same] at refused
        cases refused
  | insertsL2 _ prepared inL2 => exact linked.insertL2 fresh keeps prepared inL2
  | @insertsL3 fingerprint entry state here inL3 =>
      have hidden := linked.hidden who.cpu fingerprint entry here
      refine linked.insert here (fun onL3 => ?_) (fun c fingerprint' heads => ?_)
        (keeps fingerprint entry here) inL3
      · exact l2Head_not_mem_l3Tables who.cpu fingerprint
          (hidden.onChain onL3 ▸ l3Head_mem_l3Tables P who.cpu fingerprint)
      · exact absurd (heads ▸ l3Head_mem_l3Tables P who.cpu fingerprint)
          (l2Head_not_mem_l3Tables c fingerprint')

end Linked

end Step

/-- When no phase retires an entry that a CPU is about to promote, or brings a retired one
to the L3 chains, promotions only act on linked entries. -/
theorem promotesLinked_of_keepsLinked {P : Platform} {events : List PhaseEvent} {s : Phases}
    (run : ((phases P).guarded fun s event => KeepsLinked P s event.who event.call).Run events s) :
    PromotesLinked s := by
  have linked : Linked s := by
    apply run.invariant (fun _ (s : Phases) => Linked s)
    · rintro s rfl
      exact .initial
    · rintro events s event s' _ linked ⟨transition, keeps⟩
      exact linked.step keeps transition
  intro cpu fingerprint n here
  obtain ⟨_, current⟩ := linked.found cpu fingerprint n here
  exact ⟨current, fun poisoned => current (linked.poisoned n poisoned)⟩

/-- The first phase of a store of the single byte 1, for which `kzalloc` returns `n`. -/
def PhaseCall.insertByte (fingerprint mm : U64) (n : Node) : PhaseCall :=
  .insertL2 fingerprint (some fun _ => 1#8) 1 mm (some n) 0

/-- CPU 0 stores a key and stores it again, which retires the first entry. CPU 1 has found the
second one and is about to promote it. -/
theorem promotesLinked_of_keepsLinked_replaced :
    ∃ s, (phases .oneNode).Run [⟨.on 0 0, .insertByte 5 1 10⟩, ⟨.on 0 0, .insertL3⟩,
        ⟨.on 0 1, .insertByte 5 1 11⟩, ⟨.on 0 1, .insertL3⟩, ⟨.on 1 2, .searchL2 5 1⟩,
        ⟨.on 1 2, .searchL3⟩] s ∧
      s.state.retired = [10] ∧ s.phase 1 = .foundL3 5 11 ∧ PromotesLinked s := by
  have computed : (TransitionSystem.execAll (replayPhase .oneNode 9)
      [⟨.on 0 0, .insertByte 5 1 10⟩, ⟨.on 0 0, .insertL3⟩] ⟨.initial, fun _ => .idle⟩).map
      Phases.state = replay .oneNode 9 [⟨.on 0 0, .storeByte 5 1 10, .stored 0⟩] .initial := rfl
  obtain ⟨s₂, stored⟩ : ∃ s₂, TransitionSystem.execAll (replayPhase .oneNode 9)
      [⟨.on 0 0, .insertByte 5 1 10⟩, ⟨.on 0 0, .insertL3⟩] ⟨.initial, fun _ => .idle⟩ = some s₂ :=
    Option.isSome_iff_exists.mp (by decide +kernel)
  rw [stored] at computed
  have run₂ : (cache .oneNode).Run [⟨.on 0 0, .storeByte 5 1 10, .stored 0⟩] s₂.state :=
    ⟨.initial, rfl, steps_of_replay computed.symm⟩
  have phase₂ : s₂.phase =
      Function.update (Function.update (fun _ => .idle) 0 (.insertedL2 5 10)) 0 .idle :=
    observe stored Phases.phase rfl
  have node₂ : (s₂.state.live, s₂.state.heap.first (.l3 0 5), s₂.state.heap.pprev 10,
      s₂.state.heap.next 10) = ([10], some 10, .link (.head (.l3 0 5)), none) :=
    observe stored (fun s => (s.state.live, s.state.heap.first (.l3 0 5), s.state.heap.pprev 10,
      s.state.heap.next 10)) (by decide +kernel)
  simp only [Prod.mk.injEq] at node₂
  obtain ⟨s₁, first, second⟩ := Option.bind_eq_some_iff.mp stored
  have second : (phases .oneNode).Step s₁ ⟨.on 0 0, .insertL3⟩ s₂ :=
    (TransitionSystem.steps_of_execAll step_of_replayPhase second).single
  have seen₁ : (s₁.phase 0, s₁.state.heap.first (.l3 0 5)) = (.insertedL2 5 10, none) :=
    observe first (fun s => (s.phase 0, s.state.heap.first (.l3 0 5))) (by decide +kernel)
  have later : ((TransitionSystem.execAll (replayPhase .oneNode 9) [⟨.on 0 1, .insertByte 5 1 11⟩,
      ⟨.on 0 1, .insertL3⟩, ⟨.on 1 2, .searchL2 5 1⟩, ⟨.on 1 2, .searchL3⟩] s₂).map fun s =>
        (s.state.retired, s.phase 1)) = some ([10], .foundL3 5 11) :=
    observe stored (fun s => (TransitionSystem.execAll (replayPhase .oneNode 9)
      [⟨.on 0 1, .insertByte 5 1 11⟩, ⟨.on 0 1, .insertL3⟩, ⟨.on 1 2, .searchL2 5 1⟩,
        ⟨.on 1 2, .searchL3⟩] s).map fun s => (s.state.retired, s.phase 1)) (by decide +kernel)
  have between : (replayPhase .oneNode 9 s₂ ⟨.on 0 1, .insertByte 5 1 11⟩).map (fun s =>
      (s.phase 0, s.state.heap.first (.l3 0 5))) = some (.insertedL2 5 11, none) :=
    observe stored (fun s => (replayPhase .oneNode 9 s ⟨.on 0 1, .insertByte 5 1 11⟩).map fun s =>
      (s.phase 0, s.state.heap.first (.l3 0 5))) (by decide +kernel)
  obtain ⟨s, rest, seen⟩ := Option.map_eq_some_iff.mp later
  obtain ⟨s₃, third, rest⟩ := Option.bind_eq_some_iff.mp rest
  obtain ⟨s₄, fourth, searches⟩ := Option.bind_eq_some_iff.mp rest
  have seen₃ := observe third (fun s => (s.phase 0, s.state.heap.first (.l3 0 5))) between
  simp only [Prod.mk.injEq] at seen₁ seen₃
  have start : (phases .oneNode).Run [] ⟨.initial, fun _ => .idle⟩ := .initial rfl
  have noRival : KeepsLinked .oneNode ⟨.initial, fun _ => .idle⟩ (.on 0 0) (.insertByte 5 1 10) := by
    rintro _ o found
    obtain ⟨l, _, designates⟩ := found.some.1
    simp [State.initial] at designates
  -- where the L3 bucket is empty the L3 insertion replaces nothing
  have vacant : ∀ {t : Phases} {who n}, who.cpu = 0 → t.phase 0 = .insertedL2 5 n →
      t.state.heap.first (.l3 0 5) = none → KeepsLinked .oneNode t who .insertL3 := by
    intro t who n cpu here none fingerprint m here' o found
    rw [cpu] at here'
    obtain ⟨rfl, rfl⟩ := Phase.insertedL2.inj (here.symm.trans here')
    refine absurd found.some.1 (Heap.not_onChain_of_none ?_)
    rw [l3Head, cpu]
    exact none
  have rival : KeepsLinked .oneNode s₂ (.on 0 1) (.insertByte 5 1 11) := by
    rintro _ o found
    have inside := (WellFormed.run run₂).confined.onChain found.some.1
    obtain rfl : o = 10 := by simpa [node₂.1] using inside
    refine ⟨fun cpu fingerprint => ?_, ?_, .inl ?_⟩
    · rw [phase₂]
      by_cases here : cpu = 0 <;> simp [here]
    · refine soleLink_of_run [.l2 0 5, .l3 0 5] run₂ (by decide) ?_ (by simp [node₂])
      intro h used reached _
      obtain ⟨_, ⟨socket, bucket, rfl⟩, same⟩ := Heap.head_mem_of_reached reached
      obtain rfl := Link.head.inj same
      simp only [List.mem_cons, reduceCtorEq, List.not_mem_nil, or_false, false_or] at used
      rw [used]
      exact node₂.2.2.1
    · exact ⟨.head (.l3 0 5), Heap.subset_reached _ ⟨_, ⟨0, 5, rfl⟩, rfl⟩, node₂.2.1⟩
  have guarded : ((phases .oneNode).guarded fun s event =>
      KeepsLinked .oneNode s event.who event.call).Run _ s₄ :=
    ((((start.guard_nil.guard_step (step_of_replayPhase first) noRival).guard_step
      second (vacant rfl seen₁.1 seen₁.2)).guard_step (step_of_replayPhase third)
      rival).guard_step (step_of_replayPhase fourth) (vacant rfl seen₃.1 seen₃.2))
  have run := guarded.guard_steps
    (TransitionSystem.steps_of_execAll step_of_replayPhase searches) (by simp [KeepsLinked])
  obtain ⟨retired, found⟩ := Prod.mk.inj seen
  exact ⟨s, run.unguard, retired, found, promotesLinked_of_keepsLinked run⟩

/-- CPU 0 replaces the entry before CPU 1 promotes it. -/
theorem not_promotesLinked :
    ¬ ∀ events s, (phases .oneNode).Run events s → PromotesLinked s := by
  intro safe
  have computed : (TransitionSystem.execAll (replayPhase .oneNode 9)
      [⟨.on 0 0, .insertByte 5 1 10⟩, ⟨.on 0 0, .insertL3⟩, ⟨.on 1 1, .searchL2 5 1⟩,
        ⟨.on 1 1, .searchL3⟩, ⟨.on 0 2, .insertByte 5 1 11⟩] ⟨.initial, fun _ => .idle⟩).map
      (fun s => (s.phase 1, s.state.retired)) = some (.foundL3 5 10, [10]) := by
    decide +kernel
  obtain ⟨s, ran, seen⟩ := Option.map_eq_some_iff.mp computed
  obtain ⟨here, retired⟩ := Prod.mk.inj seen
  refine (safe _ s (phases_of_execAll .oneNode 9 ran) 1 5 10 here).1 ?_
  rw [retired]
  exact List.mem_singleton_self 10

end Kcr
