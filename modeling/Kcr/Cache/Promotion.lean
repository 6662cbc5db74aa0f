import Kcr.Cache.Callbacks

/-!
# What a lookup does to other CPUs

A lookup that hits in L3 moves the entry to the L2 bucket of its own CPU: by design the
other CPUs of the socket do not find it in L3 any more. Every other entry stays where
their lookups find it, when the moved entry's `pprev` names the only link on their walks
that leads to it.
-/

namespace Kcr

open Hlist

/-- The links the searches of a lookup may read. -/
def State.walked (P : Platform) (reader : Caller) (fingerprint : U64) (s : State) :
    Set (Link Head Node) :=
  s.heap.Reached {.head (l2Head reader.cpu fingerprint), .head (l3Head P reader.cpu fingerprint)}

/-- Promoting `o` on another CPU does not take `n` away from the reader. Either it is
another entry, whose `pprev` names the only link on the reader's walks that leads to it
and none that leads elsewhere, or the reader holds `n` in its own L2 bucket, where `pprev`
does not name a link. -/
inductive State.LeavesTo (P : Platform) (reader : Caller) (fingerprint mm : U64) (s : State)
    (n o : Node) : Prop where
  | other (distinct : n ≠ o) (sole : s.heap.SoleLink (s.walked P reader fingerprint) o)
      (spares : s.heap.Spares (s.walked P reader fingerprint) o)
  | own (same : n = o)
      (found : s.heap.Finds (s.accepts fingerprint mm reader.jiffies)
        (.head (l2Head reader.cpu fingerprint)) (some n))
      (apart : ∀ l ∈ s.heap.Reached {.head (l2Head reader.cpu fingerprint)},
        s.heap.pprev n ≠ .link l)

section Lookups

variable {P : Platform} {events : List RcuEvent} {s s' u : State} {who reader : Caller}
  {fingerprint mm fingerprint' mm' : U64} {result : Option Node} {n o : Node}

/-- Promoting an entry on another CPU, seen by the reader. -/
theorem State.LeavesTo.returns (leaves : s.LeavesTo P reader fingerprint' mm' n o)
    (distinct : who.cpu ≠ reader.cpu) {l : Link Head Node} {mid : Heap Head Node}
    (gone : Heap.Unlinked s.heap o l mid)
    (added : Heap.Pushed mid o (l2Head who.cpu fingerprint) s'.heap) (entry : s'.entry = s.entry)
    (hit : LookupReturns P reader fingerprint' mm' s (some n) u) :
    ∃ u', LookupReturns P reader fingerprint' mm' s' (some n) u' := by
  have test : s'.accepts fingerprint' mm' reader.jiffies =
      s.accepts fingerprint' mm' reader.jiffies := by
    unfold State.accepts
    rw [entry]
  have otherHead : l2Head who.cpu fingerprint ≠ l2Head reader.cpu fingerprint' :=
    fun same => distinct (Head.l2.inj same).1
  cases leaves with
  | other distinct sole spares =>
      have outside : .head (l2Head who.cpu fingerprint) ∉ s.walked P reader fingerprint' := by
        intro reached
        obtain same | same := Heap.head_mem_of_reached reached
        · exact otherHead (Link.head.inj same)
        · cases same
      refine hit.transfer (fun h found isHead isResult search => ?_) ?_
      · have member : .head h ∈ s.walked P reader fingerprint' := by
          apply Heap.subset_reached _
          rcases isHead with rfl | rfl
          · exact .inl rfl
          · exact .inr rfl
        rw [test]
        exact search.moved (Heap.closed_reached _) sole spares gone added outside member nofun
          (fun removed => distinct (Option.some.inj (isResult o removed))) nofun
      · rintro _ ⟨⟩ linked
        exact added.linked (.inr (gone.linked distinct linked))
  | own same found apart =>
      subst same
      have outside : .head (l2Head who.cpu fingerprint) ∉
          s.heap.Reached {.head (l2Head reader.cpu fingerprint')} := fun reached =>
        otherHead (Link.head.inj (Set.mem_singleton_iff.mp (Heap.head_mem_of_reached reached)))
      refine ⟨_, .l2Hit ?_⟩
      rw [test]
      exact found.moved_self (Heap.closed_reached _) gone
        (fun member => apart l member gone.named) added outside (Heap.subset_reached _ rfl) nofun

end Lookups

end Kcr
