import Kcr.Hlist.Chain
import Kcr.Hlist.Concurrent

/-!
# Readers among updates

A reader holds no lock, and the list changes under it. It still gets to an entry, if no one
cuts the entry off from the places that lead to it: wherever the reader stands, the entry is
ahead.
-/

namespace Kcr.Hlist

open Protocol

variable {T S H N L : Type}

namespace Heap

variable {heap heap' : Heap H N} {n : N}

/-- The entry is at the position or behind it. -/
def Ahead (heap : Heap H N) (position : Option N) (n : N) : Prop :=
  ∃ m ∈ position, m = n ∨ heap.OnChain (.next m) n

theorem OnChain.ahead {l : Link H N} (visited : heap.OnChain l n) : heap.Ahead (heap.read l) n := by
  cases designates : heap.read l with
  | none => exact absurd visited (not_onChain_of_none designates)
  | some m => exact ⟨m, rfl, (visited.cases designates).imp_left Eq.symm⟩

/-- The entry is not cut off from any place that leads to it. -/
def KeepsAhead (n : N) (heap heap' : Heap H N) : Prop :=
  ∀ l, heap.OnChain l n → heap'.OnChain l n

theorem KeepsAhead.ahead (keeps : KeepsAhead n heap heap') {position : Option N}
    (ahead : heap.Ahead position n) : heap'.Ahead position n := by
  obtain ⟨m, here, there⟩ := ahead
  exact ⟨m, here, there.imp_right (keeps _)⟩

end Heap

variable {view : View S (Heap H N)} {Rely : S → S → Prop} {t : T} {held : Option L}
  {A : S → Prop} {n : N} {test : N → Program S L Halt Bool}

/-- A search finds an entry that is ahead of it and that it accepts. -/
theorem meets_findEntry_ahead (stable : ∀ s s', Rely s s' → A s → A s')
    (keeps : ∀ s s', Rely s s' → (view.get s).KeepsAhead n (view.get s'))
    (tests : ∀ m, (solo t Rely : Protocol T S L Halt).Meets t
      (fun accepted s => (A s ∧ (view.get s).Ahead (some m) n) ∧ (m = n → accepted = true))
      held held (fun s => A s ∧ (view.get s).Ahead (some m) n) (test m))
    (fuel : Nat) (position : Option N) :
    (solo t Rely : Protocol T S L Halt).Meets t (fun result _ => result ≠ none) held held
      (fun s => A s ∧ (view.get s).Ahead position n) (findEntry view test fuel position) := by
  induction fuel generalizing position with
  | zero =>
      cases position with
      | none => exact .pure fun s _ ⟨_, _, impossible, _⟩ => absurd impossible (by simp)
      | some m => exact .fault fun _ _ _ => trivial
  | succ fuel ih =>
      cases position with
      | none => exact .pure fun s _ ⟨_, _, impossible, _⟩ => absurd impossible (by simp)
      | some m =>
          refine (tests m).bind fun accepted => ?_
          cases accepted with
          | true => exact .pure fun _ _ _ => by simp
          | false =>
              have moves : (solo t Rely : Protocol T S L Halt).Meets t
                  (fun next s => A s ∧ (view.get s).Ahead next n) held held
                  (fun s => (A s ∧ (view.get s).Ahead (some m) n) ∧ (m = n → false = true))
                  (view.read fun heap => heap.next m : Program S L Halt (Option N)) := by
                refine .solo_read (fun next s s' moved holds =>
                  ⟨stable s s' moved holds.1, (keeps s s' moved).ahead holds.2⟩) ?_
                rintro s ⟨⟨holds, k, here, there⟩, other⟩
                obtain rfl : k = m := (Option.some.inj here).symm
                obtain same | behind := there
                · cases other same
                · exact ⟨holds, behind.ahead⟩
              exact moves.bind fun next => ih next

/-- A search keeps what its tests keep. -/
theorem meets_findEntry_keep (stable : ∀ s s', Rely s s' → A s → A s')
    (tests : ∀ m, (solo t Rely : Protocol T S L Halt).Meets t (fun _ => A) held held A (test m))
    (fuel : Nat) (position : Option N) :
    (solo t Rely : Protocol T S L Halt).Meets t (fun _ => A) held held A
      (findEntry view test fuel position) := by
  induction fuel generalizing position with
  | zero =>
      cases position with
      | none => exact .pure fun _ _ holds => holds
      | some m => exact .fault fun _ _ _ => trivial
  | succ fuel ih =>
      cases position with
      | none => exact .pure fun _ _ holds => holds
      | some m =>
          refine (tests m).bind fun accepted => ?_
          cases accepted with
          | true => exact .pure fun _ _ holds => holds
          | false =>
              have moves : (solo t Rely : Protocol T S L Halt).Meets t (fun _ => A) held held A
                  (view.read fun heap => heap.next m : Program S L Halt (Option N)) :=
                .solo_read (fun _ => stable) fun _ holds => holds
              exact moves.bind fun next => ih next

section Updates

theorem meets_read_any {X : Type} (get : Heap H N → X) :
    (solo t Rely : Protocol T S L Halt).Meets t (fun _ _ => True) held held (fun _ => True)
      (view.read get : Program S L Halt X) :=
  .solo_read (fun _ _ _ _ _ => trivial) fun _ _ => trivial

theorem meets_write_any (update : Heap H N → Heap H N) :
    (solo t Rely : Protocol T S L Halt).Meets t (fun _ _ => True) held held (fun _ => True)
      (view.write update : Program S L Halt Unit) :=
  .solo_write (fun _ _ _ _ => trivial) fun _ _ => trivial

variable [DecidableEq H] [DecidableEq N]

/-- Of the reader's own removals and insertions nothing is asked. -/
theorem meets_hlistDelRcu_any : (solo t Rely : Protocol T S L Halt).Meets t (fun _ _ => True)
    held held (fun _ => True) (hlistDelRcu view n) := by
  refine (meets_read_any _).bind fun next => (meets_read_any _).bind fun pprev => ?_
  cases pprev with
  | null => exact .fault fun _ _ _ => trivial
  | poison => exact .fault fun _ _ _ => trivial
  | link l =>
      refine (meets_write_any _).bind fun _ => ?_
      cases next with
      | none => exact meets_write_any _
      | some m => exact (meets_write_any _).bind fun _ => meets_write_any _

theorem meets_hlistAddHeadRcu_any {h : H} : (solo t Rely : Protocol T S L Halt).Meets t
    (fun _ _ => True) held held (fun _ => True) (hlistAddHeadRcu view n h) := by
  refine (meets_read_any _).bind fun first => (meets_write_any _).bind fun _ =>
    (meets_write_any _).bind fun _ => (meets_write_any _).bind fun _ => ?_
  cases first with
  | none => exact .pure fun _ _ _ => trivial
  | some m => exact meets_write_any _

end Updates

end Kcr.Hlist
