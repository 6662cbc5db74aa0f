import Kcr.Hlist.Accesses
import Kcr.Semantics.Accounts

/-!
# List primitives and what is counted elsewhere

Searches, loops, removals and insertions add nothing to a measure that the heap has no part in.
-/

namespace Kcr.Hlist

open Program

variable {S H N L X G : Type} [AddCommGroup G] {view : View S (Heap H N)} {measure : S → G}

theorem quiet_read (get : Heap H N → X) : (view.read get : Program S L Halt X).Quiet measure :=
  .read _

theorem quiet_write (apart : ∀ v s, measure (view.set v s) = measure s)
    (update : Heap H N → Heap H N) : (view.write update : Program S L Halt Unit).Quiet measure :=
  .write fun s => apart _ s

theorem quiet_findEntry {test : N → Program S L Halt Bool}
    (tests : ∀ n, (test n).Quiet measure) (fuel : Nat) (position : Option N) :
    (findEntry view test fuel position).Quiet measure := by
  induction fuel generalizing position with
  | zero =>
      cases position with
      | none => exact .pure _
      | some n => exact .fault _
  | succ fuel ih =>
      cases position with
      | none => exact .pure _
      | some n =>
          refine (tests n).bind fun accepted => ?_
          cases accepted with
          | true => exact .pure _
          | false => exact (quiet_read _).bind fun next => ih next

theorem quiet_forEachSafe {body : N → Program S L Halt Unit}
    (bodies : ∀ n, (body n).Quiet measure) (fuel : Nat) (position : Option N) :
    (forEachSafe view body fuel position).Quiet measure := by
  induction fuel generalizing position with
  | zero =>
      cases position with
      | none => exact .pure _
      | some n => exact .fault _
  | succ fuel ih =>
      cases position with
      | none => exact .pure _
      | some n => exact (quiet_read _).bind fun tmp => (bodies n).bind fun _ => ih tmp

variable [DecidableEq H] [DecidableEq N]

theorem quiet_hlistDelRcu (apart : ∀ v s, measure (view.set v s) = measure s) (n : N) :
    (hlistDelRcu view n : Program S L Halt Unit).Quiet measure := by
  refine (quiet_read _).bind fun next => (quiet_read _).bind fun pprev => ?_
  cases pprev with
  | null => exact .fault _
  | poison => exact .fault _
  | link l =>
      refine (quiet_write apart _).bind fun _ => ?_
      cases next with
      | none => exact quiet_write apart _
      | some m => exact (quiet_write apart _).bind fun _ => quiet_write apart _

theorem quiet_hlistAddHeadRcu (apart : ∀ v s, measure (view.set v s) = measure s) (n : N) (h : H) :
    (hlistAddHeadRcu view n h : Program S L Halt Unit).Quiet measure := by
  refine (quiet_read _).bind fun first => (quiet_write apart _).bind fun _ =>
    (quiet_write apart _).bind fun _ => (quiet_write apart _).bind fun _ => ?_
  cases first with
  | none => exact .pure _
  | some m => exact quiet_write apart _

end Kcr.Hlist
