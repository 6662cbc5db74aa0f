import Mathlib.Data.List.Basic
import Mathlib.Data.List.Perm.Basic

/-!
# Deferred freeing

Readers enter and leave read-side sections; an object that is handed over gets a callback,
which frees it once every reader that was inside a section at the hand-over has left it.
Readers that enter later are not waited for.
-/

namespace Kcr

universe u v

/-- A callback that has not run: the object it frees and the readers it waits for. -/
structure Callback (R : Type u) (N : Type v) where
  object : N
  waits : List R

/-- The readers inside a section, the callbacks that have not run, and the objects freed,
in order. -/
structure Rcu (R : Type u) (N : Type v) where
  readers : List R
  pending : List (Callback R N)
  freed : List N

namespace Rcu

variable {R : Type u} {N : Type v} {rcu rcu' : Rcu R N}

def idle : Rcu R N where
  readers := []
  pending := []
  freed := []

def readLock (reader : R) (rcu : Rcu R N) : Rcu R N :=
  { rcu with readers := reader :: rcu.readers }

/-- A reader leaves its section, and no callback waits for it any more. -/
def readUnlock [DecidableEq R] (reader : R) (rcu : Rcu R N) : Rcu R N :=
  { rcu with
    readers := rcu.readers.erase reader
    pending := rcu.pending.map fun callback =>
      { callback with waits := callback.waits.erase reader } }

/-- Hand over objects; their callbacks wait for the readers inside a section now. -/
def handOver (objects : List N) (rcu : Rcu R N) : Rcu R N :=
  { rcu with pending := rcu.pending ++ objects.map fun object => ⟨object, rcu.readers⟩ }

/-- Run a callback, if it waits for no one; the result names the object it frees. -/
def invoke (i : Nat) (rcu : Rcu R N) : Option (N × Rcu R N) :=
  match rcu.pending[i]? with
  | some ⟨object, []⟩ =>
      some (object,
        { rcu with pending := rcu.pending.eraseIdx i, freed := rcu.freed ++ [object] })
  | _ => none

/-- Every object handed over, freed or not. -/
def handed (rcu : Rcu R N) : List N := rcu.freed ++ rcu.pending.map Callback.object

@[simp] theorem handed_idle : (idle : Rcu R N).handed = [] := rfl

@[simp] theorem handed_readLock (reader : R) : (rcu.readLock reader).handed = rcu.handed := rfl

@[simp] theorem handed_readUnlock [DecidableEq R] (reader : R) :
    (rcu.readUnlock reader).handed = rcu.handed := by
  simp [handed, readUnlock, Function.comp_def]

@[simp] theorem handed_handOver (objects : List N) :
    (rcu.handOver objects).handed = rcu.handed ++ objects := by
  simp [handed, handOver, Function.comp_def]

/-- Handing over what a list has grown by keeps the two in step. -/
theorem perm_handOver {before after removed : List N} (handed : rcu.handed.Perm before)
    (grown : after = before ++ removed) :
    (rcu.handOver (after.drop before.length)).handed.Perm after := by
  rw [handed_handOver, grown, List.drop_left]
  exact handed.append_right removed

/-- A callback that runs frees an object that was handed over before. -/
theorem handed_invoke {i : Nat} {object : N} (ran : rcu.invoke i = some (object, rcu')) :
    rcu'.freed = rcu.freed ++ [object] ∧ rcu'.handed.Perm rcu.handed := by
  unfold invoke at ran
  split at ran
  · next freed here =>
    obtain ⟨rfl, rfl⟩ := Prod.mk.inj (Option.some.inj ran)
    obtain ⟨inside, here⟩ := List.getElem?_eq_some_iff.mp here
    have moved : (⟨freed, []⟩ :: rcu.pending.eraseIdx i).Perm rcu.pending := by
      rw [← here]
      exact List.getElem_cons_eraseIdx_perm inside
    have objects := moved.map Callback.object
    rw [List.map_cons] at objects
    refine ⟨rfl, ?_⟩
    rw [handed, handed, List.append_assoc]
    exact objects.append_left rcu.freed
  · cases ran

end Rcu

end Kcr
