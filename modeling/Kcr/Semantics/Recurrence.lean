import Mathlib.Data.List.Count
import Mathlib.Data.List.Perm.Basic
import Mathlib.Logic.Function.Iterate

/-!
# Lists that a map permutes

A map that sends a list to a permutation of itself does so however often it is applied. If
it sends everything to one value in the end, the list holds nothing else. Counting is enough
to see such a permutation: no value may be rarer in the image.
-/

namespace Kcr

variable {A : Type} {f : A → A} {l : List A}

theorem perm_map_iterate (permutes : (l.map f).Perm l) (n : Nat) : (l.map f^[n]).Perm l := by
  induction n with
  | zero => simp
  | succ n ih =>
      have once : l.map f^[n + 1] = (l.map f).map f^[n] := by
        rw [List.map_map, Function.iterate_succ]
      rw [once]
      exact (permutes.map f^[n]).trans ih

/-- All values are the one that the iterated map sends them to. -/
theorem eq_of_perm_map (permutes : (l.map f).Perm l) {n : Nat} {z : A}
    (constant : ∀ a, f^[n] a = z) : ∀ a ∈ l, a = z := by
  intro a member
  have image := (perm_map_iterate permutes n).mem_iff.mpr member
  obtain ⟨b, _, rfl⟩ := List.mem_map.mp image
  exact constant b

/-- A map permutes a list when every value of the list occurs as often in the image. -/
theorem perm_map_of_count [DecidableEq A]
    (same : ∀ a ∈ l, l.count a ≤ (l.map f).count a) : (l.map f).Perm l := by
  have subperm : l.Subperm (l.map f) := List.subperm_ext_iff.mpr same
  exact (subperm.perm_of_length_le (by simp)).symm

end Kcr
