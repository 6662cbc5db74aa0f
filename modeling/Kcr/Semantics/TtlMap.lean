import Mathlib.Logic.Function.Basic

/-!
# Maps with a time to live

What a cache with expiry is for: a key is bound to the value put last, and the binding
counts as absent once the time to live has passed since the put.
-/

namespace Kcr

/-- The value put last under each key, with the tick of that put. -/
def TtlMap (K V : Type) : Type := K → Option (V × Nat)

namespace TtlMap

variable {K V : Type} {m : TtlMap K V} {k : K} {v : V} {tick ttl now : Nat}

def empty : TtlMap K V := fun _ => none

/-- The value under a key, while fewer ticks than the time to live have passed. -/
def get (m : TtlMap K V) (k : K) (ttl now : Nat) : Option V :=
  match m k with
  | none => none
  | some (v, tick) => if now - tick < ttl then some v else none

theorem get_of_fresh (bound : m k = some (v, tick)) (fresh : now - tick < ttl) :
    m.get k ttl now = some v := by
  unfold get
  rw [bound]
  exact if_pos fresh

/-- A key has no value when it has never been put or when its last put has expired. -/
theorem get_eq_none (absent : ∀ v tick, m k = some (v, tick) → ttl ≤ now - tick) :
    m.get k ttl now = none := by
  unfold get
  split
  · rfl
  · next bound => exact if_neg (Nat.not_lt.mpr (absent _ _ bound))

variable [DecidableEq K]

def put (m : TtlMap K V) (k : K) (v : V) (tick : Nat) : TtlMap K V :=
  Function.update m k (some (v, tick))

@[simp] theorem put_same : m.put k v tick k = some (v, tick) := Function.update_self ..

theorem put_other {k' : K} (other : k' ≠ k) : m.put k v tick k' = m k' :=
  Function.update_of_ne other ..

end TtlMap

end Kcr
