import Mathlib.Data.Multiset.AddSub
import Mathlib.Tactic.Common

/-!
# Ledgers

What is taken and given back, in order. To settle a ledger is to go through it and keep what
is outstanding; this fails where something is given back that is not.
-/

namespace Kcr

inductive LedgerEntry (R : Type) where
  | takes (r : R)
  | gives (r : R)

abbrev Ledger (R : Type) := List (LedgerEntry R)

namespace Ledger

variable {R : Type} [DecidableEq R] {ledger : Ledger R} {held : Multiset R}

/-- What is outstanding after the entries, if it was `held` before. -/
def settle : Ledger R → Multiset R → Option (Multiset R)
  | [], held => some held
  | .takes r :: ledger, held => settle ledger ({r} + held)
  | .gives r :: ledger, held => if r ∈ held then settle ledger (held.erase r) else none

theorem settle_append (ledger later : Ledger R) (held : Multiset R) :
    settle (ledger ++ later) held = (settle ledger held).bind (settle later) := by
  induction ledger generalizing held with
  | nil => rfl
  | cons entry ledger ih =>
      cases entry with
      | takes r => exact ih ({r} + held)
      | gives r =>
          by_cases outstanding : r ∈ held
          · simp only [List.cons_append, settle, if_pos outstanding, ih]
          · simp only [List.cons_append, settle, if_neg outstanding, Option.bind_none]

/-- Whoever keeps the ledger owes what is outstanding, and has given nothing back twice. -/
def Owes (ledger : Ledger R) (held : Multiset R) : Prop := settle ledger 0 = some held

theorem Owes.nil : Owes ([] : Ledger R) 0 := rfl

theorem Owes.take (owes : Owes ledger held) (r : R) : Owes (ledger ++ [.takes r]) ({r} + held) := by
  rw [Owes, settle_append, owes]
  rfl

theorem Owes.give {r : R} (owes : Owes ledger ({r} + held)) : Owes (ledger ++ [.gives r]) held := by
  have outstanding : r ∈ ({r} + held : Multiset R) := by simp
  rw [Owes, settle_append, owes, Option.bind_some, settle, if_pos outstanding,
    Multiset.singleton_add, Multiset.erase_cons_head]
  rfl

end Ledger

end Kcr
