import Mathlib

/-!
# Counters that wrap upwards and clamp downwards

A ledger keeps one bounded counter per tag. A move adds an amount modulo `M`
or subtracts one and stops at zero.
-/

namespace TairKvCache.Lib

namespace Ledger

variable {T : Type*} [DecidableEq T]

inductive Move where
  | add (n : Nat)
  | sub (n : Nat)

/-- Replace an amount by another one in a single move. -/
def Move.change (old new : Nat) : Move :=
  if old ≤ new then .add (new - old) else .sub (old - new)

def Move.apply (M c : Nat) : Move → Nat
  | .add n => (c + n) % M
  | .sub n => c - n

structure Entry (T : Type*) where
  tag : T
  move : Move

def post (M : Nat) (u : T → Nat) (e : Entry T) : T → Nat :=
  Function.update u e.tag (e.move.apply M (u e.tag))

def postAll (M : Nat) (u : T → Nat) (es : List (Entry T)) : T → Nat :=
  es.foldl (post M) u

end Ledger

end TairKvCache.Lib
