import OtelNetwork.FixedHash.Lru
import OtelNetwork.Lib.Simulation
import Mathlib.Data.List.Sigma

/-!
# What an LRU cache is

A cache of capacity `size` holds distinct keys with their values, from the least to the most
recently used. Finding a key answers its value and makes it the most recent; removing a key
drops it. Inserting a key that is not there appends it, after dropping the least recently used
key when `size` keys are held; inserting a key that is there answers nothing and changes
nothing.
-/

namespace OtelNetwork.LRU

variable {K T : Type} [DecidableEq K]

/-- The keys with their values, from the least to the most recently used. -/
abbrev AbsLru (K T : Type) := List ((_ : K) × T)

/-- Finding a key. -/
def absFind (A : AbsLru K T) (k : K) : Option T × AbsLru K T :=
  match A.dlookup k with
  | some v => (some v, A.kerase k ++ [⟨k, v⟩])
  | none => (none, A)

/-- Inserting a key with its value. -/
def absInsert (size : Nat) (A : AbsLru K T) (k : K) (v : T) : Option T × AbsLru K T :=
  if k ∈ A.keys then (none, A) else (some v, (if A.length = size then A.tail else A) ++ [⟨k, v⟩])

/-- Removing a key. -/
def absRemove (A : AbsLru K T) (k : K) : AbsLru K T := A.kerase k

/-- One call. -/
def absStep (size : Nat) (A : AbsLru K T) : Op K T → Out T × AbsLru K T
  | .find k => ((.find (absFind A k).1), (absFind A k).2)
  | .insert k v => ((.insert (absInsert size A k v).1), (absInsert size A k v).2)
  | .remove k => (.remove, absRemove A k)

/-- The answers of a list of calls, and the cache after them. -/
def absRun (size : Nat) (A : AbsLru K T) (ops : List (Op K T)) : List (Out T) × AbsLru K T :=
  Simulation.runFn (absStep size) A ops

end OtelNetwork.LRU
