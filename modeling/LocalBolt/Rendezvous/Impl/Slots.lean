import LocalBolt.Machine.Basic
import Mathlib.Algebra.Group.Nat.Defs
import Mathlib.Logic.Function.Basic

/-!
This module contains the connection slots of the signaling server: the counter that
`try_acquire_slot` reads and exchanges and that a dropped `ConnectionGuard` decrements.
-/

namespace LocalBolt

namespace Rendezvous

/--
A call of `try_acquire_slot`, between its atomic steps. What `compare_exchange` finds when it fails
is not used: the loop loads again.
-/
inductive Acquire (w : Nat) where
  | idle
  | load
  | compareExchange (current : BitVec w)
  | returned (guard : Bool)
  deriving DecidableEq

/--
The counter `active_connections`, how many `ConnectionGuard`s there are, and where each task is.
-/
structure Slots (τ : Type) (w : Nat) where
  active : BitVec w
  guards : Nat
  pc : τ → Acquire w

namespace Slots

inductive Action (τ : Type) where
  | call (task : τ)
  | step (task : τ)
  | drop

variable {τ : Type} [DecidableEq τ] {w : Nat}

def start : Slots τ w where
  active := 0
  guards := 0
  pc _ := .idle

def move (s : Slots τ w) (task : τ) (pc : Acquire w) : Slots τ w :=
  { s with pc := Function.update s.pc task pc }

def tryAcquireSlot (maxConnections : BitVec w) (s : Slots τ w) (task : τ) : Option (Slots τ w) :=
  match s.pc task with
  | .load =>
    let current := s.active
    if current ≥ maxConnections then
      some (s.move task (.returned false))
    else
      some (s.move task (.compareExchange current))
  | .compareExchange current =>
    if s.active = current then
      some ({ s with active := current + 1, guards := s.guards + 1 }.move task (.returned true))
    else
      some (s.move task .load)
  | _ => none

def next (maxConnections : BitVec w) (s : Slots τ w) : Action τ → Option (Slots τ w)
  | .call task =>
    match s.pc task with
    | .idle | .returned _ => some (s.move task .load)
    | _ => none
  | .step task => s.tryAcquireSlot maxConnections task
  | .drop =>
    -- `fetch_sub`, which wraps
    if 0 < s.guards then some { s with active := s.active - 1, guards := s.guards - 1 } else none

def machine (τ : Type) [DecidableEq τ] (maxConnections : BitVec w) : Machine (Slots τ w) (Action τ) :=
  .ofFun start (next maxConnections)

end Slots

end Rendezvous

end LocalBolt
