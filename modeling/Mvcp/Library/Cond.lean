import Mathlib.Tactic.Common

/-!
# Condition variables

A condition variable hands out tickets in order. A waiter takes the next ticket in the critical
section in which it decides to wait, and a broadcast wakes the holders of all tickets handed out
so far. No waiter wakes without a broadcast.

## Main definitions

* `Cond`: the next ticket, and the first ticket not yet woken
* `Cond.enqueue`, `Cond.broadcast`, `Cond.woken`
* `Cond.Waits`: until it is woken, the holder of a ticket has nothing to do

## Main results

* `Cond.woken_broadcast`: a broadcast wakes every ticket handed out before it
* `Cond.Waits.take`, `Cond.Waits.broadcast`, `Cond.Waits.imp`: how steps under the lock keep
  waiters waiting for good reason
-/

namespace Library

/-- A condition variable. -/
structure Cond where
  /-- The next ticket. -/
  wait : ℕ := 0
  /-- Tickets below this one have been woken. -/
  notify : ℕ := 0
  deriving DecidableEq

namespace Cond

/-- A waiter takes the ticket `c.wait`. -/
def enqueue (c : Cond) : Cond := { c with wait := c.wait + 1 }

/-- Wake all waiters. -/
def broadcast (c : Cond) : Cond := { c with notify := c.wait }

/-- The holder of the ticket was woken. -/
def woken (c : Cond) (ticket : ℕ) : Bool := decide (ticket < c.notify)

@[simp] theorem wait_enqueue (c : Cond) : c.enqueue.wait = c.wait + 1 := rfl

@[simp] theorem wait_broadcast (c : Cond) : c.broadcast.wait = c.wait := rfl

@[simp] theorem woken_enqueue (c : Cond) (t : ℕ) : c.enqueue.woken t = c.woken t := rfl

theorem woken_broadcast {c : Cond} {t : ℕ} (h : t < c.wait) : c.broadcast.woken t = true :=
  decide_eq_true h

/-! ## Waiting for something -/

/-- The holder of a ticket waits for good reason: until it is woken, there is nothing to do. -/
structure Waits (c : Cond) (ticket : ℕ) (idle : Prop) : Prop where
  issued : ticket < c.wait
  idle : c.woken ticket = false → idle

namespace Waits

variable {c : Cond} {ticket : ℕ} {idle idle' : Prop}

/-- The ticket that a waiter takes when it has found nothing to do. -/
theorem take (h : idle) : c.enqueue.Waits c.wait idle := ⟨Nat.lt_succ_self _, fun _ => h⟩

/-- Another waiter takes a ticket. -/
theorem enqueue (h : c.Waits ticket idle) : c.enqueue.Waits ticket idle :=
  ⟨Nat.lt_succ_of_lt h.issued, h.idle⟩

/-- A broadcast, whatever there is to do after it. -/
theorem broadcast (h : c.Waits ticket idle) : c.broadcast.Waits ticket idle' :=
  ⟨h.issued, fun hw => by simp [woken_broadcast h.issued] at hw⟩

/-- A step that leaves nothing to do needs no broadcast. -/
theorem imp (h : c.Waits ticket idle) (hi : c.woken ticket = false → idle → idle') :
    c.Waits ticket idle' :=
  ⟨h.issued, fun hw => hi hw (h.idle hw)⟩

end Waits

end Cond

end Library
