import HardcodedText.Text.Basic

/-!
Delayed calls, at most one for each key. Scheduling a key again cancels the call that waits under
it. The debouncer also keeps the calls that have ended and how, in the order in which they ended.
-/

namespace HardcodedText

structure DelayedCall (α : Type) where
  number : Nat
  key : Text
  action : α
  deriving DecidableEq, Repr

inductive Ending (ε : Type)
  | cancelled
  | completed
  /-- The call failed and its handler took the error. -/
  | handled (error : ε)
  /-- The call failed and had no handler. -/
  | failed (error : ε)
  deriving DecidableEq, Repr

structure Debouncer (α ε : Type) where
  nextNumber : Nat := 0
  waiting : List (DelayedCall α) := []
  ended : List (DelayedCall α × Ending ε) := []
  deriving DecidableEq, Repr

/-- The state in which delayed calls run: where it holds their debouncer, what a call does to it,
and what the handler of a call does with an error, if the call has a handler. -/
structure Host (α ε σ : Type) where
  debouncer : σ → Debouncer α ε
  modify : (Debouncer α ε → Debouncer α ε) → σ → σ
  call : DelayedCall α → σ → σ × Except ε Unit
  onError : DelayedCall α → Option (ε → σ → σ)

namespace Debouncer

variable {α ε σ : Type}

def pending (debouncer : Debouncer α ε) : List Text :=
  debouncer.waiting.map DelayedCall.key

def cancel (debouncer : Debouncer α ε) (key : Text) : Debouncer α ε :=
  let (cancelled, left) := debouncer.waiting.partition fun delayed => delayed.key == key
  { debouncer with
    waiting := left
    ended := debouncer.ended ++ cancelled.map fun delayed => (delayed, .cancelled) }

def cancelAll (debouncer : Debouncer α ε) : Debouncer α ε :=
  debouncer.pending.foldl cancel debouncer

def schedule (debouncer : Debouncer α ε) (key : Text) (action : α) : Debouncer α ε :=
  let cleared := debouncer.cancel key
  { cleared with
    nextNumber := cleared.nextNumber + 1
    waiting := cleared.waiting ++ [⟨cleared.nextNumber, key, action⟩] }

def isWaiting (debouncer : Debouncer α ε) (number : Nat) : Bool :=
  debouncer.waiting.any fun delayed => delayed.number == number

def release (debouncer : Debouncer α ε) (number : Nat) : Debouncer α ε :=
  { debouncer with waiting := debouncer.waiting.filter fun delayed => delayed.number != number }

def finish (debouncer : Debouncer α ε) (delayed : DelayedCall α) (ending : Ending ε) :
    Debouncer α ε :=
  { debouncer with ended := debouncer.ended ++ [(delayed, ending)] }

def runCall (host : Host α ε σ) (delayed : DelayedCall α) (state : σ) : σ × Ending ε :=
  match host.call delayed state with
  | (after, .ok ()) => (after, .completed)
  | (after, .error error) =>
      match host.onError delayed with
      | some handler => (handler error after, .handled error)
      | none => (after, .failed error)

/-- Ends the delay of one call: it stops waiting and runs, unless it has been cancelled. The call
may itself schedule and cancel. -/
def expire (host : Host α ε σ) (delayed : DelayedCall α) (state : σ) : σ :=
  if (host.debouncer state).isWaiting delayed.number then
    let (after, ending) := runCall host delayed (host.modify (·.release delayed.number) state)
    host.modify (·.finish delayed ending) after
  else state

end Debouncer

end HardcodedText
