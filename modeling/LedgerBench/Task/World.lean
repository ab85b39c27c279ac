import LedgerBench.Task.Tree
import LedgerBench.Template.Resolve
import LedgerBench.Ledger.Basic
/-!
The world that answers a program's effects.

A `World` holds what tasks share: the template scope, the ledger's state, the clock, and the
events that were reported and that nobody has taken yet. `World.answer` answers one effect, a
request to the ledger by the service that is to serve it, and says how long the program that had
the effect must wait; the clock itself is moved by whoever runs the program. `Program.run` runs
one program alone, so that its waits add up, and makes it a function of the world it starts in.
-/

namespace LedgerBench

/-- What tasks share. -/
structure World (σ : Type) where
  scope : Scope
  ledger : σ
  clock : Duration := Duration.zero
  /-- The events that were reported and not yet taken, the latest first. -/
  reported : List Event := []

/-- The answer to an effect, how long it takes, and the world after it. -/
structure Answered (σ α : Type) where
  answer : α
  took : Duration := Duration.zero
  world : World σ

namespace World

/-- The events that were reported and not yet taken, in order. -/
def events {σ : Type} (w : World σ) : List Event := w.reported.reverse

/-- What a served request makes of the world. -/
def serve {σ α : Type} (w : World σ) (s : Served σ α) : Answered σ (Reply α) where
  answer := s.reply
  took := s.took
  world := { w with ledger := s.next }

def answer {σ : Type} (service : Service σ) (effect : Effect) (w : World σ) :
    Answered σ effect.Answer :=
  match effect with
  | .now => { answer := w.clock, world := w }
  | .resolve form body =>
    let (resolution, scope) := w.scope.resolve form body
    { answer := resolution, world := { w with scope } }
  | .submit request => w.serve (service.submit request w.ledger)
  | .query request => w.serve (service.query request w.ledger)
  | .sleep delay => { answer := (), took := delay.waited, world := w }
  | .emit event => { answer := (), world := { w with reported := event :: w.reported } }

def later {σ : Type} (w : World σ) (time : Duration) : World σ := { w with clock := w.clock + time }

end World

/-- Runs a program alone in a world. -/
def Program.run {σ α : Type} (ledger : Ledger σ) : Program α → World σ → α × World σ
  | .done a, w => (a, w)
  | .act effect next, w =>
    let a := w.answer ledger.alone effect
    run ledger (next a.answer) (a.world.later a.took)

end LedgerBench
