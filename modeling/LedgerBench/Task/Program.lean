import LedgerBench.Task.Event
import LedgerBench.Template.Form
/-!
Programs: what a running task does to the world, one step at a time.

A task shares the ledger, the clock, the template scope and the event channel with every other task.
A `Program` is a tree of requests to that world: it is done with a value, or it has one `Effect` for
the world and goes on with the answer. What a task does under every behaviour of the ledger is the
set of paths through its tree (`Program.Path`), and how several tasks run side by side is a matter
of whose effect is answered next. `Program.interpret` runs a program in any monad that answers
effects.
-/

namespace LedgerBench

/-- What the ledger makes of a request: an answer, an error, or a panic with what it says. -/
inductive Reply (α : Type) where
  | answered (value : α)
  | failed (error : TransportError)
  | panicked (reason : String)
  deriving DecidableEq, Repr

/-- A request of a task to what it shares with other tasks. -/
inductive Effect where
  | now
  | resolve (form : Form) (body : List Char)
  /-- Submits a call and waits until it is committed. -/
  | submit (request : Request)
  /-- Sends a query and waits for its endorsements. -/
  | query (request : Request)
  | sleep (delay : Duration)
  | emit (event : Event)
  deriving DecidableEq

/-- The request of an effect that has one for the ledger, and how it is to be taken. -/
def Effect.call? : Effect → Option (CallMode × Request)
  | .submit request => some (.submit, request)
  | .query request => some (.query, request)
  | .now | .resolve _ _ | .sleep _ | .emit _ => none

abbrev Effect.Answer : Effect → Type
  | .now => Duration
  | .resolve _ _ => Resolution
  | .submit _ => Reply TxResponse
  | .query _ => Reply QueryResponse
  | .sleep _ => Unit
  | .emit _ => Unit

instance : (effect : Effect) → DecidableEq effect.Answer
  | .now => inferInstanceAs (DecidableEq Duration)
  | .resolve _ _ => Resolution.decEq
  | .submit _ => inferInstanceAs (DecidableEq (Reply TxResponse))
  | .query _ => inferInstanceAs (DecidableEq (Reply QueryResponse))
  | .sleep _ => inferInstanceAs (DecidableEq Unit)
  | .emit _ => inferInstanceAs (DecidableEq Unit)

/-- A computation that is done, or has an effect and goes on with its answer. -/
inductive Program (α : Type) where
  | done (value : α)
  | act (effect : Effect) (next : effect.Answer → Program α)

namespace Program

/-- Runs a program and then another one with its value. -/
def bind {α β : Type} (p : Program α) (f : α → Program β) : Program β :=
  match p with
  | done a => f a
  | act effect next => act effect fun answer => bind (next answer) f

instance : Monad Program where
  pure := done
  bind := bind

/-- The program with one effect. -/
def perform (effect : Effect) : Program effect.Answer := act effect done

def now : Program Duration := perform .now

def resolve (form : Form) (body : List Char) : Program Resolution := perform (.resolve form body)

def sleep (delay : Duration) : Program Unit := perform (.sleep delay)

def emit (event : Event) : Program Unit := perform (.emit event)

/-- Runs a program in a monad that answers its effects. -/
def interpret {m : Type → Type} [Monad m] {α : Type}
    (answer : (effect : Effect) → m effect.Answer) :
    Program α → m α
  | done a => pure a
  | act effect next => do
    let reply ← answer effect
    interpret answer (next reply)

/-- An effect and the answer it got. -/
structure Exchange where
  effect : Effect
  answer : effect.Answer
  deriving DecidableEq

/-- A path through a program: the exchanges it makes, in order, and the value it ends with. -/
inductive Path {α : Type} : Program α → List Exchange → α → Prop where
  | done (a : α) : Path (done a) [] a
  | act {effect : Effect} {next : effect.Answer → Program α} {answer : effect.Answer}
      {rest : List Exchange} {a : α} (tail : Path (next answer) rest a) :
      Path (act effect next) (⟨effect, answer⟩ :: rest) a

@[simp] theorem bind_done {α β : Type} (a : α) (f : α → Program β) : bind (done a) f = f a := rfl

@[simp] theorem bind_act {α β : Type} (effect : Effect) (next : effect.Answer → Program α)
    (f : α → Program β) :
    bind (act effect next) f = act effect fun answer => bind (next answer) f :=
  rfl

theorem bind_done_right {α : Type} (p : Program α) : bind p done = p := by
  induction p with
  | done a => rfl
  | act effect next ih => simp [ih]

theorem bind_assoc {α β γ : Type} (p : Program α) (f : α → Program β) (g : β → Program γ) :
    bind (bind p f) g = bind p fun a => bind (f a) g := by
  induction p with
  | done a => rfl
  | act effect next ih => simp [ih]

instance : LawfulMonad Program :=
  LawfulMonad.mk' Program bind_done_right (fun _ _ => rfl) bind_assoc

end Program

end LedgerBench
