import LedgerBench.CommandLine.Options
import LedgerBench.Text.Cut
/-!
The words of the command line, taken one after the other.

A setting may stand at most once in front of the subcommand and once behind it. Its value is
attached to its name with an equals sign, or is the next word, which then must not look like an
option. A value that is the next word is only checked when the next option or the end is reached
(`Words.settle`), so a request for help that comes first is answered. `Words.read` stops at the
first word that decides.
-/

namespace LedgerBench

/-- Why the words make no command: a request that is answered at once, or a mistake. -/
inductive Stop where
  | help (of : Option CallMode)
  | version
  | misuse
  deriving DecidableEq, Repr

/-- What the words at one place have said so far: the settings given, and the one whose value is
still to come or to be checked. -/
structure Words where
  given : List (Setting × String) := []
  pending : Option (Setting × Option String) := none
  deriving DecidableEq, Repr

namespace Words

/-- The value of a setting. -/
def value? (w : Words) (s : Setting) : Option String := w.given.lookup s

/-- Gives a setting a value. -/
def give (w : Words) (s : Setting) (value : String) : Except Stop Words :=
  if (w.value? s).isSome || !s.accepts value then .error .misuse
  else .ok { w with given := (s, value) :: w.given }

/-- Checks the value of the setting that is still open. -/
def settle (w : Words) : Except Stop Words :=
  match w.pending with
  | none => .ok w
  | some (_, none) => .error .misuse
  | some (s, some value) => give { w with pending := none } s value

/-- Whether the next word is the value of a setting. -/
def awaitsValue (w : Words) : Bool :=
  match w.pending with
  | some (_, none) => true
  | _ => false

/-- Takes a flag. Asking for more detail changes nothing that is printed. -/
def flag (place : Place) (w : Words) (f : Flag) : Except Stop Words := do
  let w ← w.settle
  match f with
  | .verbose => .ok w
  | .version => .error .version
  | .help => .error (.help (match place with
      | .front => none
      | .behind mode => some mode))

/-- Takes the letters behind one hyphen, each of which is a flag. -/
def letters (place : Place) (w : Words) : List Char → Except Stop Words
  | [] => .ok w
  | c :: cs =>
    match Flag.ofLetter? place c with
    | none => .error .misuse
    | some f => do letters place (← w.flag place f) cs

/-- Takes a long option, with the value attached to it if there is one. -/
def long (place : Place) (w : Words) (name : String) (attached : Option String) :
    Except Stop Words :=
  match Flag.ofName? place name, Setting.ofName? place name, attached with
  | some f, _, none => w.flag place f
  | none, some s, some value => do (← w.settle).give s value
  | none, some s, none => do
    let w ← w.settle
    .ok { w with pending := some (s, none) }
  | _, _, _ => .error .misuse

/-- What a word looks like. -/
inductive Shape where
  /-- Two hyphens: no options follow. -/
  | endOfOptions
  | long (name : String) (attached : Option String)
  | letters (cs : List Char)
  | plain
  deriving DecidableEq, Repr

/-- The shape of a word. One hyphen alone is a plain word. -/
def shape (word : String) : Shape :=
  match word.toList with
  | ['-', '-'] => .endOfOptions
  | '-' :: '-' :: rest =>
    match Text.cut ['='] rest with
    | some (name, value) => .long (String.ofList name) (some (String.ofList value))
    | none => .long (String.ofList rest) none
  | ['-'] => .plain
  | '-' :: cs => .letters cs
  | _ => .plain

/-- Takes one word at a place; `none` where it ends the options. A plain word is only good as the
value of a setting. -/
def take (place : Place) (w : Words) (word : String) : Except Stop (Option Words) :=
  match shape word with
  | .endOfOptions => .ok none
  | .long name attached => do pure (some (← w.long place name attached))
  | .letters cs => do pure (some (← w.letters place cs))
  | .plain =>
    match w.pending with
    | some (s, none) => .ok (some { w with pending := some (s, some word) })
    | _ => .error .misuse

/-- Takes all words behind a subcommand. Where the options end, the words must end too. -/
def readBehind (mode : CallMode) (w : Words) : List String → Except Stop Words
  | [] => w.settle
  | word :: rest => do
    match ← w.take (.behind mode) word with
    | some w => readBehind mode w rest
    | none => if rest = [] then w.settle else .error .misuse

end Words

/-- A subcommand: what to do with a batch, or help on the commands. -/
inductive Subcommand where
  | calls (mode : CallMode)
  | help
  deriving DecidableEq, Repr

/-- The subcommand with a name. -/
def Subcommand.ofName? (s : String) : Option Subcommand :=
  if s = "invoke" then some (.calls .submit)
  else if s = "query" then some (.calls .query)
  else if s = "help" then some .help
  else none

/-- What help was asked for by the words behind `help`: on one command or on all. -/
def Stop.helpOn : List String → Stop
  | [] => .help none
  | [name] =>
    match Subcommand.ofName? name with
    | some (.calls mode) => .help (some mode)
    | some .help => .help none
    | none => .misuse
  | _ => .misuse

namespace Words

/-- The subcommand that a word in front of it stands for, unless the word is the value of a
setting. -/
def subcommand? (w : Words) (word : String) : Option Subcommand :=
  if w.awaitsValue then none else Subcommand.ofName? word

/-- Takes all words: those in front of the subcommand, the subcommand, and those behind it. -/
def readFront (w : Words) : List String → Except Stop (CallMode × Words × Words)
  | [] => .error .misuse
  | word :: rest =>
    match w.subcommand? word with
    | some .help => .error (Stop.helpOn rest)
    | some (.calls mode) => do
      let behind ← readBehind mode {} rest
      pure (mode, ← w.settle, behind)
    | none => do
      match ← w.take .front word with
      | some w => readFront w rest
      | none => .error .misuse

/-- Takes all words of a command line. -/
def read (words : List String) : Except Stop (CallMode × Words × Words) := readFront {} words

end Words

end LedgerBench
