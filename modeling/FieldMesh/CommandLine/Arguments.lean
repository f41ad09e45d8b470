/-!
# Arguments of commands

How a list of arguments is read. A flag starts with two dashes and its name,
or with one dash and its letter; the value of a flag follows it, or an equals
sign, or its letter. What starts with a dash is never taken for a value on its
own, unless it is the dash alone. After two dashes alone everything is a
positional argument.

* `Grammar`: the flags and the positional argument of a command;
* `Grammar.read`: what a list of arguments says.
-/

namespace FieldMesh.CommandLine

/-- Why a list of arguments says nothing to be done. -/
inductive Usage where
  /-- Help was asked for. -/
  | help
  /-- The version was asked for. -/
  | version
  /-- The arguments are not in order. -/
  | refused
  deriving DecidableEq, Repr

/-- What a flag does with what was said so far. -/
inductive Action (σ : Type) where
  | switch (set : σ → σ)
  /-- The flag has a value, which can be refused. -/
  | value (take : String → σ → Option σ)

/-- A flag of a command. -/
structure Flag (σ : Type) where
  name : String
  letter : Option Char := none
  /-- Whether it can be given more than once. -/
  repeats : Bool := false
  action : Action σ

/-- What a command can be told. -/
structure Grammar (σ : Type) where
  flags : List (Flag σ)
  /-- The one positional argument, which has to be there. -/
  positional : String → σ → Option σ

/-- What was read so far. -/
structure Reading (σ : Type) where
  said : σ
  /-- The names of the flags that were given. -/
  given : List String := []
  /-- The flag that waits for its value. -/
  pending : Option (Flag σ) := none
  /-- Whether the positional argument was given. -/
  placed : Bool := false
  /-- Whether only positional arguments follow. -/
  literal : Bool := false

namespace Reading

/-- Notes that a flag was given, once unless it can be repeated. -/
def give (r : Reading σ) (flag : Flag σ) : Except Usage (Reading σ) :=
  if r.given.contains flag.name && !flag.repeats then .error .refused
  else .ok { r with given := flag.name :: r.given, pending := none }

/-- Gives a flag that has a value. -/
def giveValue (r : Reading σ) (flag : Flag σ) (take : String → σ → Option σ)
    (text : String) : Except Usage (Reading σ) := do
  let r ← r.give flag
  match take text r.said with
  | some said => return { r with said }
  | none => throw .refused

end Reading

/-- Whether an argument looks like a flag. -/
def looksLikeFlag (argument : String) : Bool :=
  argument.startsWith "-" && argument != "-"

namespace Grammar

/-- Reads the positional argument. -/
def readPositional (g : Grammar σ) (r : Reading σ) (text : String) :
    Except Usage (Reading σ) :=
  if r.placed then .error .refused
  else match g.positional text r.said with
    | some said => .ok { r with said, placed := true }
    | none => .error .refused

/-- Reads a flag by its name, with what follows an equals sign. -/
def readNamed (g : Grammar σ) (r : Reading σ) (name : String)
    (attached : Option String) : Except Usage (Reading σ) :=
  match g.flags.find? (·.name == name) with
  | none =>
    if name == "help" && attached.isNone then .error .help else .error .refused
  | some flag =>
    match flag.action, attached with
    | .switch set, none => do
      let r ← r.give flag
      return { r with said := set r.said }
    | .switch _, some _ => .error .refused
    | .value _, none => .ok { r with pending := some flag }
    | .value take, some text => r.giveValue flag take text

/-- Reads flags by their letters. The first one with a value takes what is
left, without an equals sign in front. -/
def readLetters (g : Grammar σ) (r : Reading σ) :
    List Char → Except Usage (Reading σ)
  | [] => .ok r
  | c :: rest =>
    match g.flags.find? (·.letter == some c) with
    | none => if c = 'h' then .error .help else .error .refused
    | some flag =>
      match flag.action with
      | .switch set => do
        let r ← r.give flag
        g.readLetters { r with said := set r.said } rest
      | .value take =>
        match rest with
        | [] => .ok { r with pending := some flag }
        | '=' :: text => r.giveValue flag take (String.ofList text)
        | text => r.giveValue flag take (String.ofList text)

/-- Reads one argument. -/
def readArgument (g : Grammar σ) (r : Reading σ) (argument : String) :
    Except Usage (Reading σ) :=
  if r.literal then g.readPositional r argument
  else match r.pending with
    | some flag =>
      match flag.action with
      | .value take =>
        if looksLikeFlag argument then .error .refused
        else r.giveValue flag take argument
      | .switch _ => .error .refused
    | none =>
      match argument.toList with
      | ['-', '-'] => .ok { r with literal := true }
      | '-' :: '-' :: rest =>
        match rest.span (· != '=') with
        | (name, _ :: value) =>
          g.readNamed r (String.ofList name) (some (String.ofList value))
        | (name, []) => g.readNamed r (String.ofList name) none
      | '-' :: c :: rest => g.readLetters r (c :: rest)
      | _ => g.readPositional r argument

/-- What a list of arguments says, beyond what is said without any. -/
def read (g : Grammar σ) (start : σ) (arguments : List String) :
    Except Usage σ := do
  let r ← arguments.foldlM g.readArgument { said := start }
  if r.pending.isSome || !r.placed then throw .refused
  return r.said

end Grammar

end FieldMesh.CommandLine
