/-!
# Command line arguments

The program has four commands.  Options may stand before the command or after it, and
one given after it overrides the same one given before; but each may come only once on
each side.  The option `--config` takes a value, written after an equals sign or as
the next argument, which then must not look like an option itself.  `--` ends the
options; no command can follow it.

Asking for the version is an option before the command.  It ends the reading of
arguments at once, so that what follows is not looked at, but a fault before it counts.

## What is left out

There is no help here: `--help`, `-h` and `help`, which would show a longer text and count as
a success, make no sense like any other argument that is not known.  And what is wrong with
arguments that make no sense is not said, only how the program is used (`usage`).

## Two passes

`pieces` tells options, their values and words apart, one argument after the other, and
stops at the first argument that it cannot make out.  `request` then walks along the
pieces, so a fault only counts if it gets there.
-/

namespace Abacus.App

/-- Commands. -/
inductive Command where
  /-- Hold a conversation. -/
  | repl
  /-- Evaluate some inputs in one session. -/
  | eval (inputs : List String)
  /-- Show the tokens of an input. -/
  | parse (input : String)
  /-- Make a settings file. -/
  | init
  deriving DecidableEq, Repr

/-- Options. -/
structure Options where
  /-- The settings file to use. -/
  config : Option String := none
  /-- Whether colours are switched off. -/
  noColor : Bool := false
  deriving DecidableEq, Repr

/-- What the arguments ask for. -/
inductive Request where
  | run (options : Options) (command : Command)
  | version
  /-- The arguments make no sense. -/
  | misuse
  deriving DecidableEq, Repr

namespace Arguments

/-- A piece of the command line. -/
inductive Piece where
  /-- The option `--config` with its value. -/
  | config (path : String)
  | noColor
  | version
  /-- An argument that is no option. -/
  | word (s : String)
  /-- An argument after `--`. -/
  | plain (s : String)
  /-- An argument that cannot be made out.  Nothing follows it. -/
  | fault
  deriving DecidableEq, Repr

/-- Whether an argument looks like an option.  A lone dash does not. -/
def looksLikeOption (arg : String) : Bool :=
  arg.toList.head? == some '-' && arg != "-"

/-- The value of a setting that is written with an equals sign. -/
def valueOf? (start arg : String) : Option String :=
  if start.toList.isPrefixOf arg.toList then some (String.ofList (arg.toList.drop start.length))
  else none

/-- Whether an argument asks for the version.  The short form may have more letters
after it. -/
def asksVersion (arg : String) : Bool :=
  arg == "--version" || "-V".toList.isPrefixOf arg.toList

/-- The pieces of the command line. -/
def pieces : List String → List Piece
  | [] => []
  | "--" :: args => args.map .plain
  | "--no-color" :: args => .noColor :: pieces args
  | ["--config"] => [.fault]
  | "--config" :: path :: args =>
      if path.isEmpty || looksLikeOption path then [.fault] else .config path :: pieces args
  | arg :: args =>
      match valueOf? "--config=" arg with
      | some path => if path.isEmpty then [.fault] else .config path :: pieces args
      | none =>
          if asksVersion arg then .version :: pieces args
          else if looksLikeOption arg then [.fault]
          else .word arg :: pieces args

/-- Options on one side of the command, with one more. -/
def addConfig (o : Options) (path : String) : Option Options :=
  if o.config.isSome then none else some { o with config := some path }

/-- Options on one side of the command, with one more. -/
def addNoColor (o : Options) : Option Options :=
  if o.noColor then none else some { o with noColor := true }

/-- The options after the command and the words there, in their order. -/
def afterCommand (o : Options) : List Piece → Option (Options × List String)
  | [] => some (o, [])
  | .config path :: ps => (addConfig o path).bind fun o => afterCommand o ps
  | .noColor :: ps => (addNoColor o).bind fun o => afterCommand o ps
  | .word s :: ps => (afterCommand o ps).map fun r => (r.1, s :: r.2)
  | .plain s :: ps => (afterCommand o ps).map fun r => (r.1, s :: r.2)
  | .version :: _ => none
  | .fault :: _ => none

/-- The command of that name with those words. -/
def command? (name : String) (words : List String) : Option Command :=
  match name, words with
  | "repl", [] => some .repl
  | "eval", w :: ws => some (.eval (w :: ws))
  | "parse", [w] => some (.parse w)
  | "init", [] => some .init
  | _, _ => none

/-- The options of both sides together. -/
def merge (before after : Options) : Options where
  config := after.config.or before.config
  noColor := before.noColor || after.noColor

/-- The request that some pieces make, after some options. -/
def requestFrom (o : Options) : List Piece → Request
  | [] => .run o .repl
  | .config path :: ps =>
      match addConfig o path with
      | some o => requestFrom o ps
      | none => .misuse
  | .noColor :: ps =>
      match addNoColor o with
      | some o => requestFrom o ps
      | none => .misuse
  | .version :: _ => .version
  | .word name :: ps =>
      match afterCommand {} ps with
      | some (after, words) =>
          match command? name words with
          | some c => .run (merge o after) c
          | none => .misuse
      | none => .misuse
  | .plain _ :: _ => .misuse
  | .fault :: _ => .misuse

/-- How the program is used.  This text stands for all that is said of arguments that make no
sense, whatever is wrong with them. -/
def usage : String :=
  "usage: zappac [--config <path>] [--no-color] [--version] " ++
    "[repl | eval <input>... | parse <input> | init]"

/-- The request that the arguments make. -/
def request (args : List String) : Request := requestFrom {} (pieces args)

end Arguments

end Abacus.App
