import ExtensionLock.Path

/-! The arguments of the program. Options that hold for every command may stand before the command
or behind it, and count for more behind it. -/

namespace ExtensionLock.CommandLine

inductive Command where
  | list (json : Bool)
  | check
  | diff (old new : Path)
  | prune (dryRun : Bool)
  | init
  deriving DecidableEq, Repr

structure Options where
  config : Option String
  lockfile : Option String
  lockfileMode : Option String
  workspace : Option String
  deriving DecidableEq, Repr

inductive Request where
  | run (options : Options) (command : Command)
  | help
  | version
  deriving DecidableEq, Repr

inductive UsageError where
  | unknownArgument (text : String)
  | unexpectedValue (name : String)
  | missingValue (name : String)
  | repeated (name : String)
  | emptyPath (name : String)
  | unknownCommand (name : String)
  | missingCommand
  | missingPath
  deriving DecidableEq, Repr

inductive Valued where
  | config
  | lockfile
  | lockfileMode
  | workspace
  deriving DecidableEq, Repr

namespace Valued

def all : List Valued := [.config, .lockfile, .lockfileMode, .workspace]

def name : Valued → String
  | .config => "config"
  | .lockfile => "lockfile"
  | .lockfileMode => "lockfile-mode"
  | .workspace => "workspace"

def letter : Valued → Option Char
  | .config => some 'c'
  | .workspace => some 'w'
  | _ => none

def isPath (v : Valued) : Bool := v != .lockfileMode

def ofName? (s : String) : Option Valued := all.find? (fun v => v.name == s)

def ofLetter? (c : Char) : Option Valued := all.find? (fun v => v.letter == some c)

end Valued

namespace Options

def empty : Options := ⟨none, none, none, none⟩

def get? (o : Options) : Valued → Option String
  | .config => o.config
  | .lockfile => o.lockfile
  | .lockfileMode => o.lockfileMode
  | .workspace => o.workspace

def set (o : Options) (v : Valued) (value : String) : Options :=
  match v with
  | .config => { o with config := some value }
  | .lockfile => { o with lockfile := some value }
  | .lockfileMode => { o with lockfileMode := some value }
  | .workspace => { o with workspace := some value }

def give (o : Options) (v : Valued) (value : String) : Except UsageError Options :=
  if (o.get? v).isSome then .error (.repeated v.name)
  else if v.isPath && value == "" then .error (.emptyPath v.name)
  else .ok (o.set v value)

def under (o inner : Options) : Options :=
  ⟨inner.config <|> o.config, inner.lockfile <|> o.lockfile,
    inner.lockfileMode <|> o.lockfileMode, inner.workspace <|> o.workspace⟩

def workspacePath (o : Options) : Path := ⟨o.workspace.getD "."⟩

end Options

inductive CommandName where
  | list
  | check
  | diff
  | prune
  | init
  deriving DecidableEq, Repr

namespace CommandName

def ofText? (s : String) : Option CommandName :=
  [("show", list), ("check", check), ("diff", diff), ("prune", prune), ("init", init)].lookup s

def flag? : CommandName → Option String
  | .list => some "json"
  | .prune => some "dry-run"
  | _ => none

def arity : CommandName → Nat
  | .diff => 2
  | _ => 0

end CommandName

inductive Shape where
  /-- two hyphens alone: what follows is no option -/
  | separator
  | long (name : List Char) (value : Option (List Char))
  | short (letter : Char) (rest : List Char)
  | word
  deriving DecidableEq, Repr

def shapeOf (arg : String) : Shape :=
  match arg.toList with
  | ['-', '-'] => .separator
  | '-' :: '-' :: rest =>
    match Text.cutAt '=' rest with
    | some (name, value) => .long name (some value)
    | none => .long rest none
  | '-' :: letter :: rest => .short letter rest
  | _ => .word

/-- The value that is written together with a letter; an equals sign between them is dropped. -/
def attached : List Char → Option String
  | [] => none
  | '=' :: rest => some (String.ofList rest)
  | rest => some (String.ofList rest)

structure Collected where
  options : Options
  flag : Bool
  paths : List String

inductive LevelEnd where
  | finished (c : Collected)
  /-- a command was met, with what follows it -/
  | command (name : CommandName) (c : Collected) (rest : List String)
  | helpCommand (rest : List String)
  | help
  | version

/-- What a level understands: before the command its name, and behind it the flag and the paths of
the command. -/
abbrev Level := Option CommandName

def addPath (level : Level) (c : Collected) (arg : String) : Except UsageError Collected :=
  match level with
  | none => .error (.unknownCommand arg)
  | some command =>
    if c.paths.length < command.arity then
      if arg = "" then .error (.emptyPath arg) else .ok { c with paths := c.paths ++ [arg] }
    else .error (.unknownArgument arg)

def readLevel (level : Level) : Bool → Collected → List String → Except UsageError LevelEnd
  | _, c, [] => .ok (.finished c)
  | true, c, arg :: rest => do readLevel level true (← addPath level c arg) rest
  | false, c, arg :: rest =>
    match shapeOf arg with
    | .separator => readLevel level true c rest
    | .long name value =>
      let name := String.ofList name
      match Valued.ofName? name, value, rest with
      | some v, some value, rest => do
        let options ← c.options.give v (String.ofList value)
        readLevel level false { c with options } rest
      | some v, none, value :: rest =>
        if shapeOf value = .word then do
          let options ← c.options.give v value
          readLevel level false { c with options } rest
        else .error (.missingValue name)
      | some _, none, [] => .error (.missingValue name)
      | none, some _, _ => .error (.unexpectedValue name)
      | none, none, rest =>
        if name = "help" then .ok .help
        else if name = "version" ∧ level = none then .ok .version
        else if level.bind CommandName.flag? = some name then
          if c.flag then .error (.repeated name)
          else readLevel level false { c with flag := true } rest
        else .error (.unknownArgument arg)
    | .short letter tail =>
      match Valued.ofLetter? letter, attached tail, rest with
      | some v, some value, rest => do
        let options ← c.options.give v value
        readLevel level false { c with options } rest
      | some v, none, value :: rest =>
        if shapeOf value = .word then do
          let options ← c.options.give v value
          readLevel level false { c with options } rest
        else .error (.missingValue v.name)
      | some v, none, [] => .error (.missingValue v.name)
      | none, _, _ =>
        if letter = 'h' then .ok .help
        else if letter = 'V' ∧ level = none then .ok .version
        else .error (.unknownArgument arg)
    | .word =>
      match level, CommandName.ofText? arg with
      | none, some name => .ok (.command name c rest)
      | none, none =>
        if arg = "help" then .ok (.helpCommand rest) else .error (.unknownCommand arg)
      | some _, _ => do readLevel level false (← addPath level c arg) rest

def command (name : CommandName) (c : Collected) : Except UsageError Command :=
  match name, c.paths with
  | .list, _ => .ok (.list c.flag)
  | .check, _ => .ok .check
  | .diff, [old, new] => .ok (.diff ⟨old⟩ ⟨new⟩)
  | .diff, _ => .error .missingPath
  | .prune, _ => .ok (.prune c.flag)
  | .init, _ => .ok .init

def readHelp : List String → Except UsageError Request
  | [] => .ok .help
  | name :: rest =>
    if name = "help" then readHelp rest
    else match CommandName.ofText? name, rest with
      | some _, [] => .ok .help
      | some _, extra :: _ => .error (.unknownCommand extra)
      | none, _ => .error (.unknownCommand name)

def parse (args : List String) : Except UsageError Request := do
  let start : Collected := ⟨.empty, false, []⟩
  match ← readLevel none false start args with
  | .finished _ => .error .missingCommand
  | .help => pure .help
  | .version => pure .version
  | .helpCommand rest => readHelp rest
  | .command name outer rest =>
    match ← readLevel (some name) false start rest with
    | .finished inner => pure (.run (outer.options.under inner.options) (← command name inner))
    | _ => pure .help

end ExtensionLock.CommandLine
