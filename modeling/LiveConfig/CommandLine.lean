/-!
# Command line

The options of the program. Each of them takes a value, given behind an equals sign or as the next
argument, and may also be set by a variable of the environment. An option may be given once, paths
must not be empty, and only one way of refreshing the application may be chosen.

Arguments are read in order. The value of an option is examined when the next option begins, or at
the end; an argument that is not understood is reported without that examination.
-/

namespace LiveConfig.CommandLine

/-- The options. -/
inductive Flag where
  /-- The manifest of the sources. -/
  | sources
  /-- The address to which each change is reported. -/
  | refreshUrl
  /-- The file that is written anew after each change. -/
  | outputFile
  deriving DecidableEq

namespace Flag

/-- The name of an option behind two hyphens. -/
def name : Flag → String
  | .sources => "sources"
  | .refreshUrl => "refresh-url"
  | .outputFile => "output-file"

/-- The variable of the environment that sets an option. -/
def environmentName : Flag → String
  | .sources => "SOURCES_FILE"
  | .refreshUrl => "REFRESH_URL"
  | .outputFile => "OUTPUT_FILE"

/-- All options. -/
def all : List Flag := [.sources, .refreshUrl, .outputFile]

/-- The option with a name. -/
def ofName? (s : String) : Option Flag := all.find? (fun f => f.name == s)

/-- Whether an option accepts a value: paths are not empty. -/
def accepts (f : Flag) (value : String) : Bool := f == .refreshUrl || !value.isEmpty

end Flag

/-- Why the program does not start as asked. -/
inductive Refusal where
  /-- An argument is not understood. -/
  | unknownArgument
  /-- An option has no value, or one that it does not accept. -/
  | invalidValue
  /-- A switch has a value. -/
  | tooManyValues
  /-- An option is given twice, or together with one that it excludes. -/
  | argumentConflict
  /-- Help is asked for. -/
  | displayHelp
  /-- The version is asked for. -/
  | displayVersion
  deriving DecidableEq

/-- The value of each option, if it was given. -/
structure Values where
  sources : Option String
  refreshUrl : Option String
  outputFile : Option String
  deriving DecidableEq

namespace Values

/-- No option is given. -/
def empty : Values := ⟨none, none, none⟩

/-- The value of an option. -/
def get (v : Values) : Flag → Option String
  | .sources => v.sources
  | .refreshUrl => v.refreshUrl
  | .outputFile => v.outputFile

/-- Give a value to an option. -/
def set (v : Values) (f : Flag) (value : String) : Values :=
  match f with
  | .sources => { v with sources := some value }
  | .refreshUrl => { v with refreshUrl := some value }
  | .outputFile => { v with outputFile := some value }

/-- Give a value to an option that has none yet. -/
def give (v : Values) (f : Flag) (value : String) : Except Refusal Values :=
  if (v.get f).isSome then .error .argumentConflict
  else if f.accepts value then .ok (v.set f value)
  else .error .invalidValue

end Values

/-- What is left to examine of the arguments read so far. -/
inductive Pending where
  /-- Nothing. -/
  | nothing
  /-- An option whose value has not come yet. -/
  | flag (f : Flag)
  /-- An option with its value. -/
  | value (f : Flag) (value : String)

/-- Examine what is left of the arguments read so far. -/
def Pending.settle (v : Values) : Pending → Except Refusal Values
  | .nothing => .ok v
  | .flag _ => .error .invalidValue
  | .value f s => v.give f s

/-- A switch: help or version. -/
def switch? (name : String) : Option Refusal :=
  if name = "help" then some .displayHelp
  else if name = "version" then some .displayVersion
  else none

/-- A switch of one letter. -/
def shortSwitch? (c : Char) : Option Refusal :=
  if c = 'h' then some .displayHelp
  else if c = 'V' then some .displayVersion
  else none

/-- What a switch leads to: what came before it has to be in order. -/
def refusal (v : Values) (p : Pending) (r : Refusal) : Refusal :=
  match p.settle v with
  | .error e => e
  | .ok _ => r

/-- Read a long option: its name, and what stands behind an equals sign. -/
def readLong (v : Values) (p : Pending) (name : String) (attached : Option String) :
    Except Refusal (Values × Pending) :=
  match Flag.ofName? name, switch? name, attached with
  | some f, _, some s => do
    let v ← p.settle v
    let v ← v.give f s
    return (v, .nothing)
  | some f, _, none => do
    let v ← p.settle v
    return (v, .flag f)
  | none, some _, some _ => .error .tooManyValues
  | none, some r, none => .error (refusal v p r)
  | none, none, _ => .error .unknownArgument

/-- An argument by its form. -/
inductive Form where
  /-- The mark behind which there are no options. -/
  | separator
  | long (name : String) (attached : Option String)
  | short (first : Char)
  | plain

/-- The form of an argument. -/
def formOf : List Char → Form
  | ['-', '-'] => .separator
  | '-' :: '-' :: r =>
    match r.dropWhile (· ≠ '=') with
    | [] => .long (String.ofList r) none
    | _ :: s => .long (String.ofList (r.takeWhile (· ≠ '='))) (some (String.ofList s))
  | '-' :: c :: _ => .short c
  | _ => .plain

/-- Read the arguments that are left. -/
def readFrom (v : Values) (p : Pending) : List String → Except Refusal Values
  | [] => p.settle v
  | a :: rest =>
    match formOf a.toList with
    | .separator => if rest.isEmpty then p.settle v else .error .unknownArgument
    | .long name attached => do
      let (v, p) ← readLong v p name attached
      readFrom v p rest
    | .short c =>
      match shortSwitch? c with
      | none => .error .unknownArgument
      | some r => .error (refusal v p r)
    | .plain =>
      match p with
      | .flag f => readFrom v (.value f a) rest
      | _ => .error .unknownArgument

/-- Set options that were not given from the environment. -/
def fillFrom (environment : String → Option String) (v : Values) :
    List Flag → Except Refusal Values
  | [] => .ok v
  | f :: rest =>
    match v.get f, environment f.environmentName with
    | none, some value => do
      let v ← v.give f value
      fillFrom environment v rest
    | _, _ => fillFrom environment v rest

/-- The options of a run. -/
structure Options where
  sources : String
  refreshUrl : Option String
  outputFile : Option String
  deriving DecidableEq

/-- The manifest that is read if none is given. -/
def standardSources : String := "/etc/config-reload/sources.yaml"

/-- The options that arguments and the environment give. -/
def parse (args : List String) (environment : String → Option String) :
    Except Refusal Options := do
  let v ← readFrom .empty .nothing args
  let v ← fillFrom environment v Flag.all
  if v.refreshUrl.isSome && v.outputFile.isSome then throw .argumentConflict
  else return ⟨v.sources.getD standardSources, v.refreshUrl, v.outputFile⟩

end LiveConfig.CommandLine
