namespace Flowgraph

/-- What the command line asks for. Graphs and keys may be given several times and everything else
once. -/
structure Arguments where
  /-- Files of graphs, in order. -/
  graphs : List String := []
  config : Option String := none
  ticks : Option UInt64 := none
  keys : List String := []
  exports : Bool := false
  listTemplates : Bool := false
deriving DecidableEq, Repr

/-- Why a command line is not run. -/
inductive UsageError where
  | invalid
  /-- It asks for help. -/
  | help
deriving DecidableEq, Repr

namespace Arguments

/-- The options that take a value. -/
inductive Setting where
  | graph
  | config
  | ticks
  | key
deriving DecidableEq, Repr

/-- The options that take none. -/
inductive Switch where
  | exports
  | listTemplates
  | help
deriving DecidableEq, Repr

def settingOfName? : String → Option Setting
  | "graph" => some .graph
  | "config" => some .config
  | "ticks" => some .ticks
  | "key" => some .key
  | _ => none

def settingOfLetter? : Char → Option Setting
  | 'g' => some .graph
  | 'c' => some .config
  | 't' => some .ticks
  | 'k' => some .key
  | _ => none

def switchOfName? : String → Option Switch
  | "exports" => some .exports
  | "list-templates" => some .listTemplates
  | "help" => some .help
  | _ => none

/-- A number of 64 bits in decimal digits, with a plus sign or without. -/
def count? (text : String) : Option UInt64 :=
  let digits :=
    match text.toList with
    | '+' :: rest => rest
    | cs => cs
  if digits.isEmpty || !digits.all Char.isDigit then none
  else
    let n : Nat := digits.foldl (fun n d => 10 * n + (d.toNat - '0'.toNat)) 0
    if n < UInt64.size then some n.toUInt64 else none

/-- Sets an option. Files have names, and what may be given once is not given again. -/
def set (args : Arguments) (setting : Setting) (value : String) : Except UsageError Arguments :=
  match setting with
  | .graph =>
    if value.isEmpty then .error .invalid else .ok { args with graphs := args.graphs ++ [value] }
  | .config =>
    if value.isEmpty || args.config.isSome then .error .invalid
    else .ok { args with config := some value }
  | .ticks =>
    match count? value with
    | some n => if args.ticks.isSome then .error .invalid else .ok { args with ticks := some n }
    | none => .error .invalid
  | .key => .ok { args with keys := args.keys ++ [value] }

/-- Turns a switch on, which is done at most once. -/
def turnOn (args : Arguments) : Switch → Except UsageError Arguments
  | .exports => if args.exports then .error .invalid else .ok { args with exports := true }
  | .listTemplates =>
    if args.listTemplates then .error .invalid else .ok { args with listTemplates := true }
  | .help => .error .help

/-- Whether an argument can be the value of the option before it. -/
def standsAlone (text : String) : Bool :=
  text.toList.head? ≠ some '-' || text = "-"

/-- An option whose value is in the same argument, or is the next one. -/
inductive Form where
  | complete (setting : Setting) (value : String)
  | pending (setting : Setting)
  | switch (switch : Switch)
  /-- No options follow. -/
  | last

/-- Reads one argument, which is an option: `--name value`, `--name=value`, `-n value`, `-nvalue` or
`-n=value`. -/
def option? (text : String) : Except UsageError Form :=
  match text.toList with
  | ['-', '-'] => .ok .last
  | '-' :: '-' :: rest =>
    let name := String.ofList (rest.takeWhile (· ≠ '='))
    match rest.dropWhile (· ≠ '='), settingOfName? name, switchOfName? name with
    | _ :: value, some setting, _ => .ok (.complete setting (String.ofList value))
    | [], some setting, _ => .ok (.pending setting)
    | [], none, some switch => .ok (.switch switch)
    | _, _, _ => .error .invalid
  | '-' :: 'h' :: _ => .ok (.switch .help)
  | '-' :: letter :: rest =>
    match settingOfLetter? letter, rest with
    | some setting, [] => .ok (.pending setting)
    | some setting, '=' :: value => .ok (.complete setting (String.ofList value))
    | some setting, value => .ok (.complete setting (String.ofList value))
    | none, _ => .error .invalid
  | _ => .error .invalid

/-- Reads arguments one after the other. -/
def parseFrom (args : Arguments) : List String → Except UsageError Arguments
  | [] => .ok args
  | text :: rest =>
    match option? text with
    | .error e => .error e
    | .ok .last => if rest.isEmpty then .ok args else .error .invalid
    | .ok (.switch switch) =>
      match args.turnOn switch with
      | .error e => .error e
      | .ok next => parseFrom next rest
    | .ok (.complete setting value) =>
      match args.set setting value with
      | .error e => .error e
      | .ok next => parseFrom next rest
    | .ok (.pending setting) =>
      match rest with
      | [] => .error .invalid
      | value :: after =>
        if standsAlone value then
          match args.set setting value with
          | .error e => .error e
          | .ok next => parseFrom next after
        else .error .invalid

/-- Reads a command line. -/
def parse (texts : List String) : Except UsageError Arguments :=
  parseFrom {} texts

/-- The files that the command line names. -/
def files (args : Arguments) : List String := args.config.toList ++ args.graphs

end Arguments

end Flowgraph
