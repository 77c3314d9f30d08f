/-!
# Command lines

The words of a command line and what they ask for. Words are taken from left
to right; the first that asks for help or the version, or that does not fit,
settles the matter. An option's value is the rest of its word after `=`, or
the next word unless that is an option itself; no option is given twice.
-/

namespace MarketMinutes

inductive Command where
  | aggregate (config : String) (drop : Bool)
  | tabulate (config output : String)
  deriving DecidableEq

inductive Invocation where
  /-- Help or the version is asked for. -/
  | inform
  | refuse
  | run (command : Command)
  deriving DecidableEq

namespace Invocation

inductive CommandName where
  | aggregate
  | tabulate
  deriving DecidableEq

def CommandName.ofWord? (word : String) : Option CommandName :=
  if word = "aggregate" then some .aggregate
  else if word = "export" then some .tabulate
  else none

inductive OptionName where
  | config
  | output
  | drop
  deriving DecidableEq

structure Given where
  config : Option String
  output : Option String
  drop : Bool
  deriving DecidableEq

/-! ## Words -/

/-- A word of options: two dashes, a name, and perhaps a value after `=`; or one dash and letters. -/
inductive Word where
  | long (name : String) (value : Option String)
  | short (first : Char)
  | ends
  | plain (text : String)
  deriving DecidableEq

def Word.ofString (s : String) : Word :=
  match s.toList with
  | ['-', '-'] => .ends
  | '-' :: '-' :: cs =>
    match cs.dropWhile (· != '=') with
    | [] => .long (String.ofList cs) none
    | _ :: value => .long (String.ofList (cs.takeWhile (· != '='))) (some (String.ofList value))
  | '-' :: c :: _ => .short c
  | _ => .plain s

def CommandName.option? : CommandName → String → Option OptionName
  | _, "config" => some .config
  | .aggregate, "drop" => some .drop
  | .tabulate, "output" => some .output
  | _, _ => none

/-- An option's value, which must not be empty, unless the option has one already. -/
def Given.set? (g : Given) (name : OptionName) (value : String) : Option Given :=
  if value = "" then none
  else
    match name, g.config, g.output with
    | .config, none, _ => some { g with config := some value }
    | .output, _, none => some { g with output := some value }
    | _, _, _ => none

/-- What all that was given asks for. -/
def Given.invocation (g : Given) : CommandName → Invocation
  | .aggregate =>
    match g.config with
    | some config => .run (.aggregate config g.drop)
    | none => .refuse
  | .tabulate =>
    match g.config, g.output with
    | some config, some output => .run (.tabulate config output)
    | _, _ => .refuse

/-- The words after a command. -/
def ofArguments (command : CommandName) (g : Given) : List String → Invocation
  | [] => g.invocation command
  | word :: words =>
    match Word.ofString word with
    | .plain _ => .refuse
    | .ends => if words.isEmpty then g.invocation command else .refuse
    | .short c => if c = 'h' then .inform else .refuse
    | .long "help" none => .inform
    | .long name value =>
      match command.option? name with
      | none => .refuse
      | some .drop =>
        if value.isSome || g.drop then .refuse else ofArguments command { g with drop := true } words
      | some option =>
        match value with
        | some value =>
          match g.set? option value with
          | some g => ofArguments command g words
          | none => .refuse
        | none =>
          match words with
          | [] => .refuse
          | next :: rest =>
            match Word.ofString next with
            | .plain value =>
              match g.set? option value with
              | some g => ofArguments command g rest
              | none => .refuse
            | _ => .refuse

/-- The words after `help`: nothing, or one thing there is help on. -/
def ofTopics : List String → Invocation
  | [] => .inform
  | [topic] => if topic = "help" || (CommandName.ofWord? topic).isSome then .inform else .refuse
  | _ => .refuse

def ofWords : List String → Invocation
  | [] => .refuse
  | word :: words =>
    match Word.ofString word with
    | .plain text =>
      if text = "help" then ofTopics words
      else
        match CommandName.ofWord? text with
        | some command => ofArguments command ⟨none, none, false⟩ words
        | none => .refuse
    | .short c => if c = 'h' || c = 'V' then .inform else .refuse
    | .long "help" none => .inform
    | .long "version" none => .inform
    | .long _ _ => .refuse
    | .ends => .refuse

end Invocation
end MarketMinutes
