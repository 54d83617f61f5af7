import FluidCss.Command.Outcome
import FluidCss.Command.Page
import FluidCss.Text.WordCharacter

set_option autoImplicit false

/-! # Requests

Reading a command line. The options of the program stand before the name of a command and those of
the command behind it. A command line that asks for a page, or that is refused, is answered at once;
any other is a request, which needs the file that it names. -/

namespace FluidCss

/-- What a command is asked for. Words behind the name of the file are kept, for they are an error
only once the file is known to exist. -/
structure Request where
  verb : Verb
  path : String
  extra : List String
  output : Option String
  rootFontSize : Option String
  verbosity : Nat
deriving DecidableEq, Repr

namespace Request

/-- A value that is given and not empty. -/
def nonempty (value : Option String) : Option String := value.filter fun s => s != ""

/-- The options of the program itself. -/
def programSwitches : List Switch := [.help, .verbose, .version]

/-- The page that the first option asking for one asks for. -/
def page? (help : String) : List Setting → Option String
  | [] => none
  | (.help, _) :: _ => some help
  | (.version, _) :: _ => some versionPage
  | _ :: rest => page? help rest

/-- Whether a word starts like an option: neither with a letter nor with a number. -/
def startsLikeOption (word : String) : Bool :=
  match word.toList with
  | [] => false
  | c :: _ => c == '_' || !Text.isWordCharacter c

/-- Reads the options of the program and the words behind them. -/
def readProgram (args : List String) : Except Outcome Scanned :=
  match Scanned.scan programSwitches false args with
  | .error e => .error (.misused (Page.programRefusal e))
  | .ok scanned =>
    match page? Page.program scanned.settings with
    | some page => .error (.success "" page "")
    | none => .ok scanned

/-- The refusal of a word that is no command. If it starts like an option, what is wrong with it as
an option comes first. -/
def refuseCommand (name : String) (words : List String) : Outcome :=
  let similar := (Verb.all.map (·.name)).filter fun known => Text.isSimilar known name
  let refusal := Outcome.misused (Page.programRefusal (.noSuchCommand name similar))
  if startsLikeOption name then
    match readProgram words with
    | .error outcome => outcome
    | .ok _ => refusal
  else refusal

/-- Reads the words behind the name of a command. -/
def readVerb (verb : Verb) (verbosity : Nat) (args : List String) : Except Outcome Request :=
  match Scanned.scan verb.switches true args with
  | .error e => .error (.misused (Page.verbRefusal verb e))
  | .ok scanned =>
    match page? (Page.verb verb) scanned.settings with
    | some page => .error (.success "" page "")
    | none =>
      match scanned.words with
      | [] => .error (.misused (Page.verbRefusal verb .fileMissing))
      | path :: extra =>
        .ok ⟨verb, path, extra, nonempty (scanned.value? .output),
          nonempty (scanned.value? .rootFontSize), verbosity⟩

/-- Reads a command line. -/
def read (args : List String) : Except Outcome Request :=
  if args.isEmpty then .error (.misused Page.program)
  else
    match readProgram args with
    | .error outcome => .error outcome
    | .ok scanned =>
      match scanned.words with
      | [] => .error (.misused (Page.programRefusal .commandMissing))
      | name :: rest =>
        match Verb.ofName? name with
        | none => .error (refuseCommand name scanned.words)
        | some verb => readVerb verb (scanned.count .verbose) rest

end Request

end FluidCss
