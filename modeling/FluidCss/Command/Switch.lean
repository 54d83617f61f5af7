import FluidCss.Text.Similarity
import FluidCss.Text.Quoted

set_option autoImplicit false

/-! # Options on the command line

Cutting the words of a command line into options and positional words. A long option may have its
value behind an equals sign, a short one directly behind its letter, and short options without
values may stand together behind one hyphen. Two hyphens alone end the options. -/

namespace FluidCss

/-- An option of the program or of one of its commands. -/
inductive Switch where
  | help
  | version
  | verbose
  | output
  | rootFontSize
deriving DecidableEq, Repr

namespace Switch

/-- The long name of an option. -/
def long : Switch → String
  | help => "--help"
  | version => "--version"
  | verbose => "--verbose"
  | output => "--output"
  | rootFontSize => "--root-font-size"

/-- The letter of an option. -/
def short? : Switch → Option Char
  | verbose => some 'v'
  | output => some 'o'
  | _ => none

/-- Whether an option has a value. -/
def takesValue : Switch → Bool
  | output | rootFontSize => true
  | _ => false

end Switch

/-- Why a command line is refused. -/
inductive UsageError where
  /-- There is no such option; the given ones have similar names. -/
  | noSuchOption (name : String) (similar : List String)
  | valueMissing (option : String)
  | valueNotAllowed (option : String)
  | commandMissing
  | noSuchCommand (name : String) (similar : List String)
  | fileMissing
  | noSuchPath (path : String)
  /-- There are more words than the command takes. -/
  | extraWords (words : List String)
deriving DecidableEq, Repr

namespace UsageError

open Text

/-- The names that may have been meant. -/
def suggestion : List String → String
  | [] => ""
  | [name] => " Did you mean " ++ quoted name ++ "?"
  | names => " (Did you mean one of: " ++ String.intercalate ", " (names.map quoted) ++ "?)"

/-- The message of a refusal. -/
def message : UsageError → String
  | noSuchOption name similar => "No such option " ++ quoted name ++ "." ++ suggestion similar
  | valueMissing option => "Option " ++ quoted option ++ " requires an argument."
  | valueNotAllowed option => "Option " ++ quoted option ++ " does not take a value."
  | commandMissing => "Missing command."
  | noSuchCommand name similar => "No such command " ++ quoted name ++ "." ++ suggestion similar
  | fileMissing => "Missing argument 'CSSFILE'."
  | noSuchPath path => "Invalid value for 'CSSFILE': Path " ++ quoted path ++ " does not exist."
  | extraWords words =>
    let noun := if words.length = 1 then "argument" else "arguments"
    "Got unexpected extra " ++ noun ++ " (" ++ String.intercalate " " words ++ ")"

/-- Whether the report of a refusal also says how to call the command. It does not if all that is
wrong is that a known option is given without its value, or with a value that it does not take. -/
def showsUsage : UsageError → Bool
  | valueMissing _ | valueNotAllowed _ => false
  | _ => true

end UsageError

/-- An option with its value; an option without one has the empty text. -/
abbrev Setting := Switch × String

/-- The options of a command line and its other words, each in order. -/
structure Scanned where
  settings : List Setting
  words : List String
deriving DecidableEq, Repr

namespace Scanned

/-- Whether a word is an option: it starts with a hyphen and goes on. -/
def isOption (word : String) : Bool :=
  match word.toList with
  | '-' :: _ :: _ => true
  | _ => false

/-- The part of a word before its first equals sign, and the part behind it if there is one. -/
def splitEquals (word : String) : String × Option String :=
  let cs := word.toList
  let name := String.ofList (cs.takeWhile (· != '='))
  match cs.dropWhile (· != '=') with
  | [] => (name, none)
  | _ :: value => (name, some (String.ofList value))

/-- Reads the letters of short options. The result says whether the next word has been taken as a
value. -/
def readLetters (known : List Switch) (next : Option String) :
    List Char → Except UsageError (List Setting × Bool)
  | [] => .ok ([], false)
  | c :: cs =>
    let name := String.ofList ['-', c]
    match known.find? fun s => s.short? == some c with
    | none => .error (.noSuchOption name [])
    | some s =>
      if s.takesValue then
        if cs.isEmpty then
          match next with
          | some value => .ok ([(s, value)], true)
          | none => .error (.valueMissing name)
        else .ok ([(s, String.ofList cs)], false)
      else
        match readLetters known next cs with
        | .ok (settings, taken) => .ok ((s, "") :: settings, taken)
        | .error e => .error e

/-- Reads an option. The result says whether the next word has been taken as its value. -/
def readOption (known : List Switch) (word : String) (next : Option String) :
    Except UsageError (List Setting × Bool) :=
  let (name, value?) := splitEquals word
  match known.find? fun s => s.long == name with
  | some s =>
    if s.takesValue then
      match value?, next with
      | some value, _ => .ok ([(s, value)], false)
      | none, some value => .ok ([(s, value)], true)
      | none, none => .error (.valueMissing name)
    else
      match value? with
      | some _ => .error (.valueNotAllowed name)
      | none => .ok ([(s, "")], false)
  | none =>
    match word.toList with
    | '-' :: '-' :: _ =>
      .error (.noSuchOption name ((known.map (·.long)).filter fun long => Text.isSimilar long name))
    | letters => readLetters known next letters.tail

/-- Cuts a command line. Unless options may stand among the other words, the first other word ends
the options. -/
def scan (known : List Switch) (mixed : Bool) (words : List String) : Except UsageError Scanned :=
  match words with
  | [] => .ok ⟨[], []⟩
  | word :: rest =>
    if word = "--" then .ok ⟨[], rest⟩
    else if isOption word then
      match readOption known word rest.head? with
      | .error e => .error e
      | .ok (settings, taken) =>
        match scan known mixed (if taken then rest.tail else rest) with
        | .error e => .error e
        | .ok s => .ok ⟨settings ++ s.settings, s.words⟩
    else if mixed then
      match scan known mixed rest with
      | .error e => .error e
      | .ok s => .ok ⟨s.settings, word :: s.words⟩
    else .ok ⟨[], words⟩
termination_by words.length
decreasing_by
  · exact Nat.lt_succ_of_le (by split <;> simp)
  · simp

/-- The value given last for an option. -/
def value? (s : Scanned) (switch : Switch) : Option String :=
  ((s.settings.filter fun setting => setting.1 == switch).getLast?).map (·.2)

/-- How often an option is given. -/
def count (s : Scanned) (switch : Switch) : Nat :=
  (s.settings.filter fun setting => setting.1 == switch).length

end Scanned

end FluidCss
