import BatchTransfer.Text.Caseless

/-!
# Arguments

A command takes options and words. An option is given by a letter behind one dash, by a name behind
two, and some take a value: the rest of the argument, or the next one. Behind two dashes alone all
arguments are words. Every option may be given once.
-/

namespace BatchTransfer.CommandLine

/-- What an option takes: nothing, or a value that may or may not be empty. Options that ask for the
usage or the version end the reading. -/
inductive Takes where
  | nothing
  | value (mayBeEmpty : Bool)
  | usage
  | version
  deriving DecidableEq, Repr

/-- An option of a command. -/
structure OptionForm where
  letter : Option Char
  name : String
  takes : Takes
  deriving DecidableEq, Repr

/-- The option that asks for the usage. -/
def usageForm : OptionForm := ⟨some 'h', "help", .usage⟩

/-- Why arguments are not read to their end. -/
inductive Halt where
  | misuse
  | usage
  | version
  deriving DecidableEq, Repr

/-- The options by name and the words that arguments give. -/
structure Arguments where
  values : List (String × String)
  words : List String
  deriving DecidableEq, Repr, Inhabited

namespace Arguments

/-- The value of an option. -/
def value? (a : Arguments) (name : String) : Option String := a.values.lookup name

/-- The arguments and one more word. -/
def addWord (a : Arguments) (word : String) : Arguments := { a with words := a.words ++ [word] }

/-- The arguments and one more option. -/
def add (a : Arguments) (form : OptionForm) (value : String) : Except Halt Arguments :=
  if (a.value? form.name).isSome then .error .misuse
  else if form.takes == .value false && value.isEmpty then .error .misuse
  else .ok { a with values := a.values ++ [(form.name, value)] }

end Arguments

/-- What one argument is. -/
inductive ArgumentKind where
  | word
  | wordsFollow
  | named (name : String) (value : Option String)
  | letters (cs : List Char)
  deriving DecidableEq, Repr

/-- What an argument is. A single dash is a word. -/
def ArgumentKind.of (arg : String) : ArgumentKind :=
  match arg.toList with
  | ['-', '-'] => wordsFollow
  | '-' :: '-' :: cs =>
      match cs.dropWhile (· != '=') with
      | _ :: value => named (String.ofList (cs.takeWhile (· != '='))) (some (String.ofList value))
      | [] => named (String.ofList cs) none
  | '-' :: c :: cs => letters (c :: cs)
  | _ => word

/-- An option as it is used, with the value that stands in the same argument. -/
structure OptionUse where
  form : OptionForm
  value : Option String

/-- The options that letters behind one dash use. The one that takes a value takes the rest, with or
without an equals sign before it. -/
def usesOfLetters? (forms : List OptionForm) : List Char → Option (List OptionUse)
  | [] => some []
  | c :: cs => do
      let form ← forms.find? (·.letter == some c)
      match form.takes, cs with
      | .value _, [] => some [⟨form, none⟩]
      | .value _, '=' :: value => some [⟨form, some (String.ofList value)⟩]
      | .value _, value => some [⟨form, some (String.ofList value)⟩]
      | _, cs => some (⟨form, none⟩ :: (← usesOfLetters? forms cs))

/-- The options that an argument uses, if it is one of options. -/
def usesOf? (forms : List OptionForm) : ArgumentKind → Option (List OptionUse)
  | .named name value => (forms.find? (·.name == name)).map fun form => [⟨form, value⟩]
  | .letters cs => usesOfLetters? forms cs
  | _ => none

/-- Adds options to arguments. The option that still needs a value comes with the result; it is the
last of its argument. -/
def Arguments.addUses (a : Arguments) : List OptionUse → Except Halt (Arguments × Option OptionForm)
  | [] => .ok (a, none)
  | use :: uses =>
      match use.form.takes, use.value with
      | .usage, none => .error .usage
      | .version, none => .error .version
      | .nothing, none =>
          match a.add use.form "" with
          | .ok a => a.addUses uses
          | .error e => .error e
      | .value _, some value =>
          match a.add use.form value with
          | .ok a => a.addUses uses
          | .error e => .error e
      | .value _, none => .ok (a, some use.form)
      | _, some _ => .error .misuse

/-- Whether an argument can be the value of the option before it. -/
def canBeValue (arg : String) : Bool := ArgumentKind.of arg == .word

/-- Reads arguments, and where `stopsAtWord` holds only those before the first word. -/
def readArguments (forms : List OptionForm) (stopsAtWord : Bool) (a : Arguments) :
    List String → Except Halt (Arguments × List String)
  | [] => .ok (a, [])
  | arg :: rest =>
      match ArgumentKind.of arg with
      | .word =>
          if stopsAtWord then .ok (a, arg :: rest)
          else readArguments forms stopsAtWord (a.addWord arg) rest
      | .wordsFollow =>
          if stopsAtWord then .error .misuse else .ok (rest.foldl Arguments.addWord a, [])
      | kind =>
          match usesOf? forms kind with
          | none => .error .misuse
          | some uses =>
              match a.addUses uses with
              | .error e => .error e
              | .ok (a, none) => readArguments forms stopsAtWord a rest
              | .ok (a, some form) =>
                  match rest with
                  | [] => .error .misuse
                  | value :: rest =>
                      if canBeValue value then
                        match a.add form value with
                        | .ok a => readArguments forms stopsAtWord a rest
                        | .error e => .error e
                      else .error .misuse

end BatchTransfer.CommandLine
