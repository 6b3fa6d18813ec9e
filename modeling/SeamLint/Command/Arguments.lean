import SeamLint.Number.Integer
import SeamLint.Text.Basic

set_option autoImplicit false

/-! # Words of a command line

A command line is a list of words. A word is an option, a value of an option or an operand.
Long options may be shortened as long as it is clear what is meant, a value may be attached
to its option, and short options without a value may be joined. Behind a double dash every
word is an operand.

All words are looked at before any of them takes effect, so that an unclear option is refused
whatever stands before it.
-/

namespace SeamLint.Command

open SeamLint.Text

/-- What an option does. -/
inductive Role where
  | help
  | version
  | switch
  | value
deriving DecidableEq, Repr

/-- An option: its names, what it does, and which values it accepts. -/
structure Flag where
  names : List String
  role : Role
  accepts : String → Bool := fun _ => true

/-- The last name of an option, under which it is recorded. -/
def Flag.key (f : Flag) : String := f.names.getLast?.getD ""

/-- Why a command line has no effect of its own: it asks for help or for the version, or it
is refused. -/
inductive Stop where
  | help
  | version
  | refused
deriving DecidableEq, Repr

/-! ## Options in a word -/

/-- What is attached to an option in the same word: nothing, a value behind an equals sign,
or the letters that follow. -/
inductive Attached where
  | nothing
  | value (text : String)
  | letters (text : String)
deriving DecidableEq, Repr

/-- An option that a word names, the name in full, and what is attached to it. -/
structure Mention where
  flag : Flag
  name : String
  attached : Attached

/-- All names of options with the options they name. -/
def namedFlags (flags : List Flag) : List (String × Flag) :=
  flags.flatMap fun flag => flag.names.map (·, flag)

/-- The option with exactly this name. -/
def flagNamed? (flags : List Flag) (name : String) : Option Flag :=
  ((namedFlags flags).find? fun entry => entry.1 == name).map Prod.snd

/-- A word at its first equals sign, if it has one. -/
def splitEquals? (word : String) : Option (String × String) :=
  match word.toList.dropWhile (· != '=') with
  | _ :: value => some (String.ofList (word.toList.takeWhile (· != '=')), String.ofList value)
  | [] => none

/-- The option that a word names in full, perhaps with a value behind an equals sign. -/
def exactMention? (flags : List Flag) (word : String) : Option Mention :=
  match flagNamed? flags word with
  | some flag => some ⟨flag, word, .nothing⟩
  | none =>
      match splitEquals? word with
      | some (name, value) => (flagNamed? flags name).map fun flag => ⟨flag, name, .value value⟩
      | none => none

/-- The options that a word with two dashes may be short for. -/
def longMentions (flags : List Flag) (word : String) : List Mention :=
  let (start, attached) :=
    match splitEquals? word with
    | some (name, value) => (name, Attached.value value)
    | none => (word, Attached.nothing)
  ((namedFlags flags).filter fun entry => startsWith start entry.1).map fun entry =>
    ⟨entry.2, entry.1, attached⟩

/-- The options that a word with one dash may mean: the one of its first letter, with the
other letters as its value. -/
def shortMentions (flags : List Flag) (word : String) : List Mention :=
  let letter := String.ofList (word.toList.take 2)
  let attached := String.ofList (word.toList.drop 2)
  ((namedFlags flags).filter fun entry => entry.1 == letter).map fun entry =>
    ⟨entry.2, entry.1, .letters attached⟩

/-- The options that a word may mean without naming one in full. -/
def mentions (flags : List Flag) (word : String) : List Mention :=
  if startsWith "--" word then longMentions flags word else shortMentions flags word

/-- The word is written like a negative number. -/
def isNegativeNumber (word : String) : Bool :=
  match word.toList with
  | '-' :: number =>
      let fraction := number.dropWhile isDigit
      (fraction.isEmpty && !number.isEmpty) ||
        (fraction.head? == some '.' && !(fraction.drop 1).isEmpty && (fraction.drop 1).all isDigit)
  | _ => false

/-- What a word is. -/
inductive Word where
  | operand
  | divider
  /-- An option that is not known. -/
  | unknown
  | option (mention : Mention)

/-- What a word in front of any double dash is. -/
def classifyWord (flags : List Flag) (word : String) : Except Stop Word :=
  if word.toList.head? != some '-' then .ok .operand
  else
    match exactMention? flags word with
    | some mention => .ok (.option mention)
    | none =>
        if word.length = 1 then .ok .operand
        else
          match mentions flags word with
          | [mention] => .ok (.option mention)
          | _ :: _ :: _ => .error .refused
          | [] =>
              if isNegativeNumber word || word.toList.contains ' ' then .ok .operand
              else .ok .unknown

/-- What each word is. -/
def classifyWords (flags : List Flag) : List String → Except Stop (List (Word × String))
  | [] => .ok []
  | word :: rest =>
      if word = "--" then .ok ((.divider, word) :: rest.map (Word.operand, ·))
      else do
        let kind ← classifyWord flags word
        return (kind, word) :: (← classifyWords flags rest)

/-! ## Joined options -/

/-- What letters behind an option of one letter are to that option. -/
def Attached.ofLetters : List Char → Attached
  | [] => .nothing
  | '=' :: text => .value (String.ofList text)
  | text => .letters (String.ofList text)

/-- The options of one word, each with its value, and what is left of the word. A missing
value is to come from the next word. -/
structure Joined where
  options : List (Flag × Option String)
  left : List String

/-- The options of a word. The letters behind an option without a value are options of their
own, as far as they are known. -/
def expand (flags : List Flag) : Nat → Mention → Except Stop Joined
  | 0, _ => .error .refused
  | fuel + 1, m =>
      match m.attached with
      | .nothing => .ok ⟨[(m.flag, none)], []⟩
      | .value text =>
          if m.flag.role = .value then .ok ⟨[(m.flag, some text)], []⟩ else .error .refused
      | .letters text =>
          if m.flag.role = .value then .ok ⟨[(m.flag, some text)], []⟩
          else
            match text.toList with
            | [] | '-' :: _ => .error .refused
            | letter :: rest =>
                let name := String.ofList ['-', letter]
                match flagNamed? flags name with
                | none => .ok ⟨[(m.flag, none)], ["-" ++ text]⟩
                | some flag => do
                    let others ← expand flags fuel ⟨flag, name, .ofLetters rest⟩
                    return { others with options := (m.flag, none) :: others.options }

/-! ## Reading words -/

/-- What was read from words: the options with their values, the operands, and the words
that belong to nothing. -/
structure Reading where
  values : List (String × String) := []
  operands : Option (List String) := none
  extras : List String := []
deriving DecidableEq, Repr, Inhabited

/-- The last value of an option. -/
def Reading.value? (r : Reading) (key : String) : Option String :=
  (r.values.reverse.find? fun entry => entry.1 == key).map Prod.snd

/-- The switch is given. -/
def Reading.isSet (r : Reading) (key : String) : Bool := (r.value? key).isSome

/-- An option takes effect. -/
def Reading.apply (r : Reading) (option : Flag × Option String) : Except Stop Reading :=
  match option.1.role with
  | .help => .error .help
  | .version => .error .version
  | .switch => .ok { r with values := r.values ++ [(option.1.key, "")] }
  | .value =>
      let value := option.2.getD ""
      if option.1.accepts value then
        .ok { r with values := r.values ++ [(option.1.key, value)] }
      else .error .refused

/-- The words read so far: the operands since the last option, and options that take effect
once the last of them has its value. -/
structure State where
  reading : Reading := {}
  run : List String := []
  waiting : Option (List (Flag × Option String) × Flag) := none

/-- Operands without the first double dash. -/
def withoutDivider (words : List String) : List String := words.erase "--"

/-- Ends a run of operands. Only the first run counts, and only if operands are wanted. -/
def State.endRun (s : State) (wantsOperands : Bool) : State :=
  if s.run.isEmpty then s
  else if wantsOperands && s.reading.operands.isNone then
    { s with run := [], reading := { s.reading with operands := some (withoutDivider s.run) } }
  else { s with run := [], reading := { s.reading with extras := s.reading.extras ++ s.run } }

/-- The options of a word take effect. -/
def Reading.take (r : Reading) (joined : Joined) : Except Stop Reading :=
  joined.options.foldlM Reading.apply { r with extras := r.extras ++ joined.left }

/-- The last of the options wants a value from the next word. -/
def Joined.waiting? (joined : Joined) : Option Flag :=
  match joined.options.getLast? with
  | some (flag, none) => if flag.role = .value then some flag else none
  | _ => none

/-- The options of a word take effect, unless the last one still wants a value. -/
def State.take (s : State) (joined : Joined) : Except Stop State :=
  match joined.waiting? with
  | some flag => .ok { s with waiting := some (joined.options.dropLast, flag) }
  | none => do return { s with reading := ← s.reading.take joined }

/-- Reads one more word. -/
def State.next (flags : List Flag) (wantsOperands : Bool) (s : State) (word : Word × String) :
    Except Stop State :=
  match s.waiting with
  | some (before, flag) =>
      match word.1 with
      | .operand => do
          let options := before ++ [(flag, some word.2)]
          return { s with waiting := none, reading := ← options.foldlM Reading.apply s.reading }
      | _ => .error .refused
  | none =>
      match word.1 with
      | .operand | .divider => .ok { s with run := s.run ++ [word.2] }
      | .unknown =>
          let s := s.endRun wantsOperands
          .ok { s with reading := { s.reading with extras := s.reading.extras ++ [word.2] } }
      | .option mention => do
          let joined ← expand flags (word.2.length + 1) mention
          (s.endRun wantsOperands).take joined

/-- Reads words with options and, if they are wanted, operands. -/
def readWords (flags : List Flag) (wantsOperands : Bool) (words : List String) :
    Except Stop Reading := do
  let kinds ← classifyWords flags words
  let last ← kinds.foldlM (State.next flags wantsOperands) {}
  if last.waiting.isSome then throw .refused
  return (last.endRun wantsOperands).reading

end SeamLint.Command
