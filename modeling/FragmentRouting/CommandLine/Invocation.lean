import FragmentRouting.CommandLine.Usage
import FragmentRouting.Text.Pieces
import FragmentRouting.Text.Quoted

/-!
# Reading arguments

The words of a command line are first told apart into texts, flags and the separator `--`, after
which everything is text. Then flags and texts are taken in order. A long flag may be cut short as
long as it stays the only one with that beginning.
-/

namespace FragmentRouting.CommandLine

/-- A text attached to a flag. Behind an equals sign it can be attached to any spelling, without
one only to a letter. -/
structure Attached where
  /-- Whether the flag is written as a single letter. -/
  toLetter : Bool
  text : String
  deriving DecidableEq, Repr

inductive Word where
  | text (s : String)
  | separator
  | flag (f : Flag) (attached : Option Attached)
  | unknown (s : String)
  deriving DecidableEq, Repr

/-- Why reading ends before a command can run. -/
inductive Stop where
  | help
  | misuse (message : String)
  deriving DecidableEq, Repr

/-- Whether a text is a minus sign with digits and at most one point, which a digit follows. -/
def isNegativeNumber (text : List Char) : Bool :=
  let text := if text.getLast? = some '\n' then text.dropLast else text
  match text with
  | '-' :: rest =>
    let after := rest.dropWhile Text.isDecimalDigit
    match after with
    | [] => !rest.isEmpty
    | '.' :: fraction => !fraction.isEmpty && fraction.all Text.isDecimalDigit
    | _ => false
  | _ => false

/-- The flags with their spellings. -/
def spellingsOf (flags : List Flag) : List (String × Flag) :=
  flags.flatMap fun f => f.spellings.map fun s => (s, f)

/-- Whether a spelling is a dash and a letter. -/
def isLetter (spelling : List Char) : Bool :=
  !List.isPrefixOf ['-', '-'] spelling

/-- The flags that a word could be short for, and the text attached to it. -/
def candidates (flags : List Flag) (word : String) : List (String × Flag) × Option Attached :=
  match word.toList with
  | '-' :: '-' :: _ =>
    let (start, rest) := Text.cutAt '=' word.toList
    let attached :=
      if word.toList.contains '=' then some ⟨false, String.ofList rest⟩ else none
    ((spellingsOf flags).filter fun s => start.isPrefixOf s.1.toList, attached)
  | dash :: letter :: rest =>
    ((spellingsOf flags).filter fun s => s.1.toList = [dash, letter],
      some ⟨true, String.ofList rest⟩)
  | _ => ([], none)

/-- Tells what a word before the separator is. -/
def wordOf (flags : List Flag) (word : String) : Except Stop Word :=
  match word.toList with
  | '-' :: _ :: _ =>
    let (start, rest) := Text.cutAt '=' word.toList
    match (spellingsOf flags).lookup word with
    | some f => .ok (.flag f none)
    | none =>
      match word.toList.contains '=', (spellingsOf flags).lookup (String.ofList start) with
      | true, some f => .ok (.flag f (some ⟨isLetter start, String.ofList rest⟩))
      | _, _ =>
        match candidates flags word with
        | ([(_, f)], attached) => .ok (.flag f attached)
        | ([], _) =>
          if isNegativeNumber word.toList || word.toList.contains ' ' then .ok (.text word)
          else .ok (.unknown word)
        | (several, _) =>
          .error (.misuse ("ambiguous option: " ++ word ++ " could match "
            ++ ", ".intercalate (several.map fun s => s.1)))
  | _ => .ok (.text word)

/-- Tells what each word is. -/
def wordsOf (flags : List Flag) : List String → Except Stop (List Word)
  | [] => .ok []
  | word :: rest =>
    if word = "--" then .ok (.separator :: rest.map .text)
    else do return (← wordOf flags word) :: (← wordsOf flags rest)

def ignored (f : Flag) (text : String) : Stop :=
  .misuse ("argument " ++ f.title ++ ": ignored explicit argument " ++ Text.quoted text)

/-- What follows from the help flag with letters attached to it. Further letters `h` ask for help
again, and the complaint about any other character comes before the help. -/
def helpWith : List Char → Stop
  | [] => .help
  | c :: rest => if c = 'h' then helpWith rest else ignored .help (String.ofList (c :: rest))

/-- What the help flag leads to. -/
def helpStop : Option Attached → Stop
  | none => .help
  | some a =>
    if a.toLetter && !a.text.isEmpty then helpWith a.text.toList else ignored .help a.text

/-- What is left of a text for an argument or a flag: nothing of one that is only the separator. -/
def withoutSeparator (text : String) : Option String :=
  if text = "--" then none else some text

/-- The arguments of a command as far as they are read. -/
structure Invocation where
  /-- The names of the arguments still to come. -/
  missing : List String
  /-- The arguments in order. One that is nothing but the separator is lost. -/
  values : List (Option String) := []
  named : Bool := false
  encodedSplat : Bool := false
  delimiter : String := "|"
  /-- Words that nothing asks for. -/
  extras : List String := []
  deriving Repr

namespace Invocation

/-- Takes texts for the arguments still to come. What is left over is extra. -/
def take (a : Invocation) (texts : List (Option String)) (extras : List String) : Invocation :=
  let count := a.missing.length
  { a with
    missing := a.missing.drop texts.length
    values := a.values ++ texts.take count
    extras := a.extras ++ extras.drop count }

def takeTexts (a : Invocation) (texts : List String) : Invocation :=
  a.take (texts.map some) texts

/-- Takes the last texts, with the separator among them. The separator counts as extra itself
where no text next to it is taken as an argument. -/
def takeLast (a : Invocation) (before after : List String) : Invocation :=
  let count := a.missing.length
  if before.isEmpty && after.isEmpty then { a with extras := a.extras ++ ["--"] }
  else if count = 0 ∨ count < before.length then a.takeTexts (before ++ "--" :: after)
  else
    let values := match before, after with
      | [], first :: rest => some first :: rest.map withoutSeparator
      | before, after => before.map some ++ after.map withoutSeparator
    a.take values (before ++ after)

/-- Reads words from the left. `texts` are those since the last flag. -/
def readFrom (a : Invocation) (texts : List String) : List Word → Except Stop Invocation
  | [] => .ok (a.takeTexts texts)
  | .text s :: rest => readFrom a (texts ++ [s]) rest
  | .separator :: rest =>
    .ok (a.takeLast texts (rest.filterMap fun w => match w with
      | .text s => some s
      | _ => none))
  | .unknown s :: rest =>
    let a := a.takeTexts texts
    readFrom { a with extras := a.extras ++ [s] } [] rest
  | .flag .delimiter none :: .text s :: rest =>
    readFrom { a.takeTexts texts with delimiter := s } [] rest
  | .flag .delimiter (some attached) :: rest =>
    readFrom { a.takeTexts texts with delimiter := (withoutSeparator attached.text).getD "" }
      [] rest
  | .flag .delimiter none :: _ => .error (.misuse "argument --delimiter: expected one argument")
  | .flag .help attached :: _ => .error (helpStop attached)
  | .flag .named none :: rest => readFrom { a.takeTexts texts with named := true } [] rest
  | .flag .encodedSplat none :: rest =>
    readFrom { a.takeTexts texts with encodedSplat := true } [] rest
  | .flag f (some attached) :: _ => .error (ignored f attached.text)

/-- Reads the words after the name of a command. -/
def read (c : Command) (words : List String) : Except Stop Invocation := do
  let a ← readFrom { missing := c.arguments } [] (← wordsOf c.flags words)
  if a.missing.isEmpty then return a
  else
    .error (.misuse
      ("the following arguments are required: " ++ ", ".intercalate a.missing))

end Invocation

/-- What a whole command line asks for. -/
inductive Request where
  /-- No command at all. -/
  | overview
  | run (c : Command) (a : Invocation)
  /-- Reading stopped, with the command in whose words. -/
  | stopped (within : Option Command) (stop : Stop)

/-- Reads the words of a command line, of which `extras` have been passed over. The only flag in
front of a command is the one for help. -/
def requestFrom (extras : List String) : List (Word × String) → Request
  | [] => settle extras .overview
  | (.unknown s, _) :: rest => requestFrom (extras ++ [s]) rest
  | (.flag _ attached, _) :: _ => .stopped none (helpStop attached)
  | (.separator, word) :: [] => settle (extras ++ [word]) .overview
  | (.separator, word) :: rest | (.text _, word) :: rest =>
    match Command.ofName? word with
    | none =>
      .stopped none (.misuse ("argument command: invalid choice: " ++ Text.quoted word
        ++ " (choose from " ++ ", ".intercalate (Command.all.map fun c => Text.quoted c.name)
        ++ ")"))
    | some c =>
      match Invocation.read c (rest.map fun w => w.2) with
      | .error stop => .stopped (some c) stop
      | .ok a => settle (extras ++ a.extras) (.run c a)
where
  /-- Words that nothing asks for stop everything. -/
  settle (extras : List String) (request : Request) : Request :=
    if extras.isEmpty then request
    else .stopped none (.misuse ("unrecognized arguments: " ++ " ".intercalate extras))

/-- Reads a command line. -/
def request (words : List String) : Request :=
  match wordsOf [.help] words with
  | .error stop => .stopped none stop
  | .ok found => requestFrom [] (found.zip words)

end FragmentRouting.CommandLine
