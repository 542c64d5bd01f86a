import MyLifeHome.Library.Text
import Mathlib.Algebra.Group.Int.Defs
import Mathlib.Algebra.Group.Nat.Defs

/-!
# Lines and messages

The protocol of the IRC hub: `Parser.java`, `Message.java` and `ProtocolUtils.java`. The mappings
between cases that Java applies to characters are a parameter.
-/
namespace MyLifeHome.Irc

/-- `String.toLowerCase`, `String.toUpperCase`, and the character on which `equalsIgnoreCase`
compares. -/
class Locale where
  toLowerCase : String → String
  toUpperCase : String → String
  fold : Char → Char

/-- The letters of ASCII only. -/
instance ascii : Locale := ⟨String.toLower, String.toUpper, Char.toLower⟩

/-- What is thrown. A send on a socket that the hub itself has closed is `closedChannel`, and
`stackOverflow` is a recursion or a loop that has no end. -/
inductive Fault where
  | nullPointer
  | illegalArgument
  | illegalState
  | indexOutOfBounds
  | numberFormat
  | alreadyExists
  | stackOverflow
  | closedChannel
  deriving DecidableEq

variable [Locale]

def equalsIgnoreCase (a b : String) : Bool :=
  a.toList.map Locale.fold == b.toList.map Locale.fold

/-- `StringUtils.isEmpty` -/
def isEmpty (argument : Option String) : Bool := argument.getD "" == ""

/-- `Integer.parseInt`, for a text that may be null and has no digits but the ASCII ones. -/
def parseInt (s : Option String) : Except Fault Int :=
  let digits (cs : List Char) : Option Int :=
    if cs ≠ [] ∧ cs.all Char.isDigit then some (cs.foldl (fun n c => 10 * n + (c.toNat - 48)) 0)
    else none
  let value := match (s.getD "").toList with
    | '-' :: cs => (digits cs).map fun n => -n
    | '+' :: cs => digits cs
    | cs => digits cs
  match value with
  | some n => if -2 ^ 31 ≤ n ∧ n < 2 ^ 31 then .ok n else .error .numberFormat
  | none => .error .numberFormat

/-- `str.split(",")`: without empty strings at the end, unless the text has no comma. -/
def splitComma (s : String) : List String :=
  if ',' ∈ s.toList then ((Text.split ',' s).reverse.dropWhile (· = "")).reverse else [s]

/-! ## Names -/

def isNickCharacter (c : Char) : Bool := ('A' ≤ c && c ≤ '~') || c.isDigit || c == '-'

/-- The empty text passes. -/
def isNickName (name : String) : Bool := name.toList.all isNickCharacter

def isChannelIdentifierStart (c : Char) : Bool := c == '#' || c == '&' || c == '+' || c == '!'

def isChannelIdentifierPart (c : Char) : Bool := c != ' ' && c != ',' && c != '\r' && c != '\n'

def isChannelIdentifier (name : String) : Except Fault Bool :=
  match name.toList with
  | [] => .error .indexOutOfBounds
  | c :: cs => .ok (isChannelIdentifierStart c && cs.all isChannelIdentifierPart)

def isUpperLetter (c : Char) : Bool := 'A' ≤ c && c ≤ 'Z'

def isCommandIdentifier (s : String) : Except Fault Bool :=
  match (Locale.toUpperCase s).toList with
  | [] => .error .indexOutOfBounds
  | c :: cs =>
    if c.isDigit then .ok (cs.length == 2 && cs.all Char.isDigit)
    else .ok (isUpperLetter c && cs.all isUpperLetter)

def isParameter (s : String) : Bool := s ≠ "" && s.toList.head? ≠ some ':' && !s.toList.contains ' '

/-! ## Messages -/

structure Message where
  sender : Option String
  command : String
  params : List String
  hasLast : Bool
  deriving DecidableEq

namespace Message

/-- `new Message(from, command)`, for a command that is a literal. -/
def make (sender : Option String) (command : String) : Message := ⟨sender, command, [], false⟩

/-- `new Message(from, command)` -/
def create (sender : Option String) (command : String) : Except Fault Message := do
  if ← isCommandIdentifier command then pure (make sender command) else throw .illegalArgument

def appendParameter (msg : Message) (param : String) : Except Fault Message :=
  if msg.hasLast then .error .illegalState
  else if isParameter param then .ok { msg with params := msg.params ++ [param] }
  else .error .illegalArgument

/-- Null is printed as a word. -/
def appendLastParameter (msg : Message) (param : Option String) : Except Fault Message :=
  if msg.hasLast then .error .illegalState
  else .ok { msg with params := msg.params ++ [param.getD "null"], hasLast := true }

/-- The text, if there is one, as the last parameter. -/
def appendText (msg : Message) (text : Option String) : Except Fault Message :=
  match text with
  | some text => msg.appendLastParameter (some text)
  | none => .ok msg

/-- The array has three places from the start, and null where there is no parameter. -/
def getParameter (msg : Message) (n : Nat) : Option String := msg.params[n]?

def parameterCount (msg : Message) : Nat := msg.params.length

/-- `toString` reads the parameter before the end of the array. -/
def toStringOk (msg : Message) : Except Fault Unit :=
  if msg.params = [] then .error .indexOutOfBounds else .ok ()

end Message

/-! ## The parser -/

/-- `trim`: without the characters up to the blank at both ends. -/
def trim (cs : List Char) : List Char :=
  ((cs.dropWhile (· ≤ ' ')).reverse.dropWhile (· ≤ ' ')).reverse

/-- The loop over the parameters, after the blank before one. It ends with the parameter that has
a colon, or with the last word. -/
def parseParameters (message : Message) (cs : List Char) : Except Fault Message :=
  match cs with
  | ':' :: cs => message.appendLastParameter (some (String.ofList cs))
  | cs =>
    let word := cs.takeWhile (· ≠ ' ')
    match _h : cs.dropWhile (· ≠ ' ') with
    | [] => message.appendParameter (String.ofList word)
    | _ :: rest =>
      if word = [] then parseParameters message rest
      else do
        let message ← message.appendParameter (String.ofList word)
        parseParameters message rest
termination_by cs.length
decreasing_by
  all_goals
    have hle := (List.dropWhile_sublist (fun x => decide (x ≠ ' ')) (l := cs)).length_le
    rw [_h, List.length_cons] at hle
    omega

def parseMessage (sender : Option String) (str : List Char) : Except Fault Message := do
  let command := str.takeWhile (· ≠ ' ')
  let message ← Message.create sender (String.ofList command)
  match str.dropWhile (· ≠ ' ') with
  | [] => pure message
  | _ :: rest => parseParameters message rest

/-- The blank after the sender is searched from the third character on. -/
def parseRawMessage (rawmsg : List Char) : Except Fault Message :=
  match trim rawmsg with
  | [] => .error .indexOutOfBounds
  | ':' :: [] => .error .indexOutOfBounds
  | ':' :: c :: cs =>
    match cs.dropWhile (· ≠ ' ') with
    | [] => .error .indexOutOfBounds
    | _ :: rest => parseMessage (some (String.ofList (c :: cs.takeWhile (· ≠ ' ')))) rest
  | str => parseMessage none str

/-- `writeMessage`, without the terminator. -/
def writeMessage (msg : Message) : String :=
  let sender := match msg.sender with
    | some sender => ":" ++ sender ++ " "
    | none => ""
  let rec parameters : List String → String
    | [] => ""
    | [param] => (if msg.hasLast then " :" else " ") ++ param
    | param :: params => " " ++ param ++ parameters params
  sender ++ msg.command ++ parameters msg.params

end MyLifeHome.Irc
