import Arbor.Text.CodePoint
import Arbor.Text.Digit

/-!
# Flags

How the words of a command line are told apart: flags, which may be cut short and may bring a value, and
arguments, which go to the slots of the command in order.
-/

namespace Arbor.Command

abbrev Word := Text

structure Flag where
  name : Word
  others : List Word
  valued : Bool
  deriving DecidableEq, Repr

def Flag.names (f : Flag) : List Word := f.name :: f.others

inductive Slot where
  | single
  | command
  deriving DecidableEq, Repr

/-- What a word is, taken by itself. A joined text is what follows an equals sign; the letters behind a short flag
follow it at once or behind an equals sign. -/
inductive Piece where
  /-- Two dashes: no flag comes after them. -/
  | dashes
  | argument (w : Word)
  | long (f : Flag) (joined : Option Word)
  | short (f : Flag) (letters : Word)
  | unknown
  deriving DecidableEq, Repr

/-- What happens when a command line is read, in order. -/
inductive Event where
  | given (flag : Word) (value : Option Word)
  | argument (w : Word)
  | command (name : Word) (rest : List Word)
  /-- A word that nobody takes. -/
  | extra
  | mistake
  deriving DecidableEq, Repr

def flag? (flags : List Flag) (w : Word) : Option Flag := flags.find? fun f => f.names.contains w

def beginning (flags : List Flag) (w : Word) : List Flag :=
  flags.flatMap fun f => (f.names.filter w.isPrefixOf).map fun _ => f

def cut (w : Word) : Word × Option Word :=
  match w.dropWhile (· ≠ .scalar '=') with
  | [] => (w, none)
  | _ :: value => (w.takeWhile (· ≠ .scalar '='), some value)

def isUnsigned (w : List Char) : Bool :=
  let isDigit (c : Char) : Bool := (Text.digit? c).isSome
  match w.dropWhile isDigit with
  | [] => !w.isEmpty
  | '.' :: rest => !rest.isEmpty && rest.all isDigit
  | _ => false

/-- A negative number is an argument, not a flag; a line may end behind it. -/
def isNegativeNumber (w : Word) : Bool :=
  match w.chars? with
  | some ('-' :: cs) => isUnsigned cs || (cs.getLast? = some '\n' && isUnsigned cs.dropLast)
  | _ => false

def stray (w : Word) : Piece :=
  if isNegativeNumber w || w.contains (.scalar ' ') then .argument w else .unknown

/-- What a word is. A beginning that several names share is nobody's. -/
def piece? (flags : List Flag) (w : Word) : Option Piece :=
  match w with
  | .scalar '-' :: .scalar '-' :: _ =>
      let (name, joined) := cut w
      match flag? flags name with
      | some f => some (.long f joined)
      | none =>
          match beginning flags name with
          | [] => some (stray w)
          | [f] => some (.long f joined)
          | _ => none
  | .scalar '-' :: letter :: letters =>
      match flag? flags [.scalar '-', letter], letters with
      | some f, .scalar '=' :: value => some (if value.isEmpty then .long f (some []) else .short f value)
      | some f, _ => some (.short f letters)
      | none, _ => some (stray w)
  | _ => some (.argument w)

def pieces? (flags : List Flag) : List Word → Option (List Piece)
  | [] => some []
  | [.scalar '-', .scalar '-'] :: rest => some (.dashes :: rest.map .argument)
  | w :: rest => do return (← piece? flags w) :: (← pieces? flags rest)

/-- The short flags in a row of letters, behind `f`, when every letter is one. None of them takes a value. -/
def cluster? (flags : List Flag) (f : Flag) : Word → Option (List Event)
  | [] => some [.given f.name none]
  | letter :: letters => do
      let next ← flag? flags [.scalar '-', letter]
      return .given f.name none :: (← cluster? flags next letters)

def fill? (words : List Word) : Slot → List Piece → Option (Event × Nat)
  | .single, .argument w :: .dashes :: _ => some (.argument w, 2)
  | .single, .argument w :: _ => some (.argument w, 1)
  | .single, .dashes :: .argument w :: _ => some (.argument w, 2)
  | .command, .argument w :: rest => some (.command w (words.drop 1), rest.length + 1)
  | .command, .dashes :: .argument _ :: _ => some (.mistake, words.length)
  | _, _ => none

def read (flags : List Flag) : Nat → List Slot → List Word → List Piece → List Event
  | 0, _, _, _ => []
  | _, slots, _, [] => slots.map fun _ => .mistake
  | fuel + 1, slots, words, piece :: pieces =>
      match piece with
      | .unknown => .extra :: read flags fuel slots (words.drop 1) pieces
      | .short f letters =>
          match cluster? flags f letters with
          | some events => events ++ read flags fuel slots (words.drop 1) pieces
          | none => [.mistake]
      | .long f joined =>
          if f.valued then
            match joined, pieces with
            | some value, _ =>
                .given f.name (some value) :: read flags fuel slots (words.drop 1) pieces
            | none, .argument value :: pieces =>
                .given f.name (some value) :: read flags fuel slots (words.drop 2) pieces
            | none, _ => [.mistake]
          else if joined.isSome then [.mistake]
          else .given f.name none :: read flags fuel slots (words.drop 1) pieces
      | .dashes | .argument _ =>
          match slots with
          | slot :: slots =>
              match fill? words slot (piece :: pieces) with
              | some (event, count) =>
                  event :: read flags fuel slots (words.drop count) ((piece :: pieces).drop count)
              | none => .extra :: read flags fuel (slot :: slots) (words.drop 1) pieces
          | [] => .extra :: read flags fuel [] (words.drop 1) pieces

def events (flags : List Flag) (slots : List Slot) (words : List Word) : List Event :=
  match pieces? flags words with
  | some pieces => read flags (words.length + 1) slots words pieces
  | none => [.mistake]

end Arbor.Command
