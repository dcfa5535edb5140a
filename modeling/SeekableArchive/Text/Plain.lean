/-!
# Text without control sequences

What is shown on a terminal may hold sequences that steer it: an escape
character and what follows it up to a final character.  `plain` leaves out those
sequences and all control characters but white space.  White space shows even
inside a sequence and lets it rest: what follows shows, too, up to the next
character that does not, and there the sequence goes on.
-/

namespace SeekableArchive
namespace Text

/-- Where a text stands in a control sequence. -/
inductive Sequence
  | outside
  | escape
  /-- Behind an escape character and others that ask for a final one. -/
  | escapeMore
  /-- In the parameters of a control function. -/
  | control
  | deviceStart
  | deviceParameters
  | deviceMore
  /-- In a string for a device, which its terminator ends. -/
  | deviceString
  /-- In a string for the terminal itself, which a bell ends. -/
  | terminalString
deriving DecidableEq

def IsAscii (c : Char) : Prop := c.toNat < 0x80

instance (c : Char) : Decidable (IsAscii c) :=
  inferInstanceAs (Decidable (_ < _))

/-- Blank, tab, line feed, form feed or carriage return. -/
def isWhiteSpace (c : Char) : Bool :=
  c.toNat ∈ [0x20, 0x09, 0x0A, 0x0C, 0x0D]

/-- Whether a character is a control character or the one that deletes. -/
def isControl (c : Char) : Bool :=
  c.toNat < 0x20 || c.toNat = 0x7F

/-- The byte that ends a string for a device. -/
def stringTerminator : UInt8 := 0x9C

namespace Sequence

/-- The place behind a character that begins or goes on with a sequence. -/
def next (place : Sequence) (c : Char) : Sequence :=
  let n := c.toNat
  if n = 0x1B then escape
  else if n = 0x18 ∨ n = 0x1A then outside
  else match place with
    | outside => outside
    | escape =>
        if isControl c ∨ ¬ IsAscii c then escape
        else if n < 0x30 then escapeMore
        else if c = '[' then control
        else if c = ']' then terminalString
        else if c = 'P' then deviceStart
        else if c = 'X' ∨ c = '^' ∨ c = '_' then deviceString
        else outside
    | escapeMore => if n < 0x30 ∨ isControl c ∨ ¬ IsAscii c then escapeMore else outside
    | control => if n < 0x40 ∨ isControl c ∨ ¬ IsAscii c then control else outside
    | deviceStart =>
        if isControl c ∨ ¬ IsAscii c then deviceStart
        else if n < 0x30 then deviceMore
        else if n < 0x40 then deviceParameters
        else deviceString
    | deviceParameters =>
        if isControl c ∨ ¬ IsAscii c then deviceParameters
        else if n < 0x30 then deviceMore
        else if n < 0x3C then deviceParameters
        else deviceString
    | deviceMore => if n < 0x30 ∨ isControl c ∨ ¬ IsAscii c then deviceMore else deviceString
    | deviceString => if stringTerminator ∈ String.utf8EncodeChar c then outside else deviceString
    | terminalString => if n = 0x07 then outside else terminalString

def shows (place : Sequence) (c : Char) : Bool :=
  match place with
  | outside => isWhiteSpace c || !isControl c
  | escape | escapeMore | control => isWhiteSpace c && isControl c
  | _ => false

end Sequence

/-- The characters that show, from a place in a sequence that may rest. -/
def plainFrom (place : Sequence) (resting : Bool) : List Char → List Char
  | [] => []
  | c :: rest =>
      if (if resting then Sequence.outside else place).shows c then
        c :: plainFrom (if IsAscii c then place else .outside) true rest
      else plainFrom (place.next c) false rest

def plain (text : String) : String :=
  String.ofList (plainFrom .outside true text.toList)

end Text
end SeekableArchive
