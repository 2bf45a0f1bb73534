import Shading.Json.String

/-!
    Passing over JSON values of any shape and depth.

    A value that nobody asks for is passed over one character at a time. The machine keeps the lists and
    objects that are open around it, innermost first, and where it stands in the innermost one. A number
    ends in front of the first character that does not continue it. Escapes are checked for their form
    only, so half a surrogate pair may stand in a string that is passed over. -/

namespace Shading.Json

/-- The blanks of JSON. -/
def isJsonBlank (c : Char) : Bool := c == ' ' || c == '\n' || c == '\t' || c == '\r'

/-- The text from its first character that is not blank in JSON. -/
def skipBlank (s : Text) : Text := s.dropWhile isJsonBlank

/-- What can be open around a value. -/
inductive Frame where
  | list
  | object
  deriving DecidableEq, Repr

/-- How much of a number has been passed. -/
inductive Digits where
  | minus
  | zero
  | whole
  | point
  | fraction
  | exponent
  | exponentSign
  | exponentDigits
  deriving DecidableEq, Repr

/-- Where the machine stands. Behind `opened` a frame may close at once; behind `passed` a comma or the
    end of the frame follows. The flag of a string says that it is a key. -/
inductive Spot where
  | value
  | opened
  | passed
  | key
  | colon
  | literal (rest : Text)
  | string (key : Bool)
  | escape (key : Bool)
  | hex (left : Nat) (key : Bool)
  | number (digits : Digits)
  deriving DecidableEq, Repr

/-- What reading one character does: the machine goes on, ends behind or in front of the character, or
    meets a problem. -/
inductive Move where
  | go (frames : List Frame) (spot : Spot)
  | endBehind
  | endBefore
  | stuck (problem : Problem)

/-- What ends early when the text ends within a frame. -/
def Frame.unfinished : Frame → Problem
  | .list => .unfinished .list
  | .object => .unfinished .object

/-- A value is complete: the outermost one ends the machine. -/
def completed : List Frame → Move
  | [] => .endBehind
  | frames => .go frames .passed

/-- Begin a value. -/
def beginValue (frames : List Frame) (c : Char) : Move :=
  if isJsonBlank c then .go frames .value
  else if c = 'n' then .go frames (.literal "ull".toList)
  else if c = 't' then .go frames (.literal "rue".toList)
  else if c = 'f' then .go frames (.literal "alse".toList)
  else if c = '-' then .go frames (.number .minus)
  else if c = '0' then .go frames (.number .zero)
  else if c.isDigit then .go frames (.number .whole)
  else if c = '"' then .go frames (.string false)
  else if c = '[' then .go (.list :: frames) .opened
  else if c = '\x7b' then .go (.object :: frames) .opened
  else .stuck (.malformed .expectedValue)

/-- Begin a key. -/
def beginKey (frames : List Frame) (c : Char) : Move :=
  if isJsonBlank c then .go frames .key
  else if c = '"' then .go frames (.string true)
  else .stuck (.malformed .keyNotString)

/-- Begin what a frame holds. -/
def beginIn : List Frame → Char → Move
  | .object :: frames, c => beginKey (.object :: frames) c
  | frames, c => beginValue frames c

/-- The character closes the frame. -/
def Frame.closes (c : Char) : Frame → Bool
  | .list => c == ']'
  | .object => c == '\x7d'

/-- Read a character behind a value in a frame. -/
def goOn : List Frame → Char → Move
  | [], _ => .endBefore
  | frame :: frames, c =>
    if isJsonBlank c then .go (frame :: frames) .passed
    else if c = ',' then
      .go (frame :: frames) (match frame with | .list => .value | .object => .key)
    else if frame.closes c then completed frames
    else .stuck (.malformed
      (match frame with | .list => .expectedListComma | .object => .expectedObjectComma))

/-- Read a character behind the opening of a frame. -/
def goIn : List Frame → Char → Move
  | [], _ => .endBefore
  | frame :: frames, c =>
    if isJsonBlank c then .go (frame :: frames) .opened
    else if frame.closes c then completed frames
    else beginIn (frame :: frames) c

/-- How a character continues a number: `none` ends it. -/
def Digits.next? (c : Char) : Digits → Except Problem (Option Digits)
  | .minus =>
    if c = '0' then .ok (some .zero)
    else if c.isDigit then .ok (some .whole)
    else .error (.malformed .invalidNumber)
  | .zero =>
    if c.isDigit then .error (.malformed .invalidNumber)
    else if c = '.' then .ok (some .point)
    else if c = 'e' || c = 'E' then .ok (some .exponent)
    else .ok none
  | .whole =>
    if c.isDigit then .ok (some .whole)
    else if c = '.' then .ok (some .point)
    else if c = 'e' || c = 'E' then .ok (some .exponent)
    else .ok none
  | .point =>
    if c.isDigit then .ok (some .fraction) else .error (.malformed .invalidNumber)
  | .fraction =>
    if c.isDigit then .ok (some .fraction)
    else if c = 'e' || c = 'E' then .ok (some .exponent)
    else .ok none
  | .exponent =>
    if c = '+' || c = '-' then .ok (some .exponentSign)
    else if c.isDigit then .ok (some .exponentDigits)
    else .error (.malformed .invalidNumber)
  | .exponentSign =>
    if c.isDigit then .ok (some .exponentDigits) else .error (.malformed .invalidNumber)
  | .exponentDigits => if c.isDigit then .ok (some .exponentDigits) else .ok none

/-- The number may end here. -/
def Digits.mayEnd : Digits → Bool
  | .zero | .whole | .fraction | .exponentDigits => true
  | _ => false

/-- Read one character; `rest` is what follows it. -/
def advance (frames : List Frame) (spot : Spot) (c : Char) (rest : Text) : Move :=
  match spot with
  | .value => beginValue frames c
  | .opened => goIn frames c
  | .passed => goOn frames c
  | .key => beginKey frames c
  | .colon =>
    if isJsonBlank c then .go frames .colon
    else if c = ':' then .go frames .value
    else .stuck (.malformed .expectedColon)
  | .literal [] => goOn frames c
  | .literal (d :: ds) =>
    if c ≠ d then .stuck (.malformed .expectedLiteral)
    else if ds.isEmpty then completed frames
    else .go frames (.literal ds)
  | .string key =>
    if c = '"' then (if key then .go frames .colon else completed frames)
    else if c = '\\' then .go frames (.escape key)
    else if c.toNat < 0x20 then .stuck (.malformed .controlCharacter)
    else .go frames (.string key)
  | .escape key =>
    if (unescapeChar? c).isSome then .go frames (.string key)
    else if c ≠ 'u' then .stuck (.malformed .invalidEscape)
    else if holdsFourBytes rest then .go frames (.hex 3 key)
    else .stuck (.unfinished .string)
  | .hex left key =>
    if (hexValue? c).isNone then .stuck (.malformed .invalidEscape)
    else match left with
      | 0 => .go frames (.string key)
      | left + 1 => .go frames (.hex left key)
  | .number digits =>
    match digits.next? c with
    | .error problem => .stuck problem
    | .ok (some digits) => .go frames (.number digits)
    | .ok none => goOn frames c

/-- The text ends where the machine stands. -/
def endOfText (frames : List Frame) : Spot → Except Problem Text
  | .value | .literal _ => .error (.unfinished .value)
  | .key | .colon => .error (.unfinished .object)
  | .string _ | .escape _ | .hex _ _ => .error (.unfinished .string)
  | .opened | .passed =>
    match frames with
    | [] => .ok []
    | frame :: _ => .error frame.unfinished
  | .number digits =>
    if digits.mayEnd then
      match frames with
      | [] => .ok []
      | frame :: _ => .error frame.unfinished
    else .error (.malformed .invalidNumber)

/-- Run the machine; answer the rest of the text. -/
def skipFrom (frames : List Frame) (spot : Spot) : Text → Except Problem Text
  | [] => endOfText frames spot
  | c :: rest =>
    match advance frames spot c rest with
    | .go frames spot => skipFrom frames spot rest
    | .endBehind => .ok rest
    | .endBefore => .ok (c :: rest)
    | .stuck problem => .error problem

/-- Pass over one value. -/
def skipValue (s : Text) : Except Problem Text := skipFrom [] .value s

end Shading.Json
