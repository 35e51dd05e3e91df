import HeapQual.Fault

/-!
# Limited output

Text may be printed into an output that accepts only so many bytes.  Characters are accepted one
by one; the first that does not fit makes the output full, and nothing after it is accepted.

Text is handed over in pieces, each of which may turn out to name something that does not
exist.  A fault in a piece counts only if the output is not full before that piece is reached.
-/

namespace HeapQual

/-- A text output, and how much more it accepts. -/
structure Output where
  text : String
  /-- The number of bytes still accepted; without a bound if absent. -/
  room : Option Nat
  /-- Has a character been turned away? -/
  full : Bool

namespace Output

/-- An empty output that accepts at most this many bytes. -/
def start (limit : Option Nat) : Output := ⟨"", limit, false⟩

/-- The longest beginning of a text that fits into `room` bytes. -/
def fitting (room : Nat) : List Char → List Char
  | [] => []
  | c :: cs => if c.utf8Size ≤ room then c :: fitting (room - c.utf8Size) cs else []

/-- Write a text, as far as it fits. -/
def write (o : Output) (text : String) : Output :=
  if o.full then o
  else
    match o.room with
    | none => { o with text := o.text ++ text }
    | some room =>
      let taken := String.ofList (fitting room text.toList)
      { text := o.text ++ taken
        room := some (room - taken.utf8ByteSize)
        full := decide (taken.utf8ByteSize < text.utf8ByteSize) }

/-- Write pieces in turn, until the output is full. -/
def writeAll : List (Except Fault String) → Output → Except Fault Output
  | [], o => .ok o
  | piece :: rest, o =>
    if o.full then .ok o
    else do
      let text ← piece
      writeAll rest (o.write text)

end Output

end HeapQual
