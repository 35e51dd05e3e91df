import HeapQual.Text.Quoted

/-!
# Source positions

Constraints remember where in the analysed program they were made, so that a violation can be
reported there.  Inside the log record of a constraint the file's name is quoted.
-/

namespace HeapQual

/-- A line of a source file. -/
structure Position where
  file : String
  line : Nat
  deriving DecidableEq, Inhabited

namespace Position

/-- The position of what the engine does on its own account. -/
def internal : Position := ⟨"<internal>", 0⟩

/-- A position as it is printed in front of a message. -/
def render (p : Position) : String := s!"{p.file}:{p.line}"

/-- A position inside the record of a constraint. -/
def record (p : Position) : String :=
  "Location \x7b file: " ++ Text.quoted p.file ++ s!", line: {p.line} \x7d"

end Position

end HeapQual
