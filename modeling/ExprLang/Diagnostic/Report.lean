import ExprLang.Diagnostic

/-!
# Reports

A diagnostic as it is shown beside the source: its name and tip, the source's name, and the line
that it is about with a caret under the character that it is about.  The line is shown without its
indentation.
-/

namespace ExprLang

/-! ### The line of an offset

A line ends behind its newline, and the last line where the source does.  An offset belongs to the
line that its byte stands in; the end of the source belongs to the last line. -/

/-- A line of a source: its number, counted from 1, its text with the newline that ends it, and how
many bytes behind its start an offset lies. -/
structure Line where
  number : Nat
  text : String
  column : Nat
  deriving DecidableEq, Inhabited

namespace Line

theorem length_dropWhile_tail_lt {p : Char → Bool} {cs : List Char} {c : Char} {rest : List Char}
    (h : cs.dropWhile p = c :: rest) : rest.length < cs.length := by
  have := (List.dropWhile_suffix p (l := cs)).length_le
  rw [h] at this
  exact this

/-- The line of an offset into `cs`, of which the first line has the given number. -/
def locate (number : Nat) (cs : List Char) (offset : Nat) : Option Line :=
  let body := cs.takeWhile (· != '\n')
  match _ : cs.dropWhile (· != '\n') with
  | [] => if offset ≤ Text.byteWidth body then some ⟨number, String.ofList body, offset⟩ else none
  | newline :: rest =>
    let line := body ++ [newline]
    if offset < Text.byteWidth line then some ⟨number, String.ofList line, offset⟩
    else locate (number + 1) rest (offset - Text.byteWidth line)
termination_by cs.length
decreasing_by exact length_dropWhile_tail_lt ‹_›

end Line

/-- The line of a byte offset into a source; there is none behind the end of the source. -/
def lineAt (source : String) (offset : Nat) : Option Line := Line.locate 1 source.toList offset

/-! ### What is shown -/

namespace Line

def isIndent (c : Char) : Bool := c == ' ' || c == '\t'

/-- How many characters of a line stand before its column.  Inside a character the bytes are taken
for characters. -/
def charColumn (l : Line) : Nat := (Text.charsWithin? 0 l.text.toList l.column).getD l.column

/-- The text of a line without its indentation and the white space that ends it. -/
def shown (l : Line) : String := String.ofList (Text.trimEnd (l.text.toList.dropWhile isIndent))

/-- How far the column lies behind the indentation. -/
def caretColumn (l : Line) : Nat := l.charColumn - (l.text.toList.takeWhile isIndent).length

/-- A line with its number, and a caret under its column. -/
def excerpt (l : Line) : String :=
  let number := l.number.repr
  let bar := String.ofList (List.replicate (number.length + 1) ' ') ++ "|"
  let caret := String.ofList (List.replicate l.caretColumn '-') ++ "^"
  bar ++ "\n" ++ number ++ " | " ++ l.shown ++ "\n" ++ bar ++ " " ++ caret ++ "\n"

end Line

namespace Diagnostic

def heading (d : Diagnostic) : String :=
  match d.cause.tip? with
  | none => "Error: " ++ d.cause.name ++ "\n"
  | some tip => "Error: " ++ d.cause.name ++ " (" ++ tip ++ ")\n"

/-- A diagnostic as it is shown beside its source.  Behind the end of the source there is no line to
show, and the message stands instead. -/
def report (d : Diagnostic) (source : String) : String :=
  d.heading ++ "-> " ++ d.position.file ++ "\n" ++
    match lineAt source d.position.offset with
    | none => "   " ++ d.message ++ "\n"
    | some line => line.excerpt

end Diagnostic

end ExprLang
