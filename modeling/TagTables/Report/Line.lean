/-
# Reports on one line

A reporter that writes a JSON object on one line: the message, the code, the
hint if there is one, the name of the file and the labelled spans. It leaves
the name empty when the first label points outside the source. The test for
that lets one label through that starts behind the end, and there is no report
then (`isStray_iff`).

Key definitions: `Report.line`.
-/
import TagTables.Report

namespace TagTables
namespace Report

/-- How one character is written inside a string of a report. -/
def escape (c : Char) : String :=
  if c = '\\' then "\\\\"
  else if c = '"' then "\\\""
  else if c = '\r' then "\\r"
  else if c = '\n' then "\\n"
  else if c = '\t' then "\\t"
  else if c = '\x08' then "\\b"
  else if c = '\x0c' then "\\f"
  else c.toString

/-- A string of a report. -/
def text (s : String) : String := s.toList.foldl (fun out c => out ++ escape c) "\"" ++ "\""

/-- An object of a report, from its keys and their written values. -/
def object (members : List (String × String)) : String :=
  "\x7b" ++ String.intercalate "," (members.map fun m => text m.1 ++ ": " ++ m.2) ++ "\x7d"

/-- A list of a report, from its written values. -/
def list (values : List String) : String := "[" ++ String.intercalate "," values ++ "]"

/-- A labelled span. -/
def label (l : Label) : String :=
  object [("label", text l.text),
    ("span", object [("offset", Nat.repr l.span.start), ("length", Nat.repr l.span.length)])]

/-- Whether a span lies in a source of so many bytes. The last byte may lie on the end. -/
def inBounds (size : Nat) (s : Span) : Bool := s.start + s.length - 1 ≤ size

/-- Whether a span passes for one in the source, but starts behind its end. -/
def isStray (size : Nat) (s : Span) : Bool := inBounds size s && size < s.start

/-- Only an empty span one byte behind the end is stray. -/
theorem isStray_iff (size : Nat) (s : Span) :
    isStray size s = true ↔ s.start = size + 1 ∧ s.length = 0 := by
  simp only [isStray, inBounds, Bool.and_eq_true, decide_eq_true_eq]
  omega

/-- Reports on one line. -/
def line : Reporter where
  report? name source d :=
    let size := source.utf8ByteSize
    let first? := d.labels.head?
    if first?.any fun l => isStray size l.span then none
    else some <| object <|
      [("message", text d.message), ("code", text d.code), ("severity", text "error"),
        ("causes", list [])] ++
      (d.help?.map fun h => ("help", text h)).toList ++
      [("filename", text (if first?.all fun l => inBounds size l.span then name else "")),
        ("labels", list (d.labels.map label)), ("related", list [])]

end Report
end TagTables
