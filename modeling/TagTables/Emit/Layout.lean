/-
# Layout

Emitted code is a script of steps: lines at the current depth, given as one
text or part by part, blank lines, changes of depth, and blocks, which set
their body one level deeper between a header and a footer. A level is four
spaces; a blank line has none. The depth never goes below zero.

Key definitions: `Step`, `Step.run`, `runAll`, `layout`.
-/
import TagTables.Text.Quoted

namespace TagTables
namespace Emit

/-- A step of a script. -/
inductive Step where
  | line (text : String)
  | formatted (parts : List String)
  | blank
  | indent
  | dedent
  | block (header footer : String) (body : List Step)

/-- The text so far and the depth of the next line. -/
structure Page where
  text : String := ""
  depth : Nat := 0

namespace Page

/-- Appends a line at the current depth. -/
def line (p : Page) (s : String) : Page := { p with text := p.text ++ spaces (4 * p.depth) ++ s ++ "\n" }

/-- Appends the parts of a line at the current depth, one behind the other. -/
def formatted (p : Page) (parts : List String) : Page :=
  { p with text := parts.foldl (· ++ ·) (p.text ++ spaces (4 * p.depth)) ++ "\n" }

/-- Appends a line feed. -/
def blank (p : Page) : Page := { p with text := p.text ++ "\n" }

/-- One level deeper. -/
def indent (p : Page) : Page := { p with depth := p.depth + 1 }

/-- One level up, if there is one. -/
def dedent (p : Page) : Page := { p with depth := p.depth - 1 }

end Page

mutual

/-- Carries out one step. -/
def Step.run (p : Page) : Step → Page
  | .line s => p.line s
  | .formatted parts => p.formatted parts
  | .blank => p.blank
  | .indent => p.indent
  | .dedent => p.dedent
  | .block header footer body => (runAll (p.line header).indent body).dedent.line footer

/-- Carries out a script. -/
def runAll (p : Page) : List Step → Page
  | [] => p
  | s :: rest => runAll (s.run p) rest

end

/-- The text of a script that starts on an empty page. -/
def layout (script : List Step) : String := (runAll {} script).text

end Emit
end TagTables
