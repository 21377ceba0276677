/-
# Nested blocks

What a script lays out, told row by row: a row is blank or a text, and a text
stands inside so many blocks and behind so many indents that are still open.
How many are open is counted in the script (`opened`), without the page and its
depth. A dedent on a page never goes below zero, which would hide one too many;
in a balanced script it takes back an indent of its own body.

For one step there is one case for each kind of step (`Step.run_eq`), a body is
an induction on the steps behind those that are done (`runAll_behind`), and
the whole script one on how its blocks are nested (`Balanced.laidOut`).

Key definitions: `Row`, `Step.rows`, `rowsOf`, `Covered`, `Balanced`,
`appended`.
Key theorems: `Step.run_eq`, `runAll_behind`, `Balanced.laidOut`,
`nested_blocks_laid_out`.
-/
import Mathlib
import TagTables.Emit.Layout
import TagTables.Proofs.Sections

namespace TagTables
namespace Emit

/-! ### Rows -/

/-- A row of a layout. -/
inductive Row where
  | blank
  /-- A text inside so many blocks, behind so many open indents. -/
  | text (blocks indents : Nat) (s : String)
deriving DecidableEq

/-- A row on a page of this depth, four spaces for each level. -/
def Row.render (depth : Nat) : Row → String
  | blank => "\n"
  | text blocks indents s => String.join (List.replicate (depth + blocks + indents) "    ") ++ s ++ "\n"

/-- Rows on a page of this depth. -/
def printed (depth : Nat) (rows : List Row) : String := String.join (rows.map (Row.render depth))

theorem printed_append (depth : Nat) (a b : List Row) : printed depth (a ++ b) = printed depth a ++ printed depth b := by
  rw [printed, List.map_append, String.join_append]
  rfl

theorem spaces_four_mul (n : Nat) : spaces (4 * n) = String.join (List.replicate n "    ") := by
  induction n with
  | zero => rfl
  | succ n ih =>
    have hfour : spaces (4 * n + 4) = "    " ++ spaces (4 * n) := by
      rw [← String.toList_inj]
      simp [spaces, Nat.add_comm (4 * n) 4, List.replicate_add]
    rw [Nat.mul_succ, hfour, ih, List.replicate_succ, String.join_cons]

/-! ### Balance -/

namespace Step

def isIndent : Step → Bool
  | indent => true
  | _ => false

def isDedent : Step → Bool
  | dedent => true
  | _ => false

end Step

/-- How many indents of these steps are still open behind them. -/
def opened (steps : List Step) : Nat := steps.countP Step.isIndent - steps.countP Step.isDedent

/-- There are never more dedents than indents so far. -/
def Covered (steps : List Step) : Prop :=
  ∀ before, before <+: steps → before.countP Step.isDedent ≤ before.countP Step.isIndent

instance (steps : List Step) : Decidable (Covered steps) :=
  decidable_of_iff (∀ before ∈ steps.inits, before.countP Step.isDedent ≤ before.countP Step.isIndent)
    (forall_congr' fun before => imp_congr_left (List.mem_inits before steps))

/-- In the script and in the body of every block of it, however deep, there are never more dedents than indents
so far, and as many of both in the end. -/
inductive Balanced : List Step → Prop where
  | intro {steps : List Step} (covered : Covered steps)
      (even : steps.countP Step.isDedent = steps.countP Step.isIndent)
      (bodies : ∀ header footer body, Step.block header footer body ∈ steps → Balanced body) : Balanced steps

theorem Balanced.covered {steps : List Step} (h : Balanced steps) : Covered steps := by
  cases h with
  | intro covered => exact covered

theorem Balanced.body {steps : List Step} (h : Balanced steps) {header footer : String} {body : List Step}
    (hbody : .block header footer body ∈ steps) : Balanced body := by
  cases h with
  | intro _ _ bodies => exact bodies header footer body hbody

/-! ### The rows of a script -/

mutual

/-- The rows of a step inside so many blocks, behind so many open indents. -/
def Step.rows (blocks indents : Nat) : Step → List Row
  | .line s => [.text blocks indents s]
  | .formatted parts => [.text blocks indents (String.join parts)]
  | .blank => [.blank]
  | .indent => []
  | .dedent => []
  | .block header footer body =>
    [.text blocks indents header] ++ rowsBehind (blocks + 1) indents [] body ++ [.text blocks indents footer]

/-- The rows of steps that stand behind others of the same body. -/
def rowsBehind (blocks indents : Nat) (before : List Step) : List Step → List Row
  | [] => []
  | s :: rest => s.rows blocks (indents + opened before) ++ rowsBehind blocks indents (before ++ [s]) rest

end

/-- The rows of a script. -/
def rowsOf (script : List Step) : List Row := rowsBehind 0 0 [] script

/-- What each step of a script adds to a page of this depth. -/
def appended (depth : Nat) (script : List Step) : List String :=
  script.mapIdx fun i s => printed depth (s.rows 0 (opened (script.take i)))

theorem join_appended_behind (depth : Nat) (before steps : List Step) :
    String.join (steps.mapIdx fun i s => printed depth (s.rows 0 (opened (before ++ steps.take i)))) =
      printed depth (rowsBehind 0 0 before steps) := by
  induction steps generalizing before with
  | nil => rfl
  | cons s rest ih =>
    rw [rowsBehind, printed_append, ← ih, List.mapIdx_cons, String.join_cons, List.take_zero, List.append_nil,
      Nat.zero_add]
    simp only [List.take_succ_cons, List.append_assoc, List.singleton_append]

theorem join_appended (depth : Nat) (script : List Step) :
    String.join (appended depth script) = printed depth (rowsOf script) :=
  join_appended_behind depth [] script

/-! ### Running a script -/

/-- The depth behind a step. -/
def Step.leads (depth : Nat) : Step → Nat
  | .indent => depth + 1
  | .dedent => depth - 1
  | _ => depth

/-- A dedent that is covered takes back an indent. -/
theorem Step.leads_add_opened {s : Step} {before : List Step} (h : Covered (before ++ [s])) (level : Nat) :
    s.leads (level + opened before) = level + opened (before ++ [s]) := by
  have hbefore := h before (List.prefix_append before [s])
  have hwith := h (before ++ [s]) List.prefix_rfl
  unfold opened
  rw [List.countP_append, List.countP_append] at hwith ⊢
  cases s
  all_goals
    simp only [Step.leads, Step.isIndent, Step.isDedent, List.countP_singleton, Bool.false_eq_true, if_false, if_true]
      at hwith ⊢
    omega

/-- The steps are laid out row by row wherever they stand, and the depth behind them is that before them. -/
def LaidOut (steps : List Step) : Prop :=
  ∀ (text : String) (depth blocks indents : Nat), runAll ⟨text, depth + blocks + indents⟩ steps =
    ⟨text ++ printed depth (rowsBehind blocks indents [] steps), depth + blocks + indents⟩

theorem Page.line_eq (text s : String) (depth blocks indents : Nat) :
    Page.line ⟨text, depth + blocks + indents⟩ s =
      ⟨text ++ printed depth [.text blocks indents s], depth + blocks + indents⟩ := by
  simp only [Page.line, printed, List.map_singleton, String.join_cons, String.join_nil, String.append_empty,
    Row.render, spaces_four_mul, String.append_assoc]

/-- A line given part by part is the line of what the parts make up. -/
theorem Page.formatted_eq (p : Page) (parts : List String) : p.formatted parts = p.line (String.join parts) := by
  have hfold : ∀ s : String, parts.foldl (· ++ ·) s = s ++ String.join parts := by
    induction parts with
    | nil => simp
    | cons part parts ih =>
      intro s
      rw [List.foldl_cons, ih, String.join_cons, String.append_assoc]
  rw [Page.formatted, Page.line, hfold]

/-- A step adds its rows, and only indents and dedents change the depth. -/
theorem Step.run_eq {s : Step} (hbody : ∀ header footer body, s = .block header footer body → LaidOut body)
    (text : String) (depth blocks indents : Nat) :
    s.run ⟨text, depth + blocks + indents⟩ =
      ⟨text ++ printed depth (s.rows blocks indents), s.leads (depth + blocks + indents)⟩ := by
  cases s with
  | line s => exact Page.line_eq text s depth blocks indents
  | formatted parts =>
    rw [Step.run, Page.formatted_eq]
    exact Page.line_eq text (String.join parts) depth blocks indents
  | blank => rfl
  | indent =>
    rw [Step.rows]
    exact congrArg (Page.mk · _) String.append_empty.symm
  | dedent =>
    rw [Step.rows]
    exact congrArg (Page.mk · _) String.append_empty.symm
  | block header footer body =>
    have hlevel : depth + blocks + indents + 1 = depth + (blocks + 1) + indents := by omega
    have hinside : ∀ text, Page.indent ⟨text, depth + blocks + indents⟩ = ⟨text, depth + (blocks + 1) + indents⟩ :=
      fun text => congrArg (Page.mk text) hlevel
    have houtside : ∀ text, Page.dedent ⟨text, depth + (blocks + 1) + indents⟩ = ⟨text, depth + blocks + indents⟩ :=
      fun text => congrArg (Page.mk text) (Nat.sub_eq_of_eq_add hlevel.symm)
    calc (Step.block header footer body).run ⟨text, depth + blocks + indents⟩
        = (runAll ⟨text ++ printed depth [.text blocks indents header], depth + (blocks + 1) + indents⟩
            body).dedent.line footer := by rw [Step.run, Page.line_eq, hinside]
      _ = Page.line ⟨text ++ printed depth [.text blocks indents header] ++
            printed depth (rowsBehind (blocks + 1) indents [] body), depth + blocks + indents⟩ footer := by
          rw [hbody header footer body rfl, houtside]
      _ = ⟨text ++ printed depth ((Step.block header footer body).rows blocks indents),
            depth + blocks + indents⟩ := by
          rw [Page.line_eq, Step.rows, printed_append, printed_append]
          simp only [String.append_assoc]

variable {before steps : List Step}

/-- Steps add their rows, wherever they stand in a body, if no dedent goes below its level. -/
theorem runAll_behind (hcovered : Covered (before ++ steps))
    (hbodies : ∀ header footer body, .block header footer body ∈ steps → LaidOut body)
    (text : String) (depth blocks indents : Nat) :
    runAll ⟨text, depth + blocks + (indents + opened before)⟩ steps =
      ⟨text ++ printed depth (rowsBehind blocks indents before steps),
        depth + blocks + (indents + opened (before ++ steps))⟩ := by
  -- what is done moves step by step from `steps` to `before`
  induction steps generalizing before text with
  | nil =>
    rw [runAll, rowsBehind, List.append_nil]
    exact congrArg (Page.mk · _) String.append_empty.symm
  | cons s rest ih =>
    have hdone : before ++ [s] ++ rest = before ++ s :: rest := by rw [List.append_assoc, List.singleton_append]
    have hnext : Covered (before ++ [s]) :=
      fun some hsome => hcovered some (hsome.trans (hdone ▸ List.prefix_append (before ++ [s]) rest))
    have hbody : ∀ header footer body, s = .block header footer body → LaidOut body :=
      fun header footer body hs => hbodies header footer body (hs ▸ List.mem_cons_self)
    rw [runAll, Step.run_eq hbody, ← Nat.add_assoc, Step.leads_add_opened hnext, Nat.add_assoc,
      ih (hdone.symm ▸ hcovered) fun header footer body h => hbodies header footer body (List.mem_cons_of_mem s h),
      hdone, rowsBehind, printed_append, String.append_assoc]

theorem runAll_of_covered (hcovered : Covered steps)
    (hbodies : ∀ header footer body, .block header footer body ∈ steps → LaidOut body)
    (text : String) (depth blocks indents : Nat) :
    runAll ⟨text, depth + blocks + indents⟩ steps =
      ⟨text ++ printed depth (rowsBehind blocks indents [] steps), depth + blocks + (indents + opened steps)⟩ :=
  runAll_behind (show Covered ([] ++ steps) from hcovered) hbodies text depth blocks indents

/-- Every body is laid out, from the innermost on. -/
theorem Balanced.laidOut (h : Balanced steps) : LaidOut steps := by
  induction h with
  | @intro steps covered even bodies ih =>
    intro text depth blocks indents
    have hnone : opened steps = 0 := by rw [opened, even, Nat.sub_self]
    rw [runAll_of_covered covered ih, hnone, Nat.add_zero]

theorem Balanced.runAll_take (h : Balanced steps) (p : Page) (n : Nat) :
    runAll p (steps.take n) =
      ⟨p.text ++ printed p.depth (rowsOf (steps.take n)), p.depth + opened (steps.take n)⟩ := by
  have hcovered : Covered (steps.take n) :=
    fun before hbefore => h.covered before (hbefore.trans (List.take_prefix n steps))
  have hbodies : ∀ header footer body, .block header footer body ∈ steps.take n → LaidOut body :=
    fun header footer body hbody => (h.body (List.mem_of_mem_take hbody)).laidOut
  have hrun := runAll_of_covered hcovered hbodies p.text p.depth 0 0
  rwa [Nat.zero_add] at hrun

theorem Balanced.text_take_succ (h : Balanced steps) (p : Page) (i : Nat) :
    (runAll p (steps.take (i + 1))).text =
      (runAll p (steps.take i)).text ++ (appended p.depth steps)[i]?.getD "" := by
  rw [List.take_add_one, runAll_append, appended, List.getElem?_mapIdx]
  cases hstep : steps[i]? with
  | none => exact String.append_empty.symm
  | some s =>
    have hbody : ∀ header footer body, s = .block header footer body → LaidOut body := by
      rintro header footer body rfl
      exact (h.body (List.mem_of_getElem? hstep)).laidOut
    rw [h.runAll_take, Option.toList_some, runAll, runAll]
    exact congrArg Page.text (Step.run_eq hbody _ p.depth 0 (opened (steps.take i)))

/-- **Nested blocks are laid out as they are nested.** On any page, a balanced script adds its rows, each at
four spaces for every level of the page, every block around it and every indent open before it, and leaves the
depth of the page as it was. The text on the page is then the texts that the steps of the script have
added one after the other; for a script that starts on an empty page, it is nothing else. -/
theorem nested_blocks_laid_out {script : List Step} (h : Balanced script) (p : Page) :
    runAll p script = ⟨p.text ++ printed p.depth (rowsOf script), p.depth⟩ ∧
    (∀ i, (runAll p (script.take (i + 1))).text =
      (runAll p (script.take i)).text ++ (appended p.depth script)[i]?.getD "") ∧
    (appended p.depth script).length = script.length ∧
    (runAll p script).text = p.text ++ String.join (appended p.depth script) ∧
    layout script = String.join (appended 0 script) := by
  have hrun : ∀ p : Page, runAll p script = ⟨p.text ++ printed p.depth (rowsOf script), p.depth⟩ :=
    fun p => h.laidOut p.text p.depth 0 0
  refine ⟨hrun p, h.text_take_succ p, List.length_mapIdx, ?_, ?_⟩
  · rw [hrun, join_appended]
  · rw [layout, hrun, join_appended]
    exact String.empty_append

/-- A block behind an indent, with an indent and an empty block inside it, on a page of depth one. -/
theorem nested_blocks_behind_indent :
    Balanced [.indent, .block "a" "b" [.indent, .formatted ["c", "d"], .dedent, .block "e" "f" [], .blank], .dedent] ∧
      runAll ⟨"", 1⟩
          [.indent, .block "a" "b" [.indent, .formatted ["c", "d"], .dedent, .block "e" "f" [], .blank], .dedent] =
        ⟨"        a\n                cd\n            e\n            f\n\n        b\n", 1⟩ := by
  have hempty : Balanced [] := .intro (by decide) rfl fun _ _ _ h => by cases h
  have hbody : Balanced [.indent, .formatted ["c", "d"], .dedent, .block "e" "f" [], .blank] := by
    refine .intro (by decide) rfl fun header footer body h => ?_
    obtain ⟨-, -, rfl⟩ : header = "e" ∧ footer = "f" ∧ body = [] := by simpa using h
    exact hempty
  have hscript : Balanced [.indent,
      .block "a" "b" [.indent, .formatted ["c", "d"], .dedent, .block "e" "f" [], .blank], .dedent] := by
    refine .intro (by decide) rfl fun header footer body h => ?_
    obtain ⟨-, -, rfl⟩ : header = "a" ∧ footer = "b" ∧
        body = [.indent, .formatted ["c", "d"], .dedent, .block "e" "f" [], .blank] := by simpa using h
    exact hbody
  exact ⟨hscript, (nested_blocks_laid_out hscript ⟨"", 1⟩).1⟩

-- a dedent that is not covered is lost at depth zero, and the depth is off from there on
example : (runAll {} [.dedent, .indent]).depth = 1 := rfl

end Emit
end TagTables
