/-
# A disk that fails at will

Paths lead to places and places hold contents or nothing; several paths may
lead to one place. Any request for a size, a text, a directory, a write or a
move may fail, as a script of faults says. A write that fails may leave
anything at its place, a request for a directory may have made some of the
directories, and a move that fails changes nothing. Removing always works.
The disk remembers which requests have failed. Reports are written by any
reporter.

Key definitions: `Request`, `Fault`, `FaultyDisk`, `FaultyDisk.answer`, `FaultyDisk.Becomes`.
Key theorems: `FaultyDisk.loadInput_cases`, `FaultyDisk.stage_cases`, `FaultyDisk.install_cases`.
-/
import Mathlib
import TagTables.Action

namespace TagTables

/-- A request that may fail. -/
inductive Request where
  | size (p : Path)
  | readText (p : Path)
  | makeDirs (p : Path)
  | write (p : Path)
  | rename (old new : Path)
deriving DecidableEq

/-- How a request fails: the error, what a write leaves at its place, and the directories that are
made all the same. -/
structure Fault where
  error : OsError
  left : Option ByteArray := none
  made : List Path := []

/-- A disk on which paths lead to places as `place` says. -/
structure FaultyDisk {κ : Type} (place : Path → κ) where
  /-- What the places hold. -/
  files : κ → Option ByteArray
  /-- How reports are written. -/
  reporter : Reporter
  /-- The directories that have been made. -/
  directories : List Path := []
  /-- Which request fails, counted from the first, and how. -/
  faults : Nat → Option Fault := fun _ => none
  /-- How many requests have been made. -/
  asked : Nat := 0
  /-- The requests that have failed, in order. -/
  failed : List Request := []

namespace FaultyDisk

variable {κ : Type} [DecidableEq κ] {place : Path → κ}

/-- The disk with other contents, or none, at the place of a path. -/
def put (d : FaultyDisk place) (p : Path) (contents : Option ByteArray) : FaultyDisk place :=
  { d with files := Function.update d.files (place p) contents }

/-- The disk with more directories. -/
def addDirectories (d : FaultyDisk place) (made : List Path) : FaultyDisk place :=
  { d with directories := d.directories ++ made }

/-- The disk behind a request. -/
def counted (d : FaultyDisk place) : FaultyDisk place := { d with asked := d.asked + 1 }

/-- The disk behind a request that has failed. -/
def blamed (d : FaultyDisk place) (r : Request) : FaultyDisk place :=
  { d with asked := d.asked + 1, failed := d.failed ++ [r] }

/-- The answer to a request, from what comes of it and what a fault leaves. -/
def answer {α : Type} (d : FaultyDisk place) (r : Request) (result : Except OsError (α × FaultyDisk place))
    (left : Fault → FaultyDisk place) : Except OsError α × FaultyDisk place :=
  match d.faults d.asked, result with
  | some fault, _ => (.error fault.error, (left fault).blamed r)
  | none, .error e => (.error e, d.blamed r)
  | none, .ok (a, after) => (.ok a, after.counted)

/-- The contents of a file. -/
def contents (d : FaultyDisk place) (p : Path) : Except OsError ByteArray :=
  match d.files (place p) with
  | none => .error .notFound
  | some bytes => .ok bytes

/-- The text of a file. -/
def text (d : FaultyDisk place) (p : Path) : Except OsError String := do
  let bytes ← d.contents p
  match String.fromUTF8? bytes with
  | none => .error .invalidText
  | some s => .ok s

end FaultyDisk

instance {κ : Type} [DecidableEq κ] (place : Path → κ) : Host (StateM (FaultyDisk place)) where
  size p := modifyGet fun d => d.answer (.size p) ((d.contents p).map fun b => (b.size, d)) fun _ => d
  readText p := modifyGet fun d => d.answer (.readText p) ((d.text p).map fun s => (s, d)) fun _ => d
  makeDirs p := modifyGet fun d =>
    d.answer (.makeDirs p) (.ok ((), d.addDirectories (p :: p.ancestors))) fun fault => d.addDirectories fault.made
  write p bytes := modifyGet fun d =>
    d.answer (.write p) (.ok ((), d.put p (some bytes))) fun fault => d.put p fault.left
  rename old new := modifyGet fun d =>
    d.answer (.rename old new) ((d.contents old).map fun b => ((), (d.put old none).put new (some b))) fun _ => d
  remove p := modifyGet fun d => (.ok (), d.put p none)
  print _ := pure ()
  complain _ := pure ()
  note _ := pure ()
  reporter := do return (← get).reporter
  searchPath := pure none
  start _ := pure (.error .notFound)

/-- What an action comes to on a disk, and the disk behind it. -/
def FaultyDisk.carryOut {κ α : Type} {place : Path → κ} (d : FaultyDisk place)
    (act : ExceptT Failure (StateM (FaultyDisk place)) α) : Except Failure α × FaultyDisk place :=
  act.run.run d

namespace FaultyDisk

/-! ### One action behind another -/

section Sequence

variable {κ α β : Type} {place : Path → κ} {d after : FaultyDisk place}
  {act : ExceptT Failure (StateM (FaultyDisk place)) α}

theorem carryOut_bind_of_ok {a : α} (next : α → ExceptT Failure (StateM (FaultyDisk place)) β)
    (h : d.carryOut act = (.ok a, after)) : d.carryOut (act >>= next) = after.carryOut (next a) := by
  unfold carryOut at *
  rw [ExceptT.run_bind, StateT.run_bind, h]
  rfl

theorem carryOut_bind_of_error {e : Failure} (next : α → ExceptT Failure (StateM (FaultyDisk place)) β)
    (h : d.carryOut act = (.error e, after)) : d.carryOut (act >>= next) = (.error e, after) := by
  unfold carryOut at *
  rw [ExceptT.run_bind, StateT.run_bind, h]
  rfl

theorem carryOut_tryCatch_of_ok {a : α} (handler : Failure → ExceptT Failure (StateM (FaultyDisk place)) α)
    (h : d.carryOut act = (.ok a, after)) : d.carryOut (tryCatch act handler) = (.ok a, after) := by
  unfold carryOut at *
  rw [ExceptT.run_tryCatch, StateT.run_bind, h]
  rfl

theorem carryOut_tryCatch_of_error {e : Failure}
    (handler : Failure → ExceptT Failure (StateM (FaultyDisk place)) α)
    (h : d.carryOut act = (.error e, after)) :
    d.carryOut (tryCatch act handler) = after.carryOut (handler e) := by
  unfold carryOut at *
  rw [ExceptT.run_tryCatch, StateT.run_bind, h]
  rfl

theorem carryOut_lift_bind {request : StateM (FaultyDisk place) α} {a : α}
    (next : α → ExceptT Failure (StateM (FaultyDisk place)) β) (h : request.run d = (a, after)) :
    d.carryOut (ExceptT.lift request >>= next) = after.carryOut (next a) := by
  have hlift : d.carryOut (ExceptT.lift request) = (.ok (request.run d).1, (request.run d).2) := rfl
  rw [h] at hlift
  exact carryOut_bind_of_ok next hlift

theorem carryOut_attempt_of_ok {request : StateM (FaultyDisk place) (Except OsError α)} {a : α}
    (failure : OsError → Failure) (h : request.run d = (.ok a, after)) :
    d.carryOut (Action.attempt request failure) = (.ok a, after) :=
  carryOut_lift_bind _ h

theorem carryOut_attempt_of_error {request : StateM (FaultyDisk place) (Except OsError α)} {e : OsError}
    (failure : OsError → Failure) (h : request.run d = (.error e, after)) :
    d.carryOut (Action.attempt request failure) = (.error (failure e), after) :=
  carryOut_lift_bind _ h

end Sequence

/-! ### The requests

Each is answered or fails; the two cases say what it leaves. -/

section Requests

variable {κ α β : Type} {place : Path → κ} (d : FaultyDisk place) (r : Request)

theorem answer_of_faultless (h : d.faults d.asked = none) (a : α) (after : FaultyDisk place)
    (left : Fault → FaultyDisk place) : d.answer r (.ok (a, after)) left = (.ok a, after.counted) := by
  unfold answer
  rw [h]

theorem answer_ok_cases (a : α) (after : FaultyDisk place) (left : Fault → FaultyDisk place) :
    d.answer r (.ok (a, after)) left = (.ok a, after.counted) ∨
      ∃ e fault, d.answer r (.ok (a, after)) left = (.error e, (left fault).blamed r) := by
  unfold answer
  cases d.faults d.asked with
  | some fault => exact .inr ⟨fault.error, fault, rfl⟩
  | none => exact .inl rfl

/-- A request whose faults leave nothing is met, or fails and leaves nothing. -/
theorem answer_cases (result : Except OsError β) (value : β → α) (after : β → FaultyDisk place) :
    (∃ b, result = .ok b ∧
        d.answer r (result.map fun b => (value b, after b)) (fun _ => d) = (.ok (value b), (after b).counted)) ∨
      ∃ e, d.answer r (result.map fun b => (value b, after b)) (fun _ => d) = (.error e, d.blamed r) := by
  cases result with
  | error e =>
    unfold answer
    cases d.faults d.asked with
    | some fault => exact .inr ⟨fault.error, rfl⟩
    | none => exact .inr ⟨e, rfl⟩
  | ok b =>
    obtain h | ⟨e, fault, h⟩ := d.answer_ok_cases r (value b) (after b) fun _ => d
    · exact .inl ⟨b, rfl, h⟩
    · exact .inr ⟨e, h⟩

theorem contents_eq_ok_iff (p : Path) (bytes : ByteArray) :
    d.contents p = .ok bytes ↔ d.files (place p) = some bytes := by
  unfold contents
  cases d.files (place p) <;> simp

theorem fromUTF8?_eq_some_iff (bytes : ByteArray) (text : String) :
    String.fromUTF8? bytes = some text ↔ bytes = text.toUTF8 := by
  unfold String.fromUTF8?
  constructor
  · intro h
    split at h
    · cases h
      rfl
    · cases h
  · rintro rfl
    simp [String.fromUTF8, text.isValidUTF8]

theorem text_eq_ok_iff (p : Path) (text : String) :
    d.text p = .ok text ↔ d.files (place p) = some text.toUTF8 := by
  unfold FaultyDisk.text contents
  cases d.files (place p) with
  | none => simp [bind, Except.bind]
  | some bytes =>
    rw [Option.some.injEq, ← fromUTF8?_eq_some_iff]
    cases hdecoded : String.fromUTF8? bytes <;> simp [bind, Except.bind, hdecoded]

/-- From one disk to another: the files are these, and these requests have failed on the way. -/
structure Becomes (after : FaultyDisk place) (files : κ → Option ByteArray) (failed : List Request) : Prop where
  files_eq : after.files = files
  failed_eq : after.failed = d.failed ++ failed

theorem Becomes.refl : d.Becomes d d.files [] := ⟨rfl, (List.append_nil _).symm⟩

theorem Becomes.trans {d between after : FaultyDisk place} {files files' : κ → Option ByteArray}
    {failed failed' : List Request} (h : d.Becomes between files failed)
    (h' : between.Becomes after files' failed') : d.Becomes after files' (failed ++ failed') :=
  ⟨h'.files_eq, by rw [h'.failed_eq, h.failed_eq, List.append_assoc]⟩

end Requests

section Files

variable {κ : Type} [DecidableEq κ] {place : Path → κ} (d : FaultyDisk place)

theorem size_cases (p : Path) :
    (∃ n, (Disk.size p : StateM (FaultyDisk place) _).run d = (.ok n, d.counted)) ∨
      ∃ e, (Disk.size p : StateM (FaultyDisk place) _).run d = (.error e, d.blamed (.size p)) := by
  obtain ⟨b, -, h⟩ | h := d.answer_cases (.size p) (d.contents p) ByteArray.size fun _ => d
  · exact .inl ⟨b.size, h⟩
  · exact .inr h

theorem readText_cases (p : Path) :
    (∃ text, d.files (place p) = some text.toUTF8 ∧
        (Disk.readText p : StateM (FaultyDisk place) _).run d = (.ok text, d.counted)) ∨
      ∃ e, (Disk.readText p : StateM (FaultyDisk place) _).run d = (.error e, d.blamed (.readText p)) := by
  obtain ⟨text, htext, h⟩ | h := d.answer_cases (.readText p) (d.text p) id fun _ => d
  · exact .inl ⟨text, (d.text_eq_ok_iff p text).1 htext, h⟩
  · exact .inr h

theorem makeDirs_cases (p : Path) :
    (Disk.makeDirs p : StateM (FaultyDisk place) _).run d =
        (.ok (), (d.addDirectories (p :: p.ancestors)).counted) ∨
      ∃ e made, (Disk.makeDirs p : StateM (FaultyDisk place) _).run d =
        (.error e, (d.addDirectories made).blamed (.makeDirs p)) := by
  obtain h | ⟨e, fault, h⟩ := d.answer_ok_cases (.makeDirs p) () (d.addDirectories (p :: p.ancestors))
    fun fault => d.addDirectories fault.made
  · exact .inl h
  · exact .inr ⟨e, fault.made, h⟩

theorem write_cases (p : Path) (bytes : ByteArray) :
    (Disk.write p bytes : StateM (FaultyDisk place) _).run d = (.ok (), (d.put p (some bytes)).counted) ∨
      ∃ e left, (Disk.write p bytes : StateM (FaultyDisk place) _).run d =
        (.error e, (d.put p left).blamed (.write p)) := by
  obtain h | ⟨e, fault, h⟩ := d.answer_ok_cases (.write p) () (d.put p (some bytes)) fun fault => d.put p fault.left
  · exact .inl h
  · exact .inr ⟨e, fault.left, h⟩

theorem rename_cases (old new : Path) :
    (∃ bytes, d.files (place old) = some bytes ∧ (Disk.rename old new : StateM (FaultyDisk place) _).run d =
        (.ok (), ((d.put old none).put new (some bytes)).counted)) ∨
      ∃ e, (Disk.rename old new : StateM (FaultyDisk place) _).run d = (.error e, d.blamed (.rename old new)) := by
  obtain ⟨bytes, hbytes, h⟩ | h := d.answer_cases (.rename old new) (d.contents old) (fun _ => ())
    fun bytes => (d.put old none).put new (some bytes)
  · exact .inl ⟨bytes, (d.contents_eq_ok_iff old bytes).1 hbytes, h⟩
  · exact .inr h

end Files

end FaultyDisk

/-! ### The actions -/

theorem Action.stage_eq {m : Type → Type} [Monad m] [Host m] (file : Path) (contents : ByteArray) :
    stage (m := m) file contents =
      match file.parent? with
      | some directory =>
        if directory.text != "" then do
          attempt (Disk.makeDirs directory) (.noDirectory directory)
          writeStaged file contents
        else writeStaged file contents
      | none => writeStaged file contents := rfl

namespace FaultyDisk

section Actions

open Function (update)

variable {κ : Type} [DecidableEq κ] {place : Path → κ} (d : FaultyDisk place)

theorem Becomes.put {d after : FaultyDisk place} {files : κ → Option ByteArray} {failed : List Request}
    (h : d.Becomes after files failed) (p : Path) (contents : Option ByteArray) :
    d.Becomes (after.put p contents) (update files (place p) contents) failed :=
  ⟨by rw [← h.files_eq]; rfl, h.failed_eq⟩

theorem noteAll_run (events : List Event) :
    d.carryOut (Action.noteAll events) = (.ok (), d) := by
  induction events with
  | nil => rfl
  | cons event rest ih => exact (carryOut_lift_bind _ rfl).trans ih

theorem reject_run {α : Type} (file : Path) (source : String) (e : SyntaxError) :
    ∃ report, d.carryOut (Action.reject file source e : ExceptT Failure _ α) = (.error (.rejected report), d) := by
  have hreporter : (Host.reporter : StateM (FaultyDisk place) _).run d = (d.reporter, d) := rfl
  refine ⟨((d.reporter.explain? file.text source e).map Prod.fst).getD e.message, ?_⟩
  refine (carryOut_lift_bind _ hreporter).trans ?_
  cases d.reporter.explain? file.text source e <;> rfl

theorem orRemove_of_ok {α : Type} {after : FaultyDisk place}
    {act : ExceptT Failure (StateM (FaultyDisk place)) α} {a : α} (staged : Path)
    (h : d.carryOut act = (.ok a, after)) : d.carryOut (Action.orRemove act staged) = (.ok a, after) :=
  carryOut_tryCatch_of_ok _ h

theorem orRemove_of_error {α : Type} {after : FaultyDisk place}
    {act : ExceptT Failure (StateM (FaultyDisk place)) α} {e : Failure} (staged : Path)
    (h : d.carryOut act = (.error e, after)) :
    d.carryOut (Action.orRemove act staged) = (.error e, after.put staged none) :=
  carryOut_tryCatch_of_error _ h

theorem loadInput_of_readable {file : Path} {text : String} (hfile : d.files (place file) = some text.toUTF8)
    (hsize : text.toUTF8.size ≤ inputLimit) (hfirst : d.faults d.asked = none)
    (hsecond : d.faults (d.asked + 1) = none) :
    d.carryOut (Action.loadInput file) = (.ok text, d.counted.counted) := by
  have hcontents : d.contents file = .ok text.toUTF8 := (d.contents_eq_ok_iff file _).2 hfile
  have htext : d.counted.text file = .ok text := (d.counted.text_eq_ok_iff file text).2 hfile
  have hmeasured : (Disk.size file : StateM (FaultyDisk place) _).run d = (.ok text.toUTF8.size, d.counted) := by
    change d.answer (.size file) ((d.contents file).map _) _ = _
    rw [hcontents]
    exact d.answer_of_faultless _ hfirst _ _ _
  have hread : (Disk.readText file : StateM (FaultyDisk place) _).run d.counted = (.ok text, d.counted.counted) := by
    change d.counted.answer (.readText file) ((d.counted.text file).map _) _ = _
    rw [htext]
    exact d.counted.answer_of_faultless _ hsecond _ _ _
  unfold Action.loadInput
  rw [carryOut_bind_of_ok _ (carryOut_attempt_of_ok _ hmeasured), if_neg (Nat.not_lt.2 hsize)]
  exact carryOut_attempt_of_ok _ hread

/-- An input is read, or it is not; the files and the directories stay as they are. -/
theorem loadInput_cases (file : Path) :
    (∃ text after, d.carryOut (Action.loadInput file) = (.ok text, after) ∧
        d.files (place file) = some text.toUTF8 ∧ d.Becomes after d.files [] ∧
        after.directories = d.directories) ∨
      ∃ e after failed, d.carryOut (Action.loadInput file) = (.error e, after) ∧
        d.Becomes after d.files failed ∧ after.directories = d.directories ∧
        ∀ q ∈ failed, q = .size file ∨ q = .readText file := by
  unfold Action.loadInput
  obtain ⟨n, hsize⟩ | ⟨e, hsize⟩ := d.size_cases file
  · rw [carryOut_bind_of_ok _ (carryOut_attempt_of_ok _ hsize)]
    by_cases hn : inputLimit < n
    · rw [if_pos hn]
      exact .inr ⟨.tooLarge file n, d.counted, [], rfl, ⟨rfl, (List.append_nil _).symm⟩, rfl, by simp⟩
    · rw [if_neg hn]
      obtain ⟨text, htext, hread⟩ | ⟨e, hread⟩ := d.counted.readText_cases file
      · exact .inl ⟨text, _, carryOut_attempt_of_ok _ hread, htext, ⟨rfl, (List.append_nil _).symm⟩, rfl⟩
      · exact .inr ⟨_, _, [.readText file], carryOut_attempt_of_error _ hread, ⟨rfl, rfl⟩, rfl, by simp⟩
  · rw [carryOut_bind_of_error _ (carryOut_attempt_of_error _ hsize)]
    exact .inr ⟨_, _, [.size file], rfl, ⟨rfl, rfl⟩, rfl, by simp⟩

theorem writeStaged_cases (file : Path) (contents : ByteArray) :
    (∃ after, d.carryOut (Action.writeStaged file contents) = (.ok file.staging, after) ∧
        d.Becomes after (update d.files (place file.staging) (some contents)) []) ∨
      ∃ e after, d.carryOut (Action.writeStaged file contents) = (.error e, after) ∧
        d.Becomes after (update d.files (place file.staging) none) [.write file.staging] := by
  obtain hwrite | ⟨e, left, hwrite⟩ := d.write_cases file.staging contents
  · exact .inl ⟨_, carryOut_lift_bind _ hwrite, rfl, (List.append_nil _).symm⟩
  · exact .inr ⟨.unwritable file e, _, carryOut_lift_bind _ hwrite, Function.update_idem .., rfl⟩

theorem stage_run (file : Path) (contents : ByteArray) :
    (∃ made, d.Becomes made d.files [] ∧
        d.carryOut (Action.stage file contents) = made.carryOut (Action.writeStaged file contents)) ∨
      ∃ e after directory, d.carryOut (Action.stage file contents) = (.error e, after) ∧
        d.Becomes after d.files [.makeDirs directory] := by
  rw [Action.stage_eq]
  cases file.parent? with
  | none => exact .inl ⟨d, .refl d, rfl⟩
  | some directory =>
    dsimp only
    by_cases hroom : directory.text != ""
    · rw [if_pos hroom]
      obtain hmade | ⟨e, made, hmade⟩ := d.makeDirs_cases directory
      · rw [carryOut_bind_of_ok _ (carryOut_attempt_of_ok _ hmade)]
        exact .inl ⟨(d.addDirectories (directory :: directory.ancestors)).counted,
          ⟨rfl, (List.append_nil _).symm⟩, rfl⟩
      · rw [carryOut_bind_of_error _ (carryOut_attempt_of_error _ hmade)]
        exact .inr ⟨_, _, directory, rfl, rfl, rfl⟩
    · rw [if_neg hroom]
      exact .inl ⟨d, .refl d, rfl⟩

/-- An artifact is written beside its place, or nothing new is there. -/
theorem stage_cases (file : Path) (contents : ByteArray) :
    (∃ after, d.carryOut (Action.stage file contents) = (.ok file.staging, after) ∧
        d.Becomes after (update d.files (place file.staging) (some contents)) []) ∨
      ∃ e after left q, d.carryOut (Action.stage file contents) = (.error e, after) ∧
        (left = none ∨ left = d.files (place file.staging)) ∧
        d.Becomes after (update d.files (place file.staging) left) [q] ∧
        ∀ old new, q ≠ .rename old new := by
  obtain ⟨made, hmade, hstage⟩ | ⟨e, after, directory, hstage, hafter⟩ := d.stage_run file contents
  · rw [hstage, ← hmade.files_eq]
    obtain ⟨after, hrun, hafter⟩ | ⟨e, after, hrun, hafter⟩ := made.writeStaged_cases file contents
    · exact .inl ⟨after, hrun, hmade.trans hafter⟩
    · exact .inr ⟨e, after, none, .write file.staging, hrun, .inl rfl, hmade.trans hafter, nofun⟩
  · refine .inr ⟨e, after, d.files (place file.staging), .makeDirs directory, hstage, .inr rfl, ?_, nofun⟩
    rw [Function.update_eq_self]
    exact hafter

/-- What the places hold once these bytes have been moved from one to the other. -/
def moved (files : κ → Option ByteArray) (old new : κ) (bytes : ByteArray) : κ → Option ByteArray :=
  update (update files old none) new (some bytes)

/-- A staged artifact is moved into its place, or it is removed. -/
theorem install_cases (staged file : Path) :
    (∃ after bytes, d.carryOut (Action.install staged file) = (.ok (), after) ∧
        d.files (place staged) = some bytes ∧
        d.Becomes after (moved d.files (place staged) (place file) bytes) []) ∨
      ∃ e after, d.carryOut (Action.install staged file) = (.error e, after) ∧
        d.Becomes after (update d.files (place staged) none) [.rename staged file] := by
  obtain ⟨bytes, hbytes, hrename⟩ | ⟨e, hrename⟩ := d.rename_cases staged file
  · refine .inl ⟨_, bytes, carryOut_lift_bind _ hrename, hbytes, rfl, ?_⟩
    exact (List.append_nil _).symm
  · exact .inr ⟨.unwritable file e, _, carryOut_lift_bind _ hrename, rfl, rfl⟩

end Actions

end FaultyDisk
end TagTables
