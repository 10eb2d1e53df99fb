import Moonfort.Concurrent.Discipline
import Moonfort.Sandbox.Types
import Mathlib.Data.Int.Basic

/-!
# The executor's private directories

Files under the names of an executor-private directory, where nobody but the
executor's own processes writes: exclusive creation, renames that replace
nothing, removal, and the bounded reads of `store.mbt`. Every operation may also
fail without an effect, and a failed write leaves any text behind. The state
notes who wrote each file and who last moved one to a name; no operation reads
these notes. What a call does outside the directory is a parameter.
-/

namespace Moonfort.Executor

open Concurrent Sandbox

/-- File contents as the store reads and writes them. -/
structure Texts (τ : Type) where
  /-- The content of a file just created. -/
  empty : τ
  /-- The size of a file in bytes. -/
  byteLength : τ → ℕ

/-- How values of a type stand in files. The JSON library writes what it can
read back. -/
structure Codec (τ α : Type) where
  /-- `value.to_json().stringify()`. -/
  stringify : α → τ
  /-- `@json.from_json(@json.parse(text))`, or `none` where either raises. -/
  parse : τ → Option α
  /-- A written value is read back. -/
  parse_stringify (value : α) : parse (stringify value) = some value

/-- One step of the executor on its directory. -/
inductive FileOp (Name τ X : Type) where
  /-- The guards that the directory is canonical and private. -/
  | available
  /-- `@env.now()`. -/
  | now
  /-- `@env.rand(16)`. -/
  | rand
  /-- `@fs.kind(path, follow_symlink=false)`. -/
  | kind (path : Name)
  /-- `@fs.exists(path)`. -/
  | pathExists (path : Name)
  /-- Whether `@fs.realpath(path)` is the path itself. -/
  | realpath (path : Name)
  /-- `protected_regular_file(path)`. -/
  | protectedRegularFile (path : Name)
  /-- `@fs.readdir`. -/
  | readdir
  /-- `bounded_regular_file(path, limit)`. -/
  | boundedRegularFile (path : Name) (limit : ℤ)
  /-- The exclusive creation in `@fs.write_file(path, .., create_mode=CreateNew)`. -/
  | create (path : Name)
  /-- The rest of that call: writing and syncing the created file. -/
  | write (path : Name) (text : τ)
  /-- `@fs.rename(source, destination, replace=false)`. -/
  | rename (source destination : Name)
  /-- `@fs.remove(path)`. -/
  | remove (path : Name)
  /-- `sync_private_directory`. -/
  | sync
  /-- A step outside the directory. -/
  | elsewhere (op : X)

/-- What each operation answers; `none` and, for the operations that change the
directory, `false` mean that it raises. -/
@[reducible] def FileOp.Res {Name τ X : Type} (XRes : X → Type) : FileOp Name τ X → Type
  | available => Bool
  | now => ℤ
  | rand => Option ℕ
  | kind _ => Option FileKind
  | pathExists _ => Option Bool
  | realpath _ => Option Bool
  | protectedRegularFile _ => Bool
  | readdir => Option (List Name)
  | boundedRegularFile _ _ => Option τ
  | create _ => Bool
  | write _ _ => Bool
  | rename _ _ => Bool
  | remove _ => Bool
  | sync => Bool
  | elsewhere op => XRes op

/-- The environment's part in a step. -/
inductive FileChoice (Name τ XC : Type) where
  /-- The step goes through. -/
  | ok
  /-- The step fails without an effect. -/
  | failed
  /-- A write fails and leaves this text. -/
  | left (text : τ)
  /-- The clock reads this. -/
  | clock (ms : ℤ)
  /-- This random identity is drawn. -/
  | nonce (n : ℕ)
  /-- The directory lists these names. -/
  | names (names : List Name)
  /-- A choice for a step outside the directory. -/
  | elsewhere (choice : XC)

/-- A file, with the thread that wrote it. -/
structure Entry (ι τ : Type) where
  /-- The content. -/
  text : τ
  /-- Who created the file. -/
  writer : ι

/-- The directory and what lies outside it. -/
structure FileState (ι Name τ S : Type) where
  /-- The files by name. -/
  files : Name → Option (Entry ι τ)
  /-- Who last moved a file to a name. -/
  movedBy : Name → Option ι
  /-- Who drew each random identity so far. Identities of sixteen random bytes
  are taken never to repeat. -/
  drawnBy : ℕ → Option ι
  /-- What lies outside the directory. -/
  elsewhere : S

namespace FileState

variable {ι Name τ S : Type}

/-- A directory with these files, before any call. -/
def initial (files : Name → Option (Entry ι τ)) (elsewhere : S) : FileState ι Name τ S :=
  ⟨files, fun _ => none, fun _ => none, elsewhere⟩

/-- The directory after thread `i` draws a random identity. -/
def draw (s : FileState ι Name τ S) (i : ι) (n : ℕ) : FileState ι Name τ S :=
  { s with drawnBy := Function.update s.drawnBy n (some i) }

/-- Drawing a nonce leaves the files. -/
@[simp] theorem files_draw (s : FileState ι Name τ S) (i : ι) (n : ℕ) :
    (s.draw i n).files = s.files := rfl

/-- Drawing a nonce leaves who moved what. -/
@[simp] theorem movedBy_draw (s : FileState ι Name τ S) (i : ι) (n : ℕ) :
    (s.draw i n).movedBy = s.movedBy := rfl

variable [DecidableEq Name]

/-- The directory after a file is put under a name. -/
def put (s : FileState ι Name τ S) (path : Name) (entry : Entry ι τ) : FileState ι Name τ S :=
  { s with files := Function.update s.files path (some entry) }

/-- The directory after the file under a name is removed. -/
def erase (s : FileState ι Name τ S) (path : Name) : FileState ι Name τ S :=
  { s with files := Function.update s.files path none }

/-- The directory after thread `i` moves a file. -/
def move (s : FileState ι Name τ S) (i : ι) (source destination : Name) (entry : Entry ι τ) :
    FileState ι Name τ S :=
  { s with
    files := Function.update (Function.update s.files source none) destination (some entry)
    movedBy := Function.update s.movedBy destination (some i) }

/-- Writing a file leaves who moved what. -/
@[simp] theorem movedBy_put (s : FileState ι Name τ S) (path : Name) (entry : Entry ι τ) :
    (s.put path entry).movedBy = s.movedBy := rfl

/-- Removing a file leaves who moved what. -/
@[simp] theorem movedBy_erase (s : FileState ι Name τ S) (path : Name) :
    (s.erase path).movedBy = s.movedBy := rfl

/-- Writing a file leaves who drew what. -/
@[simp] theorem drawnBy_put (s : FileState ι Name τ S) (path : Name) (entry : Entry ι τ) :
    (s.put path entry).drawnBy = s.drawnBy := rfl

/-- Removing a file leaves who drew what. -/
@[simp] theorem drawnBy_erase (s : FileState ι Name τ S) (path : Name) :
    (s.erase path).drawnBy = s.drawnBy := rfl

/-- Moving a file leaves who drew what. -/
@[simp] theorem drawnBy_move (s : FileState ι Name τ S) (i : ι) (source destination : Name)
    (entry : Entry ι τ) : (s.move i source destination entry).drawnBy = s.drawnBy := rfl

/-- Putting a file changes the name it is put under. -/
theorem files_put (s : FileState ι Name τ S) (path name : Name) (entry : Entry ι τ) :
    (s.put path entry).files name = if name = path then some entry else s.files name := by
  simp only [put, Function.update_apply]

/-- Removing a file changes its name. -/
theorem files_erase (s : FileState ι Name τ S) (path name : Name) :
    (s.erase path).files name = if name = path then none else s.files name := by
  simp only [erase, Function.update_apply]

/-- Moving a file changes its two names. -/
theorem files_move (s : FileState ι Name τ S) (i : ι) (source destination name : Name)
    (entry : Entry ι τ) :
    (s.move i source destination entry).files name =
      if name = destination then some entry
      else if name = source then none else s.files name := by
  simp only [move, Function.update_apply]

/-- Moving a file notes who did. -/
theorem movedBy_move (s : FileState ι Name τ S) (i : ι) (source destination name : Name)
    (entry : Entry ι τ) :
    (s.move i source destination entry).movedBy name =
      if name = destination then some i else s.movedBy name := by
  simp only [move, Function.update_apply]

end FileState

section Act

variable {ι Name τ X XC S : Type} {XRes : X → Type} [DecidableEq ι] [DecidableEq Name]

/-- The effect of a step of thread `i`. A write goes through the handle of the
file it created, so under a name that no longer holds that file it shows nowhere. -/
def fileAct (texts : Texts τ) (E : World ι X XRes XC S) (i : ι) (op : FileOp Name τ X)
    (choice : FileChoice Name τ XC) (s : FileState ι Name τ S) :
    Option (op.Res XRes × FileState ι Name τ S) :=
  match op, choice with
  | .available, .ok => some (true, s)
  | .available, .failed => some (false, s)
  | .now, .clock ms => some (ms, s)
  | .rand, .nonce n => if s.drawnBy n = none then some (some n, s.draw i n) else none
  | .rand, .failed => some (none, s)
  | .kind path, .ok => some ((s.files path).map fun _ => .regular, s)
  | .kind _, .failed => some (none, s)
  | .pathExists path, .ok => some (some (s.files path).isSome, s)
  | .pathExists _, .failed => some (none, s)
  | .realpath path, .ok => some ((s.files path).map fun _ => true, s)
  | .realpath _, .failed => some (none, s)
  | .protectedRegularFile path, .ok => some ((s.files path).isSome, s)
  | .protectedRegularFile _, .failed => some (false, s)
  | .readdir, .names names =>
    if names.all fun name => (s.files name).isSome then some (some names, s) else none
  | .readdir, .failed => some (none, s)
  | .boundedRegularFile path limit, .ok =>
    some ((s.files path).bind fun entry =>
      if 0 < limit ∧ (texts.byteLength entry.text : ℤ) ≤ limit then some entry.text else none, s)
  | .boundedRegularFile _ _, .failed => some (none, s)
  | .create path, .ok =>
    if (s.files path).isSome then some (false, s) else some (true, s.put path ⟨texts.empty, i⟩)
  | .create _, .failed => some (false, s)
  | .write path text, .ok =>
    match s.files path with
    | some entry =>
      if entry.writer = i then some (true, s.put path ⟨text, i⟩) else some (true, s)
    | none => some (true, s)
  | .write path _, .left text =>
    match s.files path with
    | some entry =>
      if entry.writer = i then some (false, s.put path ⟨text, i⟩) else some (false, s)
    | none => some (false, s)
  | .rename source destination, .ok =>
    match s.files source with
    | some entry =>
      if (s.files destination).isSome then some (false, s)
      else some (true, s.move i source destination entry)
    | none => some (false, s)
  | .rename _ _, .failed => some (false, s)
  | .remove path, .ok =>
    if (s.files path).isSome then some (true, s.erase path) else some (false, s)
  | .remove _, .failed => some (false, s)
  | .sync, .ok => some (true, s)
  | .sync, .failed => some (false, s)
  | .elsewhere op, .elsewhere choice =>
    (E.act i op choice s.elsewhere).map fun (result, rest) => (result, { s with elsewhere := rest })
  | _, _ => none

/-- An executor-private directory and what lies outside it, as a world. -/
def fileWorld (texts : Texts τ) (E : World ι X XRes XC S) :
    World ι (FileOp Name τ X) (FileOp.Res XRes) (FileChoice Name τ XC) (FileState ι Name τ S) where
  act := fileAct texts E

/-- The operations that look without changing anything. -/
def FileOp.LooksOnly : FileOp Name τ X → Prop
  | .rand | .create _ | .write _ _ | .rename _ _ | .remove _ | .elsewhere _ => False
  | _ => True

variable {texts : Texts τ} {E : World ι X XRes XC S} {i : ι} {s s' : FileState ι Name τ S}

/-- A directory lists files that exist. -/
theorem act_readdir (names : List Name) : (fileWorld texts E).act i .readdir (.names names) s =
    if names.all fun name => (s.files name).isSome then some (some names, s) else none := rfl

/-- A nonce is drawn once. -/
theorem act_rand (n : ℕ) : (fileWorld texts E).act i .rand (.nonce n) s =
    if s.drawnBy n = none then some (some n, s.draw i n) else none := rfl

/-- A file is created where none is. -/
theorem act_create (path : Name) : (fileWorld texts E).act i (.create path) .ok s =
    if (s.files path).isSome then some (false, s)
    else some (true, s.put path ⟨texts.empty, i⟩) := rfl

/-- A write replaces the text of a file that the writer created. -/
theorem act_write (path : Name) (text : τ) : (fileWorld texts E).act i (.write path text) .ok s =
    match s.files path with
    | some entry =>
      if entry.writer = i then some (true, s.put path ⟨text, i⟩) else some (true, s)
    | none => some (true, s) := rfl

/-- A write that fails leaves what it wrote so far. -/
theorem act_write_left (path : Name) (text left : τ) :
    (fileWorld texts E).act i (.write path text) (.left left) s =
      match s.files path with
      | some entry =>
        if entry.writer = i then some (false, s.put path ⟨left, i⟩) else some (false, s)
      | none => some (false, s) := rfl

/-- A rename moves a file to a destination where none is. -/
theorem act_rename (source destination : Name) :
    (fileWorld texts E).act i (.rename source destination) .ok s =
      match s.files source with
      | some entry =>
        if (s.files destination).isSome then some (false, s)
        else some (true, s.move i source destination entry)
      | none => some (false, s) := rfl

/-- A removal erases the file, if there is one. -/
theorem act_remove (path : Name) : (fileWorld texts E).act i (.remove path) .ok s =
    if (s.files path).isSome then some (true, s.erase path) else some (false, s) := rfl

/-- Looking leaves the directory as it is. -/
theorem FileOp.LooksOnly.state_eq {op : FileOp Name τ X} {result : op.Res XRes} (hop : op.LooksOnly)
    (h : (fileWorld texts E).Effect i op s result s') : s' = s := by
  obtain ⟨choice, h⟩ := h
  cases op <;> first | exact hop.elim | skip
  case readdir =>
    cases choice with
    | names names =>
      rw [act_readdir] at h
      split at h <;> cases h
      rfl
    | failed => cases h; rfl
    | _ => cases h
  all_goals cases choice <;> cases h <;> rfl

/-- Drawing a random identity. -/
theorem effect_rand {result : Option ℕ} (h : (fileWorld texts E).Effect i .rand s result s') :
    (∃ n, result = some n ∧ s.drawnBy n = none ∧ s' = s.draw i n) ∨ result = none ∧ s' = s := by
  obtain ⟨choice, h⟩ := h
  cases choice with
  | nonce n =>
    rw [act_rand] at h
    split at h <;> cases h
    exact .inl ⟨n, rfl, ‹_›, rfl⟩
  | failed => cases h; exact .inr ⟨rfl, rfl⟩
  | _ => cases h

/-- Creating a file. -/
theorem effect_create {path : Name} {result : Bool}
    (h : (fileWorld texts E).Effect i (.create path) s result s') :
    (result = true ∧ s.files path = none ∧ s' = s.put path ⟨texts.empty, i⟩) ∨
      result = false ∧ s' = s := by
  obtain ⟨choice, h⟩ := h
  cases choice with
  | ok =>
    rw [act_create] at h
    split at h <;> cases h
    · exact .inr ⟨rfl, rfl⟩
    · exact .inl ⟨rfl, Option.not_isSome_iff_eq_none.mp ‹_›, rfl⟩
  | failed => cases h; exact .inr ⟨rfl, rfl⟩
  | _ => cases h

/-- Writing the file created: only a write that answers `true` leaves its own text. -/
theorem effect_write {path : Name} {text : τ} {result : Bool}
    (h : (fileWorld texts E).Effect i (.write path text) s result s') :
    (∃ entry text', s.files path = some entry ∧ entry.writer = i ∧
        (result = true → text' = text) ∧ s' = s.put path ⟨text', i⟩) ∨
      (∀ entry, s.files path = some entry → entry.writer ≠ i) ∧ s' = s := by
  obtain ⟨choice, h⟩ := h
  cases hfile : s.files path with
  | none =>
    cases choice with
    | ok => rw [act_write, hfile] at h; cases h; exact .inr ⟨by simp, rfl⟩
    | left text' => rw [act_write_left, hfile] at h; cases h; exact .inr ⟨by simp, rfl⟩
    | _ => cases h
  | some entry =>
    by_cases hwriter : entry.writer = i
    · cases choice with
      | ok =>
        rw [act_write, hfile] at h
        dsimp only at h
        rw [if_pos hwriter] at h
        cases h
        exact .inl ⟨entry, text, rfl, hwriter, fun _ => rfl, rfl⟩
      | left text' =>
        rw [act_write_left, hfile] at h
        dsimp only at h
        rw [if_pos hwriter] at h
        cases h
        exact .inl ⟨entry, text', rfl, hwriter, Bool.noConfusion, rfl⟩
      | _ => cases h
    · have hother : ∀ entry', some entry = some entry' → entry'.writer ≠ i := by
        rintro entry' ⟨⟩
        exact hwriter
      cases choice with
      | ok =>
        rw [act_write, hfile] at h
        dsimp only at h
        rw [if_neg hwriter] at h
        cases h
        exact .inr ⟨hother, rfl⟩
      | left text' =>
        rw [act_write_left, hfile] at h
        dsimp only at h
        rw [if_neg hwriter] at h
        cases h
        exact .inr ⟨hother, rfl⟩
      | _ => cases h

/-- Moving a file. -/
theorem effect_rename {source destination : Name} {result : Bool}
    (h : (fileWorld texts E).Effect i (.rename source destination) s result s') :
    (result = true ∧ ∃ entry, s.files source = some entry ∧ s.files destination = none ∧
        s' = s.move i source destination entry) ∨
      result = false ∧ s' = s := by
  obtain ⟨choice, h⟩ := h
  cases choice with
  | ok =>
    cases hfile : s.files source with
    | none => rw [act_rename, hfile] at h; cases h; exact .inr ⟨rfl, rfl⟩
    | some entry =>
      rw [act_rename, hfile] at h
      dsimp only at h
      split at h <;> cases h
      · exact .inr ⟨rfl, rfl⟩
      · exact .inl ⟨rfl, entry, rfl, Option.not_isSome_iff_eq_none.mp ‹_›, rfl⟩
  | failed => cases h; exact .inr ⟨rfl, rfl⟩
  | _ => cases h

/-- Removing a file. -/
theorem effect_remove {path : Name} {result : Bool}
    (h : (fileWorld texts E).Effect i (.remove path) s result s') :
    (result = true ∧ (s.files path).isSome ∧ s' = s.erase path) ∨ result = false ∧ s' = s := by
  obtain ⟨choice, h⟩ := h
  cases choice with
  | ok =>
    rw [act_remove] at h
    split at h <;> cases h
    · exact .inl ⟨rfl, ‹_›, rfl⟩
    · exact .inr ⟨rfl, rfl⟩
  | failed => cases h; exact .inr ⟨rfl, rfl⟩
  | _ => cases h

/-- A bounded read answers with the file's text. -/
theorem effect_boundedRegularFile {path : Name} {limit : ℤ} {text : τ}
    (h : (fileWorld texts E).Effect i (.boundedRegularFile path limit) s (some text) s') :
    ∃ entry, s.files path = some entry ∧ entry.text = text ∧ 0 < limit ∧
      (texts.byteLength text : ℤ) ≤ limit := by
  obtain ⟨choice, h⟩ := h
  cases choice with
  | ok =>
    obtain ⟨hread, _⟩ := Prod.mk.inj (Option.some.inj h)
    obtain ⟨entry, hfile, hread⟩ := Option.bind_eq_some_iff.mp hread
    obtain ⟨hlimit, hread⟩ := Option.ite_none_right_eq_some.mp hread
    cases hread
    exact ⟨entry, hfile, rfl, hlimit⟩
  | failed => cases h
  | _ => cases h

/-- `@fs.exists` answers truly, where it answers. -/
theorem effect_pathExists {path : Name} {present : Bool}
    (h : (fileWorld texts E).Effect i (.pathExists path) s (some present) s') :
    present = (s.files path).isSome := by
  obtain ⟨choice, h⟩ := h
  cases choice with
  | ok => cases h; rfl
  | _ => cases h

/-- Files are regular. -/
theorem effect_kind {path : Name} {kind : FileKind}
    (h : (fileWorld texts E).Effect i (.kind path) s (some kind) s') : kind = .regular := by
  obtain ⟨choice, h⟩ := h
  cases choice with
  | ok =>
    have hkind := (Prod.mk.inj (Option.some.inj h)).1
    obtain ⟨_, _, hkind⟩ := Option.map_eq_some_iff.mp hkind
    exact hkind.symm
  | _ => cases h

/-- A step outside the directory leaves the directory as it is. -/
theorem effect_elsewhere {op : X} {result : XRes op}
    (h : (fileWorld texts E).Effect i (.elsewhere op) s result s') :
    ∃ rest, E.Effect i op s.elsewhere result rest ∧ s' = { s with elsewhere := rest } := by
  obtain ⟨choice, h⟩ := h
  cases choice with
  | elsewhere choice =>
    obtain ⟨⟨result', rest⟩, hact, heq⟩ := Option.map_eq_some_iff.mp h
    cases heq
    exact ⟨rest, ⟨choice, hact⟩, rfl⟩
  | _ => cases h

/-- A step in the directory leaves what lies outside it as it is. -/
theorem elsewhere_of_effect {op : FileOp Name τ X} {result : op.Res XRes}
    (h : (fileWorld texts E).Effect i op s result s') (hop : ∀ op', op ≠ .elsewhere op') :
    s'.elsewhere = s.elsewhere := by
  cases op with
  | rand => rcases effect_rand h with ⟨_, _, _, rfl⟩ | ⟨_, rfl⟩ <;> rfl
  | create path => rcases effect_create h with ⟨_, _, rfl⟩ | ⟨_, rfl⟩ <;> rfl
  | write path text => rcases effect_write h with ⟨_, _, _, _, _, rfl⟩ | ⟨_, rfl⟩ <;> rfl
  | rename source destination =>
    rcases effect_rename h with ⟨_, _, _, _, rfl⟩ | ⟨_, rfl⟩ <;> rfl
  | remove path => rcases effect_remove h with ⟨_, _, rfl⟩ | ⟨_, rfl⟩ <;> rfl
  | elsewhere op => exact absurd rfl (hop op)
  | _ => rw [FileOp.LooksOnly.state_eq (by trivial) h]

end Act

/-! ## Calls as programs -/

/-- What a call of the executor raises. -/
inductive Failure where
  /-- `fail(message)`. -/
  | failed (message : String)
  /-- An error of a library. -/
  | external
  deriving DecidableEq

/-- A call over an executor-private directory. -/
abbrev FileProgram (Name τ : Type) {X : Type} (XRes : X → Type) (α : Type) :=
  Program.Raising (FileOp Name τ X) (FileOp.Res XRes) Failure α

/-- The result of a library call, which may have raised. -/
def orRaise {Op : Type} {Res : Op → Type} {α : Type} :
    Option α → Program.Raising Op Res Failure α
  | some value => pure value
  | none => throw .external

namespace Fs

variable {Name τ X : Type} {XRes : X → Type}

/-- The guards that the directory is canonical and private. -/
def available : FileProgram Name τ XRes Bool := Program.attempt FileOp.available

/-- `@env.now()`. -/
def now : FileProgram Name τ XRes ℤ := Program.attempt FileOp.now

/-- `@env.rand(16)`. -/
def rand : FileProgram Name τ XRes (Option ℕ) := Program.attempt FileOp.rand

/-- `@fs.kind(path, follow_symlink=false)`. -/
def kind (path : Name) : FileProgram Name τ XRes FileKind :=
  Program.attempt (FileOp.kind path) >>= orRaise

/-- `@fs.exists(path)`. -/
def pathExists (path : Name) : FileProgram Name τ XRes Bool :=
  Program.attempt (FileOp.pathExists path) >>= orRaise

/-- Whether `@fs.realpath(path)` is the path itself. -/
def realpath (path : Name) : FileProgram Name τ XRes Bool :=
  Program.attempt (FileOp.realpath path) >>= orRaise

/-- `protected_regular_file(path)`. -/
def protectedRegularFile (path : Name) : FileProgram Name τ XRes Bool :=
  Program.attempt (FileOp.protectedRegularFile path)

/-- `@fs.readdir`. -/
def readdir : FileProgram Name τ XRes (List Name) := Program.attempt FileOp.readdir >>= orRaise

/-- `bounded_regular_file(path, limit)`. -/
def boundedRegularFile (path : Name) (limit : ℤ) : FileProgram Name τ XRes τ :=
  Program.attempt (FileOp.boundedRegularFile path limit) >>= orRaise

/-- A step that answers whether it was done, and raises if not. -/
def done {Op : Type} {Res : Op → Type} (answer : Program.Raising Op Res Failure Bool) :
    Program.Raising Op Res Failure Unit :=
  answer >>= fun ok => Program.ensure ok .external

/-- `@fs.write_file(path, text, create_mode=CreateNew, permission=0o600, sync=Full)`. -/
def writeFile (path : Name) (text : τ) : FileProgram Name τ XRes Unit := do
  done (Program.attempt (FileOp.create path))
  done (Program.attempt (FileOp.write path text))

/-- `@fs.rename(source, destination, replace=false)`. -/
def rename (source destination : Name) : FileProgram Name τ XRes Unit :=
  done (Program.attempt (FileOp.rename source destination))

/-- `@fs.remove(path)`. -/
def remove (path : Name) : FileProgram Name τ XRes Unit :=
  done (Program.attempt (FileOp.remove path))

/-- `sync_private_directory`. -/
def sync : FileProgram Name τ XRes Bool := Program.attempt FileOp.sync

end Fs

/-! ## Rules for the steps of a call -/

section Rules

variable {ι Name τ X XC S α : Type} {XRes : X → Type} [DecidableEq ι] [DecidableEq Name]
  {texts : Texts τ} {E : World ι X XRes XC S}

/-- A history of calls over an executor-private directory. -/
abbrev FileHistory (ι Name τ : Type) {X : Type} (XRes : X → Type) (S : Type) :=
  History ι (FileOp Name τ X) (FileOp.Res XRes) (FileState ι Name τ S)

/-- A discipline of calls over an executor-private directory. -/
abbrev FileDiscipline (Name : Type) [DecidableEq Name] (texts : Texts τ)
    (E : World ι X XRes XC S) :=
  Discipline (fileWorld texts E : World ι (FileOp Name τ X) (FileOp.Res XRes)
    (FileChoice Name τ XC) (FileState ι Name τ S))

open Concurrent.Discipline

variable {D : FileDiscipline Name texts E} {look : FileOp Name τ X → Prop} {i : ι}
  {P : FileHistory ι Name τ XRes S → Prop} {F : Failure → FileHistory ι Name τ XRes S → Prop}

/-- Passing on the result of a library call. -/
theorem raises_orRaise {result : Option α} (hP : D.Robust look i P)
    (hF : D.Stable i (F .external)) (hPF : ∀ h, P h → F .external h) :
    D.Raises i P (orRaise result : FileProgram Name τ XRes α)
      (fun value h => result = some value ∧ P h) F := by
  cases result with
  | none => exact raises_throw hF fun h _ => hPF h
  | some value =>
    exact Discipline.raises_pure ((stable_const _).and hP.stable) fun _ _ h => ⟨rfl, h⟩

/-- A look that may raise keeps a robust assertion. -/
theorem raises_attempt_orRaise {op : FileOp Name τ X} {f : op.Res XRes → Option α}
    (hP : D.Robust look i P) (hlooks : D.Looks i look) (hlook : look op)
    (hF : ∀ error, D.Stable i (F error)) (hPF : ∀ error h, P h → F error h) :
    D.Raises i P (Program.attempt op >>= fun result => orRaise (f result))
      (fun _ => P) F :=
  .bind (hP.raises_attempt hlooks hlook) hF fun _ =>
    (raises_orRaise hP (hF _) (hPF _)).conseq (fun _ _ h => h) (fun _ _ _ h => h.2)
      fun _ _ _ h => h

/-- What holds after a step by whether it was done. -/
def Answered (Q E' : FileHistory ι Name τ XRes S → Prop) :
    Bool → FileHistory ι Name τ XRes S → Prop
  | true => Q
  | false => E'

/-- Both of its assertions make it stable. -/
theorem answered_stable {Q E' : FileHistory ι Name τ XRes S → Prop} (hQ : D.Stable i Q)
    (hE : D.Stable i E') (ok : Bool) : D.Stable i (Answered Q E' ok) := by
  cases ok with
  | true => exact hQ
  | false => exact hE

/-- A step that raises unless it was done. -/
theorem raises_done {answer : FileProgram Name τ XRes Bool}
    {Q : FileHistory ι Name τ XRes S → Prop} (hF : ∀ error, D.Stable i (F error))
    (hQ : D.Stable i Q)
    (hanswer : D.Raises i P answer (Answered Q (F .external)) F) :
    D.Raises i P (Fs.done answer) (fun _ => Q) F := by
  refine Raises.bind hanswer hF fun ok => ?_
  cases ok with
  | true => exact Discipline.raises_pure hQ fun _ _ h => h
  | false => exact raises_throw (hF _) fun _ _ h => h

end Rules

end Moonfort.Executor
