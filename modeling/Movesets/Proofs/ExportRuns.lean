import Movesets.Proofs.WrittenFiles
import Movesets.Storage.Export

set_option autoImplicit false

/-!
# What an export writes

An export that preserves conditions writes one document after another over what their files hold,
and stops at the first that cannot be written.  `writeEach` is that loop as a recursion, which also
tells what was written.
-/

namespace Movesets

namespace Export
open FileTree

/-- The path of the file of a document. -/
def pathOf (outDir : String) (d : Document) : String := Path.join outDir d.fileName

/-- What is written for a document: its rendering over what its file holds. -/
def rendering (outDir : String) (t : FileTree) (d : Document) : Data :=
  d.render ((t.readText? (pathOf outDir d)).bind (Data.read? .document))

/-- The files with a document written, if it can be. -/
def store? (outDir : String) (t : FileTree) (d : Document) : Option FileTree :=
  t.writeText? (pathOf outDir d) ((rendering outDir t d).pretty .document)

theorem store?_eq (outDir : String) (t : FileTree) (d : Document) : store? outDir t d =
    t.writeText? (pathOf outDir d) ((rendering outDir t d).pretty .document) := rfl

-- Whether the path can be written to is not to be computed where `writeEach` is unfolded.
attribute [irreducible] store?

/-- The documents that are written one after another until one cannot be, each with what is written
for it, and the files then. -/
def writeEach (outDir : String) : FileTree → List Document → List (Document × Data) × FileTree
  | t, [] => ([], t)
  | t, d :: rest =>
    match store? outDir t d with
    | none => ([], t)
    | some u =>
      ((d, rendering outDir t d) :: (writeEach outDir u rest).1, (writeEach outDir u rest).2)

/-- The documents that a call writes, each with what is written for it. -/
def written (outDir : String) (t : FileTree) (documents : List Document) :
    List (Document × Data) :=
  match t.makeDirectory outDir with
  | (_, false) => []
  | (made, true) => (writeEach outDir made documents).1

/-- What a call tells of the documents it wrote: all of them, none, or those in front of one that
could not be written. -/
inductive Tells (outDir : String) (documents : List Document) :
    List Document → Except StorageError Nat → Prop
  | all : Tells outDir documents documents (.ok documents.length)
  | none : Tells outDir documents [] (.error (.outputDirectory outDir))
  | before {front : List Document} {d : Document} {rest : List Document}
      (split : documents = front ++ d :: rest) :
      Tells outDir documents front (.error (.document (pathOf outDir d)))

/-- The files that a call leaves. -/
def left (outDir : String) (t : FileTree) (documents : List Document) : FileTree :=
  (t.perform (write outDir true documents)).2

section Perform
variable (outDir : String) (t : FileTree)

theorem perform_writeOne (d : Document) : t.perform (writeOne outDir true d) =
    (store? outDir t d).elim (.error (.document (pathOf outDir d)), t) fun u => (.ok (), u) := by
  have held : (existing (pathOf outDir d) : StateM FileTree (Option Data)) t =
    ((t.readText? (pathOf outDir d)).bind (Data.read? .document), t) := rfl
  rw [writeOne, ← pathOf]
  refine (perform_bind t (existing (pathOf outDir d)) _).trans ?_
  rw [held, perform_orFail, writeText_apply, text, ← rendering, ← store?_eq]
  cases store? outDir t d <;> rfl

/-- The first document that is not written. -/
def failed? (ds : List Document) : Option Document :=
  (ds.drop (writeEach outDir t ds).1.length).head?

theorem perform_forM (ds : List Document) : t.perform (ds.forM (writeOne outDir true)) =
    ((failed? outDir t ds).elim (.ok ()) fun d => .error (.document (pathOf outDir d)),
      (writeEach outDir t ds).2) := by
  rw [failed?]
  fun_induction writeEach outDir t ds with
  | case1 t => rfl
  | case2 t d rest failed =>
    change t.perform (writeOne outDir true d >>= fun _ => rest.forM (writeOne outDir true)) = _
    rw [perform_andThen, perform_writeOne, failed]
    rfl
  | case3 t d rest u stored ih =>
    change t.perform (writeOne outDir true d >>= fun _ => rest.forM (writeOne outDir true)) = _
    rw [perform_andThen, perform_writeOne, stored]
    exact ih

theorem writeEach_isPrefix (ds : List Document) :
    (writeEach outDir t ds).1.map Prod.fst <+: ds := by
  fun_induction writeEach outDir t ds with
  | case1 t => exact List.nil_prefix
  | case2 t d rest failed => exact List.nil_prefix
  | case3 t d rest u stored ih =>
    rw [List.map_cons, List.cons_prefix_cons]
    exact ⟨rfl, ih⟩

theorem perform_write (ds : List Document) : t.perform (write outDir true ds) =
    match t.makeDirectory outDir with
    | (made, false) => (.error (.outputDirectory outDir), made)
    | (made, true) =>
      ((failed? outDir made ds).elim (.ok ds.length) fun d => .error (.document (pathOf outDir d)),
        (writeEach outDir made ds).2) := by
  have make : (Disk.makeDirectory outDir : StateM FileTree Bool) t =
    ((t.makeDirectory outDir).2, (t.makeDirectory outDir).1) := rfl
  rw [write, perform_andThen, perform_orFail, make]
  rcases t.makeDirectory outDir with ⟨made, _ | _⟩
  · rfl
  · dsimp only
    rw [if_pos rfl]
    dsimp only
    rw [perform_andThen, perform_forM]
    cases failed? outDir made ds <;> rfl

theorem tells_written (ds : List Document) :
    Tells outDir ds ((written outDir t ds).map Prod.fst) (t.perform (write outDir true ds)).1 := by
  rw [perform_write, written]
  rcases t.makeDirectory outDir with ⟨made, _ | _⟩
  · exact .none
  · obtain ⟨rest, split⟩ := writeEach_isPrefix outDir made ds
    have whole := congrArg (List.drop (writeEach outDir made ds).1.length) split
    have behind : ds.drop (writeEach outDir made ds).1.length = rest :=
      whole.symm.trans (List.drop_left' (List.length_map _))
    dsimp only
    rw [failed?, behind]
    cases rest with
    | nil =>
      rw [List.append_nil] at split
      rw [split]
      exact .all
    | cons d rest => exact .before split.symm

theorem left_eq (ds : List Document) : left outDir t ds =
    match t.makeDirectory outDir with
    | (made, false) => made
    | (made, true) => (writeEach outDir made ds).2 := by
  rw [left, perform_write]
  rcases t.makeDirectory outDir with ⟨made, _ | _⟩ <;> rfl

end Perform

end Export

end Movesets
