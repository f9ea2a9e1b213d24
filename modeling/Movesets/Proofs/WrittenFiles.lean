import Movesets.Proofs.FileFrames
import Movesets.Storage.Config

set_option autoImplicit false

/-!
# Files that are written

A text that is written to a path is what is read from the path afterwards: writing puts a file where
no directory is, and so leaves every path leading where it led.  What is saved in the data directory
is therefore what is loaded from it.
-/

namespace Movesets

theorem Data.toList_pretty (D : Dialect) (d : Data) :
    (d.pretty D).toList = (prettyParts D 0 d).flatMap String.toList := by
  simp [pretty]

namespace FileTree

theorem writeText?_of_place? {t : FileTree} {path : String} {place : List String}
    (at_path : t.place? path = some place) (free : t.isDirectory place = false)
    (parent : t.isDirectory place.dropLast = true) (names : place.all isName = true)
    (text : String) : t.writeText? path text = some (t.set place (.file text)) := by
  rw [writeText?, at_path, Option.bind_some, free, parent, if_neg (by decide), if_pos names]

theorem readText?_of_writeText? {t t' : FileTree} {path text : String}
    (written : t.writeText? path text = some t') : t'.readText? path = some text := by
  obtain ⟨place, leads, grows, found, _⟩ := content?_of_writeText? written
  rw [readText?, grows.place? leads]
  exact found

theorem hasPath_of_readText? {t : FileTree} {path text : String}
    (read : t.readText? path = some text) : t.hasPath path = true := by
  obtain ⟨n, found, _⟩ := Option.bind_eq_some_iff.mp read
  rw [hasPath, found]
  rfl

/-- What an operation returns, and the files it leaves. -/
def perform {α : Type} (t : FileTree) (x : ExceptT StorageError (StateM FileTree) α) :
    Except StorageError α × FileTree :=
  x.run.run t

theorem perform_bind {α β : Type} (t : FileTree) (x : StateM FileTree α)
    (next : α → ExceptT StorageError (StateM FileTree) β) :
    t.perform (ExceptT.lift x >>= next) = (x t).2.perform (next (x t).1) := rfl

theorem perform_andThen {α β : Type} (t : FileTree) (x : ExceptT StorageError (StateM FileTree) α)
    (next : α → ExceptT StorageError (StateM FileTree) β) :
    t.perform (x >>= next) =
      match t.perform x with
      | (.ok a, u) => u.perform (next a)
      | (.error e, u) => (.error e, u) := by
  change (ExceptT.bindCont next (t.perform x).1).run (t.perform x).2 = _
  rcases t.perform x with ⟨_ | a, u⟩ <;> rfl

theorem perform_orFail (t : FileTree) (done : StateM FileTree Bool) (e : StorageError) :
    t.perform (Config.orFail done e) =
      (if (done t).1 then .ok () else .error e, (done t).2) := by
  change (done t).2.perform (if (done t).1 then pure () else throw e) = _
  cases (done t).1 <;> rfl

theorem writeText_apply (t : FileTree) (path text : String) :
    (Disk.writeText path text : StateM FileTree Bool) t =
      (t.writeText? path text).elim (false, t) fun t' => (true, t') := by
  dsimp only [Disk.writeText]
  cases t.writeText? path text <;> rfl

theorem perform_save (t : FileTree) (f : ConfigFile) (dataDir : String) (d : Data) :
    t.perform (Config.save f dataDir d) =
      (t.writeText? (f.path dataDir) (d.pretty .configuration)).elim
        (.error (.unwritable f (f.path dataDir)), t) fun t' => (.ok (), t') := by
  rw [Config.save, perform_orFail, writeText_apply]
  cases t.writeText? (f.path dataDir) (d.pretty .configuration) <;> rfl

theorem perform_load {α : Type} {t : FileTree} {f : ConfigFile} {dataDir text : String}
    (read : t.readText? (f.path dataDir) = some text) (fallback : α) {parse? : String → Option α}
    {a : α} (parsed : parse? text = some a) :
    t.perform (Config.load f dataDir fallback parse?) = (.ok a, t) := by
  let has : StateM FileTree Bool := Disk.hasPath (f.path dataDir)
  let get : StateM FileTree (Option String) := Disk.readText (f.path dataDir)
  have there : has t = (true, t) := congrArg (Prod.mk · t) (hasPath_of_readText? read)
  have found : get t = (some text, t) := congrArg (Prod.mk · t) read
  rw [Config.load]
  refine (perform_bind t has _).trans ?_
  rw [there]
  refine (perform_bind t get _).trans ?_
  rw [found]
  dsimp only
  rw [parsed]
  rfl

end FileTree

end Movesets
