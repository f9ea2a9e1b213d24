import Movesets.Proofs.Distribution
import Movesets.Proofs.ExportRuns
import Movesets.Proofs.FileNames

set_option autoImplicit false

/-!
# Conditions that exports preserve

An export that preserves conditions replaces the marked condition of each document it writes and
keeps the others.  The new condition is marked in turn, so the next export replaces it again: the
foreign conditions of a file are the same after any number of exports.
-/

namespace Movesets

namespace Document
open Condition

theorem isMarked_toMarkedDocument (c : Condition) : isMarked c.toMarkedDocument = true := by
  simp [isMarked, toMarkedDocument, Data.text?]

theorem conditions_render (d : Document) (existing : Option Data) :
    (d.render existing).get? "conditions" =
      some (.list (d.condition.toMarkedDocument :: existing.elim [] foreignConditions)) := by
  simp [render]

theorem isMarked_of_mem_foreign {existing : Option Data} {c : Data}
    (mem : c ∈ existing.elim [] foreignConditions) : isMarked c = false := by
  cases existing with
  | none => cases mem
  | some old => simpa using (List.mem_filter.mp mem).2

/-- A rendering has the foreign conditions of what it was rendered over. -/
theorem foreignConditions_render (d : Document) (existing : Option Data) :
    foreignConditions (d.render existing) = existing.elim [] foreignConditions := by
  rw [foreignConditions, conditions_render, Option.bind_some, Data.list?, Option.getD_some,
    List.filter_cons_of_neg (by simp [isMarked_toMarkedDocument]), List.filter_eq_self]
  intro c mem
  rw [isMarked_of_mem_foreign mem]
  rfl

theorem nodup_build (m : Model) (l : Library) : ((build m l).map source).Nodup := by
  rw [build_eq, List.map_map]
  exact l.nodup_sources

end Document

namespace FileTree

/-- The foreign conditions of the file at a place; none if it is not there or no document. -/
def foreignAt (t : FileTree) (place : List String) : List Data :=
  ((t.textAt? place).bind (Data.read? .document)).elim [] Document.foreignConditions

theorem foreignAt_congr {t u : FileTree} {place : List String}
    (same : u.textAt? place = t.textAt? place) : u.foreignAt place = t.foreignAt place := by
  rw [foreignAt, foreignAt, same]

theorem readText?_of_place? {t : FileTree} {path : String} {place : List String}
    (leads : t.place? path = some place) : t.readText? path = t.textAt? place := by
  rw [readText?, leads]
  rfl

end FileTree

namespace Export
open FileTree

/-- The file of a document stands in the output directory, under its name. -/
theorem place?_fileName {outDir : String} {t : FileTree} {d : Document} {place : List String}
    (leads : t.place? (pathOf outDir d) = some place) :
    ∃ directory, place = directory ++ [d.fileName] := by
  have named : d.fileName ≠ "" := d.fileName_ne (by decide)
  rw [FileTree.place?, pathOf, Path.steps_join d.slash_not_mem_fileName named] at leads
  split at leads
  next => exact walk?_concat leads (d.fileName_ne (by decide)) (d.fileName_ne (by decide))
  next => cases leads

/-- Documents of different sources have different files. -/
theorem source_eq_of_place? {outDir : String} {t : FileTree} {d e : Document}
    {place : List String} (first : t.place? (pathOf outDir d) = some place)
    (second : t.place? (pathOf outDir e) = some place) : d.source = e.source := by
  obtain ⟨front, rfl⟩ := place?_fileName first
  obtain ⟨front', same⟩ := place?_fileName second
  exact Document.source_eq_of_fileName_eq (List.append_inj_right' same rfl |> List.singleton_inj.mp)

/-- What was written reads back as what it was written from. -/
def ReadsBack (ws : List (Document × Data)) : Prop :=
  ∀ w ∈ ws, Data.read? .document (w.2.pretty .document) = some w.2

section Stored
variable {outDir : String} {t u : FileTree} {d : Document} (stored : store? outDir t d = some u)
include stored

theorem exists_place_of_stored : ∃ place, t.place? (pathOf outDir d) = some place ∧ t.Grows u ∧
    u.textAt? place = some ((rendering outDir t d).pretty .document) ∧
    (∀ p, p ≠ place → u.textAt? p = t.textAt? p) ∧
    rendering outDir t d = d.render ((t.textAt? place).bind (Data.read? .document)) := by
  rw [store?_eq] at stored
  obtain ⟨place, leads, grows, found, others⟩ := content?_of_writeText? stored
  refine ⟨place, leads, grows, found, others, ?_⟩
  rw [rendering, readText?_of_place? leads]

/-- Writing a document changes the foreign conditions of no file, its own included. -/
theorem foreignAt_of_stored
    (reads : Data.read? .document ((rendering outDir t d).pretty .document) =
      some (rendering outDir t d)) (place : List String) :
    u.foreignAt place = t.foreignAt place := by
  obtain ⟨own, _, _, found, others, rendered⟩ := exists_place_of_stored stored
  by_cases here : place = own
  · rw [here, foreignAt, found, Option.bind_some, reads, Option.elim_some, rendered,
      Document.foreignConditions_render]
    rfl
  · exact foreignAt_congr (others place here)

end Stored

theorem grows_writeEach (outDir : String) (t : FileTree) (ds : List Document) :
    t.Grows (writeEach outDir t ds).2 := by
  fun_induction writeEach outDir t ds with
  | case1 t => exact .refl t
  | case2 t d rest failed => exact .refl t
  | case3 t d rest u stored ih =>
    obtain ⟨_, _, grows, _⟩ := exists_place_of_stored stored
    exact grows.trans ih

section WriteEach
variable {outDir : String} {t : FileTree} {ds : List Document}

/-- Only the files of the documents that are written are changed. -/
theorem textAt?_writeEach {place : List String}
    (other : ∀ w ∈ (writeEach outDir t ds).1,
      (writeEach outDir t ds).2.place? (pathOf outDir w.1) ≠ some place) :
    (writeEach outDir t ds).2.textAt? place = t.textAt? place := by
  fun_induction writeEach outDir t ds with
  | case1 t => rfl
  | case2 t d rest failed => rfl
  | case3 t d rest u stored ih =>
    obtain ⟨own, leads, grows, _, others, _⟩ := exists_place_of_stored stored
    have away : place ≠ own := by
      rintro rfl
      exact other _ List.mem_cons_self ((grows_writeEach outDir u rest).place? (grows.place? leads))
    exact (ih fun w mem => other w (List.mem_cons_of_mem _ mem)).trans (others place away)

theorem foreignAt_writeEach (reads : ReadsBack (writeEach outDir t ds).1) (place : List String) :
    (writeEach outDir t ds).2.foreignAt place = t.foreignAt place := by
  fun_induction writeEach outDir t ds with
  | case1 t => rfl
  | case2 t d rest failed => rfl
  | case3 t d rest u stored ih =>
    have own := reads (d, rendering outDir t d) List.mem_cons_self
    have behind := ih fun w mem => reads w (List.mem_cons_of_mem _ mem)
    exact behind.trans (foreignAt_of_stored stored own place)

/-- What is written for each document is in its file in the end, with the foreign conditions that
the file had behind the condition of the document. -/
theorem file_of_mem_writeEach (distinct : (ds.map Document.source).Nodup)
    (reads : ReadsBack (writeEach outDir t ds).1) {w : Document × Data}
    (mem : w ∈ (writeEach outDir t ds).1) : ∃ place,
      (writeEach outDir t ds).2.place? (pathOf outDir w.1) = some place ∧
      (writeEach outDir t ds).2.textAt? place = some (w.2.pretty .document) ∧
      w.2.get? "conditions" =
        some (.list (w.1.condition.toMarkedDocument :: t.foreignAt place)) := by
  fun_induction writeEach outDir t ds with
  | case1 t => cases mem
  | case2 t d rest failed => cases mem
  | case3 t d rest u stored ih =>
    obtain ⟨fresh, distinct⟩ := List.nodup_cons.mp distinct
    rcases List.mem_cons.mp mem with rfl | later
    · obtain ⟨place, leads, grows, found, _, rendered⟩ := exists_place_of_stored stored
      have leads' := (grows_writeEach outDir u rest).place? (grows.place? leads)
      refine ⟨place, leads', ?_, ?_⟩
      · refine (textAt?_writeEach fun w mem same => fresh ?_).trans found
        rw [source_eq_of_place? leads' same]
        have listed := (writeEach_isPrefix outDir u rest).subset (List.mem_map_of_mem mem)
        exact List.mem_map_of_mem listed
      · rw [rendered, Document.conditions_render, foreignAt]
    · have own := reads (d, rendering outDir t d) List.mem_cons_self
      obtain ⟨place, leads, found, conditions⟩ :=
        ih distinct (fun w mem => reads w (List.mem_cons_of_mem _ mem)) later
      rw [foreignAt_of_stored stored own] at conditions
      exact ⟨place, leads, found, conditions⟩

end WriteEach

/-- A call makes directories, which keeps all files, and then writes documents one by one, unless it
stopped before. -/
theorem exists_writeEach (outDir : String) (t : FileTree) (ds : List Document) :
    ∃ made asked, t.Keeps made ∧ asked <+: ds ∧
      written outDir t ds = (writeEach outDir made asked).1 ∧
      left outDir t ds = (writeEach outDir made asked).2 := by
  have keeps := t.keeps_makeDirectory outDir
  rw [written, left_eq]
  revert keeps
  rcases t.makeDirectory outDir with ⟨made, _ | _⟩
  · intro keeps
    exact ⟨made, [], keeps, List.nil_prefix, rfl, rfl⟩
  · intro keeps
    exact ⟨made, ds, keeps, List.prefix_rfl, rfl, rfl⟩

section Call
variable {outDir : String} {t : FileTree} {ds : List Document}

theorem grows_left (outDir : String) (t : FileTree) (ds : List Document) :
    t.Grows (left outDir t ds) := by
  obtain ⟨made, asked, keeps, _, _, same⟩ := exists_writeEach outDir t ds
  rw [same]
  exact keeps.toGrows.trans (grows_writeEach outDir made asked)

theorem textAt?_left {place : List String} (other : ∀ w ∈ written outDir t ds,
    (left outDir t ds).place? (pathOf outDir w.1) ≠ some place) :
    (left outDir t ds).textAt? place = t.textAt? place := by
  obtain ⟨made, asked, keeps, _, which, same⟩ := exists_writeEach outDir t ds
  rw [which, same] at other
  rw [same]
  exact (textAt?_writeEach other).trans (keeps.text place)

theorem foreignAt_left (reads : ReadsBack (written outDir t ds)) (place : List String) :
    (left outDir t ds).foreignAt place = t.foreignAt place := by
  obtain ⟨made, asked, keeps, _, which, same⟩ := exists_writeEach outDir t ds
  rw [which] at reads
  rw [same]
  exact (foreignAt_writeEach reads place).trans (foreignAt_congr (keeps.text place))

theorem file_of_mem_written (distinct : (ds.map Document.source).Nodup)
    (reads : ReadsBack (written outDir t ds)) {w : Document × Data}
    (mem : w ∈ written outDir t ds) : ∃ place,
      (left outDir t ds).place? (pathOf outDir w.1) = some place ∧
      (left outDir t ds).textAt? place = some (w.2.pretty .document) ∧
      w.2.get? "conditions" =
        some (.list (w.1.condition.toMarkedDocument :: t.foreignAt place)) := by
  obtain ⟨made, asked, keeps, listed, which, same⟩ := exists_writeEach outDir t ds
  rw [which] at reads mem
  rw [same]
  have distinct : (asked.map Document.source).Nodup := distinct.sublist (listed.sublist.map _)
  obtain ⟨place, leads, found, conditions⟩ := file_of_mem_writeEach distinct reads mem
  rw [foreignAt_congr (keeps.text place)] at conditions
  exact ⟨place, leads, found, conditions⟩

end Call

/-- The files after some calls, each of which exports the documents of a model. -/
def after (outDir : String) (t : FileTree) (calls : List (Model × Library)) : FileTree :=
  calls.foldl (fun t c => left outDir t (Document.build c.1 c.2)) t

/-- What some calls write, in order. -/
def writtenBy (outDir : String) : FileTree → List (Model × Library) → List (Document × Data)
  | _, [] => []
  | t, c :: calls =>
    written outDir t (Document.build c.1 c.2) ++
      writtenBy outDir (left outDir t (Document.build c.1 c.2)) calls

theorem writtenBy_concat (outDir : String) (t : FileTree) (calls : List (Model × Library))
    (c : Model × Library) : writtenBy outDir t (calls ++ [c]) = writtenBy outDir t calls ++
      written outDir (after outDir t calls) (Document.build c.1 c.2) := by
  induction calls generalizing t with
  | nil => exact List.append_nil _
  | cons first calls ih =>
    rw [List.cons_append, writtenBy, writtenBy, ih, List.append_assoc]
    rfl

theorem after_concat (outDir : String) (t : FileTree) (calls : List (Model × Library))
    (c : Model × Library) : after outDir t (calls ++ [c]) =
      left outDir (after outDir t calls) (Document.build c.1 c.2) := by
  rw [after, List.foldl_concat]
  rfl

section Run
variable {outDir : String} {t : FileTree} {calls : List (Model × Library)}

theorem grows_after (outDir : String) (t : FileTree) (calls : List (Model × Library)) :
    t.Grows (after outDir t calls) := by
  induction calls generalizing t with
  | nil => exact .refl t
  | cons c calls ih => exact (grows_left outDir t _).trans (ih _)

theorem textAt?_after {place : List String} (other : ∀ w ∈ writtenBy outDir t calls,
    (after outDir t calls).place? (pathOf outDir w.1) ≠ some place) :
    (after outDir t calls).textAt? place = t.textAt? place := by
  induction calls generalizing t with
  | nil => rfl
  | cons c calls ih =>
    have behind := ih fun w mem => other w (List.mem_append_right _ mem)
    refine behind.trans (textAt?_left fun w mem leads => ?_)
    exact other w (List.mem_append_left _ mem) ((grows_after outDir _ calls).place? leads)

theorem foreignAt_after (reads : ReadsBack (writtenBy outDir t calls)) (place : List String) :
    (after outDir t calls).foreignAt place = t.foreignAt place := by
  induction calls generalizing t with
  | nil => rfl
  | cons c calls ih =>
    have behind := ih fun w mem => reads w (List.mem_append_right _ mem)
    exact behind.trans (foreignAt_left (fun w mem => reads w (List.mem_append_left _ mem)) place)

end Run

/-- Foreign conditions survive any number of exports: the file of each document that the last one
wrote has its own condition, which is marked, and behind it the conditions without a mark that the
file had before all of them. -/
theorem foreign_conditions_survive (outDir : String) (t : FileTree)
    (calls : List (Model × Library)) (m : Model) (l : Library)
    (reads : ReadsBack (writtenBy outDir t (calls ++ [(m, l)]))) :
    let before := after outDir t calls
    let now := after outDir t (calls ++ [(m, l)])
    let last := written outDir before (Document.build m l)
    Tells outDir (Document.build m l) (last.map Prod.fst)
      (before.perform (write outDir true (Document.build m l))).1 ∧
    (∀ w ∈ last, ∃ place text,
      now.place? (pathOf outDir w.1) = some place ∧ now.textAt? place = some text ∧
      Data.read? .document text = some w.2 ∧
      w.2.get? "conditions" =
        some (.list (w.1.condition.toMarkedDocument :: t.foreignAt place)) ∧
      Condition.isMarked w.1.condition.toMarkedDocument = true ∧
      ∀ c ∈ t.foreignAt place, Condition.isMarked c = false) ∧
    (∀ (d e : Document) (place : List String), now.place? (pathOf outDir d) = some place →
      now.place? (pathOf outDir e) = some place → d.source = e.source) ∧
    ∀ place, (∀ w ∈ writtenBy outDir t (calls ++ [(m, l)]),
      now.place? (pathOf outDir w.1) ≠ some place) → now.textAt? place = t.textAt? place := by
  intro before now last
  have listed := writtenBy_concat outDir t calls (m, l)
  have final : now = left outDir before (Document.build m l) := after_concat outDir t calls (m, l)
  have kept : ∀ place, before.foreignAt place = t.foreignAt place := by
    refine foreignAt_after fun w mem => reads w ?_
    rw [listed]
    exact List.mem_append_left _ mem
  have own : ReadsBack last := by
    intro w mem
    refine reads w ?_
    rw [listed]
    exact List.mem_append_right _ mem
  refine ⟨tells_written outDir before _, fun w mem => ?_, fun d e place => source_eq_of_place?,
    fun place => textAt?_after⟩
  obtain ⟨place, leads, found, conditions⟩ := file_of_mem_written (Document.nodup_build m l) own mem
  rw [kept] at conditions
  rw [final]
  exact ⟨place, _, leads, found, own w mem, conditions, Document.isMarked_toMarkedDocument _,
    fun c foreign => Document.isMarked_of_mem_foreign foreign⟩

/-- One animation, and no rule for it. -/
def slashOnly : Library := .ofList [.plain ⟨0, 0⟩ "Slash"]

def slashDocument : Document := ⟨⟨0, 0⟩, "Slash", 0, .empty, .killSwitch⟩

def whileMoving : Data := .record [("condition", .text "IsMoving")]

/-- A file with a stale condition of ours, and one that is foreign. -/
def staleText : String :=
"\x7b
  \"conditions\": [
    \x7b \"comment\": \"STANCECRAFT_CONDITIONS\" \x7d,
    \x7b \"condition\": \"IsMoving\" \x7d
  ]
\x7d"

def slashData : Data := slashDocument.render (some (.record [("conditions", .list [whileMoving])]))

def slashText : String :=
"\x7b
  \"capabilities\": \x7b
    \"hasComboPowerAttack\": false,
    \"hasIdle\": false,
    \"hasPowerAttackA\": false,
    \"hasPowerAttackB\": false,
    \"hasPowerAttackL\": false,
    \"hasPowerAttackR\": false
  \x7d,
  \"conditions\": [
    \x7b
      \"Conditions\": [
        \x7b
          \"Comparison\": \"==\",
          \"Value A\": \x7b
            \"value\": 0
          \x7d,
          \"Value B\": \x7b
            \"value\": 1
          \x7d,
          \"comment\": \"Disabled by Stancecraft\",
          \"condition\": \"CompareValues\",
          \"negated\": false
        \x7d
      ],
      \"comment\": \"STANCECRAFT_CONDITIONS\",
      \"condition\": \"OR\",
      \"negated\": false
    \x7d,
    \x7b
      \"condition\": \"IsMoving\"
    \x7d
  ],
  \"name\": \"Slash\",
  \"priority\": 0
\x7d"

set_option maxRecDepth 10000 in
theorem pretty_slashData : slashData.pretty .document = slashText := by
  rw [← String.toList_inj, Data.toList_pretty, show slashText = String.ofList _ from rfl,
    String.toList_ofList]
  decide +kernel

set_option maxRecDepth 10000 in
theorem read?_slashText : Data.read? .document slashText = some slashData := by
  rw [Data.read?, show slashText = String.ofList _ from rfl, String.toList_ofList]
  rfl

def holding (text : String) : FileTree :=
  ⟨.directory [("000_000_Slash.json", .file text)], []⟩

theorem pathOf_slash : pathOf "" slashDocument = "000_000_Slash.json" := by decide +kernel

theorem place?_slash (text : String) :
    (holding text).place? (pathOf "" slashDocument) = some ["000_000_Slash.json"] := by
  have usable : Path.isUsable "000_000_Slash.json" = true := by decide +kernel
  have steps : Path.steps "000_000_Slash.json" = ["000_000_Slash.json"] := by decide +kernel
  have relative : Path.isAbsolute "000_000_Slash.json" = false := by decide +kernel
  rw [pathOf_slash, place?, if_pos usable, steps, origin, relative]
  rfl

theorem writeText?_slash (old new : String) :
    (holding old).writeText? (pathOf "" slashDocument) new = some (holding new) := by
  rw [writeText?_of_place? (place?_slash old) rfl rfl (by decide +kernel)]
  rfl

theorem writeEach_slash {old : String} {v : Data}
    (rendered : slashDocument.render (Data.read? .document old) = v) :
    writeEach "" (holding old) [slashDocument] =
      ([(slashDocument, v)], holding (v.pretty .document)) := by
  have written : rendering "" (holding old) slashDocument = v := by
    have text : (holding old).textAt? ["000_000_Slash.json"] = some old := rfl
    rw [rendering, readText?_of_place? (place?_slash old), text, Option.bind_some, rendered]
  have stored : store? "" (holding old) slashDocument = some (holding (v.pretty .document)) := by
    rw [store?_eq, written, writeText?_slash]
  rw [writeEach, written, stored]
  rfl

theorem written_slash {old : String} {v : Data}
    (rendered : slashDocument.render (Data.read? .document old) = v) :
    written "" (holding old) [slashDocument] = [(slashDocument, v)] ∧
      left "" (holding old) [slashDocument] = holding (v.pretty .document) := by
  have there : (holding old).makeDirectory "" = (holding old, true) := if_pos rfl
  rw [written, left_eq, there]
  dsimp only
  rw [writeEach_slash rendered]
  exact ⟨rfl, rfl⟩

set_option maxRecDepth 10000 in
theorem read?_staleText : Data.read? .document staleText = some (.record [("conditions",
    .list [.record [("comment", .text Condition.marker)], whileMoving])]) := by
  rw [Data.read?, show staleText = String.ofList _ from rfl, String.toList_ofList]
  rfl

/-- A model without rules, exported for one animation. -/
def slashCall : Model × Library := (.ofTemplates .empty, slashOnly)

theorem build_slashCall : Document.build slashCall.1 slashCall.2 = [slashDocument] := rfl

theorem render_staleText : slashDocument.render (Data.read? .document staleText) = slashData := by
  rw [read?_staleText]
  rfl

theorem render_slashText : slashDocument.render (Data.read? .document slashText) = slashData := by
  rw [read?_slashText]
  rfl

theorem after_slashCall : after "" (holding staleText) [slashCall] = holding slashText := by
  rw [← pretty_slashData]
  exact (written_slash render_staleText).2

theorem writtenBy_slash : writtenBy "" (holding staleText) ([slashCall] ++ [slashCall]) =
    [(slashDocument, slashData), (slashDocument, slashData)] := by
  rw [writtenBy_concat, after_slashCall, build_slashCall, (written_slash render_slashText).1,
    writtenBy, build_slashCall, (written_slash render_staleText).1]
  rfl

theorem foreign_conditions_survive_slash :
    ReadsBack (writtenBy "" (holding staleText) ([slashCall] ++ [slashCall])) ∧
    ∃ text v, (after "" (holding staleText) ([slashCall] ++ [slashCall])).textAt?
        ["000_000_Slash.json"] = some text ∧ Data.read? .document text = some v ∧
      v.get? "conditions" =
        some (.list [slashDocument.condition.toMarkedDocument, whileMoving]) := by
  have reads : ReadsBack (writtenBy "" (holding staleText) ([slashCall] ++ [slashCall])) := by
    rw [writtenBy_slash]
    intro w mem
    obtain rfl : w = (slashDocument, slashData) := by simpa using mem
    rw [pretty_slashData, read?_slashText]
  have last : (slashDocument, slashData) ∈
      written "" (after "" (holding staleText) [slashCall]) [slashDocument] := by
    rw [after_slashCall, (written_slash render_slashText).1]
    exact List.mem_singleton_self _
  obtain ⟨_, files, _⟩ := foreign_conditions_survive "" (holding staleText) [slashCall]
    slashCall.1 slashCall.2 reads
  obtain ⟨place, text, leads, found, read, conditions, _, _⟩ := files _ last
  have here := (grows_after "" (holding staleText) ([slashCall] ++ [slashCall])).place?
    (place?_slash staleText)
  obtain rfl := Option.some.inj (leads.symm.trans here)
  have foreign : (holding staleText).foreignAt ["000_000_Slash.json"] = [whileMoving] := by
    have held : (holding staleText).textAt? ["000_000_Slash.json"] = some staleText := rfl
    rw [foreignAt, held, Option.bind_some, read?_staleText]
    rfl
  rw [foreign] at conditions
  exact ⟨reads, text, _, found, read, conditions⟩

end Export

end Movesets
