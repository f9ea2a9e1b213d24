import Movesets.Proofs.WellFormed
import Movesets.Session

set_option autoImplicit false

/-!
# Runs of sessions

What can be done with a session, one operation after another.  What an operation makes of the model
depends on the model alone, and most operations leave it as it is.
-/

namespace Movesets

inductive SessionOp where
  | update (edit : Model → Model)
  | replace (model : Model) (library : Library)
  | addRule (name : String) (matcher : Matcher)
  | removeRule (index : Nat)
  | setPlaylist (rule : RuleRef) (category : String) (stance : Nat) (playlist : Playlist)
  | maxVariants (key : PlaylistKey)
  | compile
  | resolve (actor : Option Actor) (category : String)
  | candidates (actor : Option Actor) (category : String)
  | setMode (mode : CycleMode)
  | nextStance
  | previousStance
  | setStance (stance : Nat)
  | variant (category : String)
  | nextVariant (category : String) (draws : Draws)
  | previousVariant (category : String)
  | variantName (category : String) (direction : Nat)

def SessionOp.edit : SessionOp → Model → Model
  | .update edit, m => edit m
  | .replace model _, _ => model.reconcile
  | .addRule name matcher, m => m.edited (.addRule name matcher)
  | .removeRule index, m => m.edited (.removeRule index)
  | .setPlaylist rule category stance playlist, m =>
    m.edited (.setPlaylist rule category stance playlist)
  | _, m => m

namespace Session

/-- The session after an operation, whether it was refused or not. -/
def after (s : Session) : SessionOp → Session
  | .update edit => (s.update fun m => (edit m, ())).session
  | .replace model library => (s.replace model library).session
  | .addRule name matcher => (s.addRule name matcher).session
  | .removeRule index => (s.removeRule index).session
  | .setPlaylist rule category stance playlist =>
    (s.setPlaylist rule category stance playlist).session
  | .maxVariants key => (s.maxVariants key).session
  | .compile => s.compile.session
  | .resolve actor category => (s.resolve actor category).session
  | .candidates actor category => (s.candidates actor category).session
  | .setMode mode => (s.setMode mode).session
  | .nextStance => (s.moveStance StanceCycler.next).session
  | .previousStance => (s.moveStance StanceCycler.previous).session
  | .setStance stance => (s.moveStance fun _ => .set stance).session
  | .variant category => (s.variant category).session
  | .nextVariant category draws => (s.nextVariant category draws).session
  | .previousVariant category => (s.previousVariant category).session
  | .variantName category direction => (s.variantName category direction).session

def run (s : Session) (ops : List SessionOp) : Session := ops.foldl after s

@[simp] theorem run_cons (s : Session) (op : SessionOp) (ops : List SessionOp) :
    s.run (op :: ops) = (s.after op).run ops := rfl

@[simp] theorem model_counted (s : Session) : s.counted.model = s.model := by
  unfold counted
  split <;> rfl

/-- Reading an ordinal counts the parents, and may bring the ordinal back into range. -/
theorem exists_session_variant (s : Session) (category : String) :
    ∃ p, (s.variant category).session = { s.counted with player := p } := by
  unfold variant
  dsimp only
  split
  · exact ⟨s.counted.player, rfl⟩
  · exact ⟨_, rfl⟩

theorem model_after (s : Session) (op : SessionOp) : (s.after op).model = op.edit s.model := by
  cases op with
  | update edit => rfl
  | replace model library => rfl
  | addRule name matcher =>
    simp only [after, addRule, SessionOp.edit, Model.edited]
    cases s.model.addRule name matcher <;> rfl
  | removeRule index =>
    simp only [after, removeRule, SessionOp.edit, Model.edited]
    cases s.model.removeRule index <;> rfl
  | setPlaylist rule category stance playlist =>
    simp only [after, setPlaylist, SessionOp.edit, Model.edited]
    cases s.model.setPlaylist rule category stance playlist <;> rfl
  | maxVariants key => exact s.model_counted
  | compile => rfl
  | resolve actor category => rfl
  | candidates actor category => rfl
  | setMode mode => rfl
  | nextStance => rfl
  | previousStance => rfl
  | setStance stance => rfl
  | nextVariant category draws => exact s.model_counted
  | previousVariant category => exact s.model_counted
  | variant category =>
    obtain ⟨p, session⟩ := s.exists_session_variant category
    rw [after, session]
    exact s.model_counted
  | variantName category direction =>
    obtain ⟨p, session⟩ := s.exists_session_variant category
    change (s.variant category).session.model = s.model
    rw [session]
    exact s.model_counted

end Session

end Movesets
