import Movesets.Settings

set_option autoImplicit false

/-!
# Settings from the environment

Variables named `STANCECRAFT_` and a setting, in letters of any case, override the settings of the
file.  The text of a variable is a boolean, else an integer, else a number, else a text, and each
setting says which of these it takes.  A name may go on to a part of a setting, an entry by its name
behind a point or an item by its number in brackets, but no setting has parts.  One variable that
does not fit fails all of them.
-/

namespace Movesets.Environment

/-- The value that the text of a variable spells, or one that has parts. -/
inductive Value where
  | flag (b : Bool)
  | int (i : Int)
  | real (x : Number.Binary64)
  | text (s : String)
  | compound
  deriving Repr

def lower (s : String) : String := .ofList (s.toList.map Char.toLower)

/-- A sign, and what follows it. -/
def splitSign : List Char → Bool × List Char
  | '-' :: cs => (true, cs)
  | '+' :: cs => (false, cs)
  | cs => (false, cs)

/-- An integer of 64 bits. -/
def isInteger (i : Int) : Bool := Int64.minValue.toInt ≤ i && i ≤ Int64.maxValue.toInt

/-- An integer of 64 bits: an optional sign and digits alone. -/
def integer? (cs : List Char) : Option Int :=
  let (negative, ds) := splitSign cs
  (Number.natural? ds).bind fun n =>
    let i : Int := if negative then -n else n
    if isInteger i then some i else none

/-- The digits on both sides of a point, one digit at least. -/
def splitPoint? (cs : List Char) : Option (List Char × List Char × List Char) :=
  let whole := cs.takeWhile Char.isDigit
  let (fraction, rest) := match cs.dropWhile Char.isDigit with
    | '.' :: r => (r.takeWhile Char.isDigit, r.dropWhile Char.isDigit)
    | r => ([], r)
  if whole.isEmpty && fraction.isEmpty then none else some (whole, fraction, rest)

/-- A number: digits with an optional point and exponent, or the word for infinity or NaN. -/
def real? (cs : List Char) : Option Number.Binary64 :=
  let (negative, body) := splitSign cs
  let word := String.ofList (body.map Char.toLower)
  if word = "inf" ∨ word = "infinity" then some (.infinity negative)
  else if word = "nan" then some .nan
  else
    (splitPoint? body).bind fun (whole, fraction, rest) =>
      let exponent : Option Int := match rest with
        | [] => some 0
        | c :: r =>
          if c = 'e' ∨ c = 'E' then
            (Number.readExponent? r).bind fun e => if e.2.isEmpty then some e.1 else none
          else none
      exponent.map fun e => (Number.Numeral.ofParts negative whole fraction e).toBinary

namespace Value

def ofText (s : String) : Value :=
  if lower s = "true" then .flag true
  else if lower s = "false" then .flag false
  else
    match integer? s.toList with
    | some i => .int i
    | none =>
      match real? s.toList with
      | some x => .real x
      | none => .text s

/-- A boolean setting takes a boolean, a number other than zero, or a word for on or off. -/
def bool? : Value → Option Bool
  | .flag b => some b
  | .int i => some (i != 0)
  | .real x => some (x.rank != 0)
  | .text s =>
    if lower s ∈ ["1", "true", "on", "yes"] then some true
    else if lower s ∈ ["0", "false", "off", "no"] then some false
    else none
  | .compound => none

/-- An integer setting takes an integer from zero, a boolean as one or zero, a number rounded with a
half going up and cut to 64 bits, or a word for on or off. -/
def word? : Value → Option Nat
  | .flag b => some (if b then 1 else 0)
  | .int i => if 0 ≤ i then some i.toNat else none
  | .real x =>
    some (if x.isNaN || x.negative then 0
      else if x.isInfinite then UInt64.size - 1 else min x.roundAway.toNat (UInt64.size - 1))
  | .text s =>
    if lower s ∈ ["true", "on", "yes"] then some 1
    else if lower s ∈ ["false", "off", "no"] then some 0
    else none
  | .compound => none

/-- A text setting takes any value without parts, as it is printed. -/
def text? : Value → Option String
  | .flag b => some (if b then "true" else "false")
  | .int i => some (.ofList (Number.integerText i))
  | .real x => some x.positional
  | .text s => some s
  | .compound => none

/-- The cycle mode takes its name as a text. -/
def mode? : Value → Option CycleMode
  | .text s => CycleMode.parse? s
  | _ => none

end Value

/-- A character of the name of a setting or of an entry. -/
def isNameChar (c : Char) : Bool := c.isAlphanum || c == '_' || c == '-'

/-- The rest of a name behind the number of an item. -/
def dropItem? (cs : List Char) : Option (List Char) :=
  let cs := cs.dropWhile fun c => c == ' ' || c == '\t'
  let (negative, cs) := match cs with
    | '-' :: cs => (true, cs)
    | cs => (false, cs)
  (Number.natural? (cs.takeWhile Char.isDigit)).bind fun n =>
    if isInteger (if negative then -n else n) then
      match (cs.dropWhile Char.isDigit).dropWhile fun c => c == ' ' || c == '\t' with
      | ']' :: cs => some cs
      | _ => none
    else none

/-- The text goes from part to part of a setting down to its end. -/
def isPartsFrom : Nat → List Char → Bool
  | _, [] => true
  | 0, _ => false
  | fuel + 1, '.' :: cs =>
    !(cs.takeWhile isNameChar).isEmpty && isPartsFrom fuel (cs.dropWhile isNameChar)
  | fuel + 1, '[' :: cs => (dropItem? cs).any (isPartsFrom fuel)
  | _, _ => false

/-- What the name of a variable refers to: a setting, or a part of it. -/
structure Reference where
  setting : String
  isPart : Bool
  deriving DecidableEq, Repr

/-- The reference of a name; a name of another form refers to a setting of just that name. -/
def Reference.ofName (name : String) : Reference :=
  let cs := name.toList
  let setting := cs.takeWhile isNameChar
  let parts := cs.dropWhile isNameChar
  if !setting.isEmpty && !parts.isEmpty && isPartsFrom parts.length parts then
    ⟨.ofList setting, true⟩
  else ⟨name, false⟩

/-- What the names of all variables start with. -/
def namePrefix : String := "stancecraft_"

/-- The reference of a variable, if its name is one of ours. -/
def reference? (name : String) : Option Reference :=
  let name := lower name
  if name.startsWith namePrefix then some (.ofName (name.drop namePrefix.length).toString)
  else none

/-- The value of a setting, the last variable that refers to it counting. -/
def value? (env : List (String × String)) (setting : String) : Option Value :=
  env.reverse.findSome? fun v =>
    match reference? v.1 with
    | none => none
    | some r =>
      if r.setting ≠ setting then none
      else if r.isPart then some .compound
      else some (.ofText v.2)

/-- A setting with its override, if there is one. -/
def override? {α : Type} (env : List (String × String)) (setting : String)
    (decode : Value → Option α) (current : α) : Option α :=
  match value? env setting with
  | none => some current
  | some v => decode v

/-- The settings with the overrides of the environment. -/
def overridden? (env : List (String × String)) (s : Settings) : Option Settings := do
  let cycleMode ← override? env "cycle_mode" Value.mode? s.cycleMode
  let preserveConditions ← override? env "preserve_conditions" Value.bool? s.preserveConditions
  let comboWindow ← override? env "combo_window_ms" Value.word? s.comboWindow
  let sweepInterval ← override? env "sweep_interval_ms" Value.word? s.sweepInterval
  let outputDir ← override? env "output_dir" Value.text? s.outputDir
  let debugMode ← override? env "debug_mode" Value.bool? s.debugMode
  return ⟨cycleMode, preserveConditions, comboWindow, sweepInterval, outputDir, debugMode⟩

end Movesets.Environment
