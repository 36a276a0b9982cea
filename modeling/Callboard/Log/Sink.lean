import Callboard.Log.Line
import Callboard.Text.Quoted

/-!
# The log sink

Where records go. A sink has a level, below which records are dropped, and one
form in which the others are written. Setting it up again replaces the form and
the level. Until it is set up, important records are written as bare messages.
-/

set_option autoImplicit false

namespace Callboard.Log

structure Sink where
  level : Level
  /-- The form of the lines; nothing before the first setup. -/
  form : Option Form
  deriving DecidableEq

namespace Sink

def fresh : Sink := ⟨Level.warning, none⟩

def formOfWord (t : Text) : Form := if t = chars "json" then .json else .text

def basicTemplate : Text := chars "%(levelname)s:%(name)s:%(message)s"

def misnomer? (t : Text) : Option Failure :=
  if t = chars "BASIC_FORMAT" then
    some (.basic (chars "ValueError") (chars "Unknown level: " ++ Text.quoted basicTemplate))
  else if t = chars "_STYLES" then
    some (.basic (chars "TypeError")
      (chars "Level not an integer or a valid string: \x7b'%': (<class 'logging.PercentStyle'>, " ++
        Text.quoted basicTemplate ++
        chars "), '\x7b': (<class 'logging.StrFormatStyle'>, " ++
        chars "'\x7blevelname\x7d:\x7bname\x7d:\x7bmessage\x7d'), " ++
        chars "'$': (<class 'logging.StringTemplateStyle'>, " ++
        chars "'$\x7blevelname\x7d:$\x7bname\x7d:$\x7bmessage\x7d')\x7d"))
  else none

/-- The level is a word in any case, and an unknown word means INFO. A word that is taken by
something else fails after the form is set. -/
def setup (s : Sink) (level form : Text) : Sink × Option Failure :=
  let word := Text.capitals level
  match misnomer? word with
  | some f => (⟨s.level, some (formOfWord form)⟩, some f)
  | none => (⟨(Level.ofName? word).getD Level.info, some (formOfWord form)⟩, none)

/-- Records at level 0 and below are never let through. -/
def enabled (s : Sink) (level : Level) : Bool := decide (0 < level) && decide (s.level ≤ level)

def line? (s : Sink) (time : Text) (r : Record) : Option Text :=
  if s.enabled r.level then
    match s.form with
    | some form => (r.line form time).toOption
    | none => if Level.warning ≤ r.level then some (r.withTrace r.message) else none
  else none

def lines (s : Sink) (time : Text) (r : Record) : List Text :=
  match s.line? time r with
  | none => []
  | some t => Text.splitAt Text.newline t

def handlers (s : Sink) : Nat := if s.form.isSome then 1 else 0

theorem setup_handlers (s : Sink) (level form : Text) : (s.setup level form).1.handlers = 1 := by
  unfold setup
  simp only
  split <;> rfl

end Sink

end Callboard.Log
