import ChordSymbol.Interpreter
import ChordSymbol.Text.Column

/-! Watching a chord symbol being read: the same outcome, together with what happened on the way.
A modifier is announced before it is judged, so a refused one is seen. -/
namespace ChordSymbol

inductive Event
  | root (root suffix : String)
  | modifier (symbol : String) (rule : Rule)
  | step (step : Step)
  | resolved (chord : Chord)
  | refused (reason : Refusal)
  deriving DecidableEq

/-- What was seen, and what came out. -/
structure Observed (α : Type) where
  events : List Event
  outcome : Except Refusal α

namespace Observed

/-- Goes on with a result; a refusal ends the observation. -/
def andThen {α β : Type} (o : Observed α) (f : α → Observed β) : Observed β :=
  match o.outcome with
  | .error e => ⟨o.events, .error e⟩
  | .ok a => ⟨o.events ++ (f a).events, (f a).outcome⟩

end Observed

namespace Interpreter

def announce (lx : Lexicon) (t : Token) : List Event :=
  match lx.rule? t.rule with
  | some r => [.modifier t.symbol r]
  | none => []

/-- Admits the tokens one by one. -/
def observeTokens (lx : Lexicon) (kept : List Modifier) : List Token → Observed (List Modifier)
  | [] => ⟨[], .ok kept⟩
  | t :: ts =>
    (Observed.mk (announce lx t) (Combination.keep lx kept t)).andThen (observeTokens lx · ts)

def observeReading (i : Interpreter) (symbol : String) : Observed Reading :=
  match Note.cut symbol with
  | .error e => ⟨[], .error e⟩
  | .ok (root, suffix) =>
    (Observed.mk [.root root suffix] (i.lexicon.tokenize suffix)).andThen fun tokens =>
      (observeTokens i.lexicon [] tokens).andThen fun kept =>
        ⟨[], (Combination.finish kept).map (Reading.mk root)⟩

def observeChord (i : Interpreter) (symbol : String) : Observed Chord :=
  (observeReading i symbol).andThen fun r =>
    match i.lexicon.derive r.tokens with
    | .error e => ⟨[], .error e⟩
    | .ok d =>
      ⟨d.steps.map .step, (Display.ofVoicing i.separator d.voicing).map (chord symbol r d)⟩

/-- The whole run; its last event is the outcome. -/
def observe (i : Interpreter) (symbol : String) : Observed Chord :=
  let o := i.observeChord symbol
  match o.outcome with
  | .ok c => { o with events := o.events ++ [.resolved c] }
  | .error e => { o with events := o.events ++ [.refused e] }

end Interpreter

namespace Event

def showValue : Option Int → String
  | some x => Decimal.ofInt x
  | none => "-"

def label : Event → String
  | root .. => "root"
  | modifier .. => "modifier"
  | step _ => "op"
  | resolved _ => "result"
  | refused _ => "error"

def paint : Event → Text.Paint
  | root .. => .boldCyan
  | modifier .. => .blueLabel
  | step _ => .magentaLabel
  | resolved _ => .boldGreen
  | refused _ => .boldRed

def stepText (s : Step) : String :=
  let line := s!"{s.symbol}: {s.edit.text}  [{showValue s.before} -> {showValue s.after}]"
  if s.backfilled = [] then line
  else line ++ " backfilled " ++ ", ".intercalate (s.backfilled.map (·.name))

def text : Event → String
  | root r suffix => s!"{r} + '{suffix}'"
  | modifier s r =>
    if s = r.symbol then s!"{s} ({r.category.name})"
    else s!"{s} ({r.category.name}, alias of {r.symbol})"
  | step s => stepText s
  | resolved c => c.display.text ++ "  (" ++ " ".intercalate c.display.names ++ ")"
  | refused e => e.message

/-- One line of a log: a label in nine columns, coloured on demand, and what happened. -/
def line (color : Bool) (e : Event) : String :=
  e.paint.apply color (Text.padRight 9 e.label) ++ " " ++ e.text

end Event

/-- A log that grows while it is written: its lines so far, coloured or not. -/
structure Tracer where
  color : Bool
  lines : List String
  deriving DecidableEq

namespace Tracer

def start (color : Bool) : Tracer := ⟨color, []⟩

/-- One line more. -/
def note (t : Tracer) (e : Event) : Tracer := { t with lines := t.lines ++ [e.line t.color] }

/-- Notes all that happens while `i` reads a symbol. -/
def watch (i : Interpreter) (t : Tracer) (symbol : String) : Tracer :=
  (i.observe symbol).events.foldl note t

end Tracer

/-- The log of reading several symbols in turn, one tracer being handed from each to the next. -/
def Interpreter.log (i : Interpreter) (color : Bool) (symbols : List String) : List String :=
  (symbols.foldl (Tracer.watch i) (.start color)).lines

end ChordSymbol
