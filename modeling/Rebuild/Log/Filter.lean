/-
  Which entries pass: a level for each named topic and one for all the others.

  * `Filter.parse` reads a text such as `recomp=debug,worker=trace,*=warn`;
  * `Gate` adds a threshold that refuses most entries without a look at the topics;
    it is kept at `Filter.lowest`, the lowest level that any topic lets through.
-/
import Rebuild.Log.Level

namespace Rebuild.Log

/-- The levels that topics let through. -/
structure Filter where
  /-- The level of every topic that has none of its own. -/
  fallback : Level := .info
  /-- The topics with a level of their own. -/
  topics : TextMap Level := ∅

namespace Filter

/-- The level of a topic. -/
def levelOf (f : Filter) (topic : Text) : Level := f.topics.getD topic f.fallback

/-- Whether the filter lets an entry of this level and topic through. -/
def passes (f : Filter) (level : Level) (topic : Text) : Bool := f.levelOf topic ≤ level

/-- The lowest level that some topic lets through. -/
def lowest (f : Filter) : Level := f.topics.foldl (fun low _ l => low.least l) f.fallback

/-- One token: a bare topic is traced, `*=level` sets the fallback, `topic=level`
    the level of a topic.  Empty tokens say nothing. -/
def addToken (f : Filter) (token : Text) : Filter :=
  if token = [] then f else
    match token.cut (Text.byte '=') with
    | (topic, none) => { f with topics := f.topics.insert topic .trace }
    | (topic, some level) =>
      if topic = "*" then { f with fallback := Level.parse level }
      else { f with topics := f.topics.insert topic (Level.parse level) }

/-- Replaces the levels of the topics by those of `spec`, tokens separated by commas.
    The fallback stays unless `spec` sets it. -/
def parse (f : Filter) (spec : Text) : Filter :=
  (spec.split (Text.byte ',')).foldl addToken { f with topics := ∅ }

end Filter

/-- A filter behind a cheap threshold. -/
structure Gate where
  threshold : Level := .info
  filter : Filter := {}

namespace Gate

/-- The gate of a filter, with its lowest level as the threshold. -/
def ofFilter (f : Filter) : Gate := ⟨f.lowest, f⟩

/-- A gate for `level` and then `spec`; a topic of `spec` may go below `level`. -/
def init (level : Level) (spec : Text) : Gate :=
  ofFilter (({ fallback := level } : Filter).parse spec)

/-- Sets the level of the topics without one of their own. -/
def setLevel (g : Gate) (level : Level) : Gate := ofFilter { g.filter with fallback := level }

/-- Replaces the levels of the topics. -/
def setFilter (g : Gate) (spec : Text) : Gate := ofFilter (g.filter.parse spec)

/-- Whether an entry passes: first the threshold, then the filter. -/
def passes (g : Gate) (level : Level) (topic : Text) : Bool :=
  if g.threshold ≤ level then g.filter.passes level topic else false

end Gate

end Rebuild.Log
