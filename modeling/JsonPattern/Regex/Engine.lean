import JsonPattern.Regex.Format

/-!
# Engines

Regular expressions are read and matched by an engine. Patterns and validators ask no more of it
than an `Engine` has: that it reads a source or refuses it, and that the sources of the formats are
not refused. What an expression means is up to the engine.
-/

namespace JsonPattern

/-- An expression that an engine has read. -/
structure Matcher where
  /-- Whether the expression matches somewhere in a text. -/
  isMatch : String → Bool

/-- An engine for regular expressions. -/
structure Engine where
  /-- Reads the source of an expression. An engine that refuses a source may say what is wrong with
  it. -/
  read : String → Except (Option String) Matcher
  /-- The source of a format is not refused. -/
  reads_format : ∀ format : Format, ∃ matcher, read format.source = .ok matcher

namespace Engine

variable (E : Engine)

/-- The expression of a format, as it is read from its source. -/
def matcher (format : Format) : Matcher :=
  match h : E.read format.source with
  | .ok matcher => matcher
  | .error _ => False.elim (by
      obtain ⟨matcher, hread⟩ := E.reads_format format
      exact nomatch h.symm.trans hread)

theorem read_format (format : Format) : E.read format.source = .ok (E.matcher format) := by
  obtain ⟨matcher, hread⟩ := E.reads_format format
  unfold Engine.matcher
  split
  case h_1 matcher' h => rw [h]
  case h_2 explanation h => exact nomatch h.symm.trans hread

end Engine

end JsonPattern
