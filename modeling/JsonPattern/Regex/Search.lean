import JsonPattern.Regex.Engine
import JsonPattern.Regex.Matching
import JsonPattern.Regex.Source

/-!
# An engine that searches

The engine that reads the sources of `Regex.ofSource?` and decides by `Regex.isMatch` whether an
expression matches somewhere in a text. It gives no reasons for what it refuses. There are sources
that other engines read and this one refuses, classes of characters by a property among them, and
of the letters beyond ASCII it knows two only in another case, so what is proved of patterns and
validators is proved for any engine.
-/

namespace JsonPattern

namespace Regex

theorem isSome_ofSource?_format (format : Format) : (ofSource? format.source).isSome := by
  cases format <;> decide +kernel

/-- The engine that searches texts place by place. -/
def engine : Engine where
  read source :=
    match ofSource? source with
    | some r => .ok ⟨r.isMatch⟩
    | none => .error none
  reads_format format := by
    obtain ⟨r, h⟩ := Option.isSome_iff_exists.1 (isSome_ofSource?_format format)
    exact ⟨⟨r.isMatch⟩, by rw [h]⟩

theorem engine_read {source : String} {r : Regex} (h : ofSource? source = some r) :
    engine.read source = .ok ⟨r.isMatch⟩ := by
  simp only [engine, h]

end Regex

end JsonPattern
