/-!
# Formats

The types of strings that are told by the look of a text: mail addresses and locations with a
scheme. Behind either stands a regular expression that is bound to both ends of the text.
-/

namespace JsonPattern

/-- A format of strings. -/
inductive Format
  /-- A mail address. -/
  | email
  /-- A location. -/
  | url

/-- The source of the regular expression behind a format. A mail address is a local part, an at
sign, and a domain that has a point with something before it and something without points after it.
A location is a scheme, a colon and two slashes, an authority that is not empty, and anything that
has no blank. -/
def Format.source : Format → String
  | .email => "^[^@\\s]+@[^@\\s]+\\.[^@\\s.]+$"
  | .url => "^[A-Za-z][A-Za-z0-9+.\\-]*://[^\\s/?#]+[^\\s]*$"

end JsonPattern
