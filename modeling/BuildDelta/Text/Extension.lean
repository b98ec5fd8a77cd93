/-!
# Extensions

Settings and callers may write an extension with dots in front of it. The dots mean nothing.
-/

namespace BuildDelta.Text

def dropDots (s : String) : String :=
  String.ofList (s.toList.dropWhile (· = '.'))

/-- What a text holds in front of this ending. -/
def stem? (ending s : String) : Option String :=
  if ending.toList.isSuffixOf s.toList then
    some (String.ofList (s.toList.take (s.toList.length - ending.toList.length)))
  else none

end BuildDelta.Text
