import Mathlib.Tactic.Common

/-!
Slash-separated path texts. A text is cut at its slashes into segments; its
components are the segments that name something, which is how a file system reads
the text. Text patterns (suffix, infix) are those of the character lists.
-/

namespace Wruntime.PathText

def endsWith (text suffix : String) : Bool := suffix.toList.isSuffixOf text.toList

def segments (text : String) : List String := (text.toList.splitOn '/').map String.ofList

/-- The segments that name something: neither empty nor a dot. -/
def components (text : String) : List String :=
  (segments text).filter fun segment => segment ≠ "" ∧ segment ≠ "."

end Wruntime.PathText
