-- SUMMARY: Search policies and the words that name them.
import SegregatedFit.Text.Case

/-!
# Search policies

A policy says how a search trades time for fit. Above the size class of a
request every block is large enough, so a search that skips the class itself
takes the first block it meets; a search that does not skip it wastes less.
-/
namespace SegregatedFit

/-- The size class at which a search begins. -/
inductive SearchPolicy where
  /-- One class above the class of the request, unless that is the last one. -/
  | skipCanonical
  /-- The class of the request. -/
  | canonical
  deriving DecidableEq, Repr, Inhabited

namespace SearchPolicy

/-- The name of a policy. -/
def name : SearchPolicy → String
  | .skipCanonical => "SkipCanonical"
  | .canonical => "Canonical"

/-- The policy that a word names, in either case. Any other word stands for
`skipCanonical`. -/
def ofWord (word : List Char) : SearchPolicy :=
  if Text.lowerCase word ∈ ["canonical".toList, "exact".toList, "first".toList] then .canonical
  else .skipCanonical

example : ofWord "EXACT".toList = .canonical ∧ ofWord " exact".toList = .skipCanonical := by decide

end SearchPolicy
end SegregatedFit
