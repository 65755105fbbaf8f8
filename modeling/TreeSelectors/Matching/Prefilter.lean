import TreeSelectors.Selector
import TreeSelectors.Text.Ascii

/-!
# Tag filters

If every chain of a selector names the tag of its subject, then elements with
other tags need no closer look.
-/

namespace TreeSelectors

/-- The tags that a selector can match, in small letters, or `none` if it can
match any. -/
structure Prefilter where
  tags : Option (List String)
deriving DecidableEq, Repr

namespace Prefilter

/-- The tags of the subjects of a selector. -/
def ofSelector (selector : Selector) : Prefilter where
  tags := selector.mapM fun chain =>
    (Compound.typeName? chain.subject).map Text.foldCase

/-- Whether an element with a tag can match. -/
def accepts (filter : Prefilter) (tag : String) : Bool :=
  filter.tags.all (·.contains (Text.foldCase tag))

end Prefilter

end TreeSelectors
