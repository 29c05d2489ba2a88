import MathMarkup.Text.Basic

/-!
# YAML values

Configuration files are YAML documents. A document is a value: a scalar, a sequence or a mapping. A
value can be given a name and be referred to by that name further on; a reference carries the value
it stands for, so that whoever uses a document need not look names up.
-/

namespace MathMarkup

/-- The value of a YAML document. -/
inductive Yaml where
  /-- A scalar. Its tag, which is empty if it has none, and whether it was plain decide what it
  stands for. -/
  | scalar (tag : Text) (plain : Bool) (text : Text)
  | sequence (items : List Yaml)
  | mapping (pairs : List (Yaml × Yaml))
  /-- A reference by name to a value that is complete. -/
  | reference (name : Text) (value : Yaml)
  /-- A reference by name to a collection from inside that collection, which has no finite value. -/
  | cycle (name : Text)

namespace Yaml

instance : Inhabited Yaml := ⟨.scalar [] true []⟩

/-- The value of a place that is left empty. -/
def empty : Yaml := .scalar [] true []

/-- What the tags of the common types start with when they are written out. -/
def commonTags : Text := "tag:yaml.org,2002:"

/-- A tag in its short form: the tags of the common types start with two exclamation marks. -/
def shortTag (tag : Text) : Text :=
  if commonTags.isPrefixOf tag then "!!" ++ tag.drop commonTags.length else tag

/-- How a key is recognised as the same key: by its kind and its text or, for a reference, its
name. -/
inductive Label where
  | scalar (text : Text)
  | reference (name : Text)
  | sequence
  | mapping
deriving DecidableEq

/-- The label of a value as a key. -/
def label : Yaml → Label
  | .scalar _ _ t => .scalar t
  | .sequence _ => .sequence
  | .mapping _ => .mapping
  | .reference name _ => .reference name
  | .cycle name => .reference name

/-- Whether a key says that the pairs of its value are to be put into the mapping it stands in: a
plain scalar `<<`, or a scalar with these signs and the tag for it. -/
def isMergeKey : Yaml → Bool
  | .scalar tag plain t =>
    t == Text.ofString "<<" && ((tag.isEmpty && plain) || tag == Text.ofString "!!merge")
  | _ => false

end Yaml

end MathMarkup
