import FieldPath.Text.Alphabetic
import FieldPath.Text.Numeric

/-!
# Identifiers

A segment of a field path is an identifier: it starts with an alphabetic character, an underscore
or a dollar sign, and goes on with those and with numeric characters.  A dollar sign may start one
because parameters of a rule are written `$0`, `$1` and `$this`.

## Main definitions

* `isIdentifierStart`, `isIdentifierPart` — the two classes of characters.
* `isIdentifier` — the form of a whole segment.
-/

namespace FieldPath

/-- The character may start an identifier. -/
def isIdentifierStart (c : Char) : Bool := isAlphabetic c || c == '_' || c == '$'

/-- The character may stand in an identifier after the start. -/
def isIdentifierPart (c : Char) : Bool := isIdentifierStart c || isNumeric c

/-- The characters form an identifier. -/
def isIdentifier : List Char → Bool
  | [] => false
  | c :: cs => isIdentifierStart c && cs.all isIdentifierPart

@[simp] theorem isIdentifier_nil : isIdentifier [] = false := rfl

@[simp] theorem isIdentifier_cons (c : Char) (cs : List Char) :
    isIdentifier (c :: cs) = (isIdentifierStart c && cs.all isIdentifierPart) := rfl

/-- A dot never stands in an identifier, so it always separates two of them. -/
@[simp] theorem isIdentifierPart_dot : isIdentifierPart '.' = false := by
  decide +kernel

end FieldPath
