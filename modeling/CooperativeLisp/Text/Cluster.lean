import CooperativeLisp.Text.Joint

/-!
Clusters: what a reader of the text takes for one character, such as a letter with its marks, a
syllable, a flag or a picture.
-/

namespace CooperativeLisp.Text

/-- Whether the text, last character first, ends in a pictograph with its extensions and a joiner:
what comes next may join the picture. -/
def awaitsPictograph : List Char → Bool
  | [] => false
  | joint :: before =>
    jointOf joint = .joiner &&
      ((before.dropWhile fun c => jointOf c = .extending).head?.any fun c =>
        jointOf c = .pictograph)

/-- Whether a character may stand between the consonants of one sign. -/
def isConjunctMark (c : Char) : Bool :=
  jointOf c = .joiner || (jointOf c = .extending && c ≠ '\u200C')

/-- Whether the text, last character first, ends in a consonant with marks of which one ties it to
the consonant that comes next. -/
def awaitsConsonant (before : List Char) : Bool :=
  (before.takeWhile isConjunctMark).any (isWithin linkerRanges) &&
    ((before.dropWhile isConjunctMark).head?.any fun c => jointOf c = .consonant)

/-- Whether the text, last character first, ends in a half of a flag. -/
def awaitsRegional (before : List Char) : Bool :=
  (before.takeWhile fun c => jointOf c = .regional).length % 2 = 1

/-- Whether a character belongs to the cluster whose characters so far, last one first, are
`last :: before`. -/
def joins (last : Char) (before : List Char) (c : Char) : Bool :=
  match jointOf last, jointOf c with
  | .carriageReturn, part => part = .lineFeed
  | .lineFeed, _ | .control, _ => false
  | _, .carriageReturn | _, .lineFeed | _, .control => false
  | _, .extending | _, .joiner | _, .spacing => true
  | .prepended, _ => true
  | part, .leading | part, .openSyllable | part, .closedSyllable => part = .leading
  | part, .vowel => part = .leading || part = .vowel || part = .openSyllable
  | part, .trailing =>
    part = .vowel || part = .trailing || part = .openSyllable || part = .closedSyllable
  | _, .consonant => awaitsConsonant (last :: before)
  | _, .pictograph => awaitsPictograph (last :: before)
  | _, .regional => awaitsRegional (last :: before)
  | _, .prepended | _, .other => false

/-- The clusters of a text whose first one starts with the characters `last :: before`, last one
first. -/
def clustersFrom (last : Char) (before : List Char) : List Char → List (List Char)
  | [] => [(last :: before).reverse]
  | c :: cs =>
    if joins last before c then clustersFrom c (last :: before) cs
    else (last :: before).reverse :: clustersFrom c [] cs

/-- The clusters of a text. -/
def clusters : List Char → List (List Char)
  | [] => []
  | c :: cs => clustersFrom c [] cs

end CooperativeLisp.Text
