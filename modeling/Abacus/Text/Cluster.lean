import Abacus.Text.Cluster.Ranges

/-!
# Clusters

A cluster is what a reader takes for one character.  Usually it is one, but an accent
belongs to the letter it sits on, and several characters may make up one syllable, one
flag or one pictograph.  `clusters` cuts a text into them.

The cuts are those of the extended grapheme clusters of Unicode: each character has a
class, and `joins` says whether it continues the cluster in front of it.

## What the cut depends on

Nearly always the classes on the two sides of a cut decide.  Three rules look further
back: flags are made of letters in pairs, so the number of letters in front counts; a
joiner joins pictographs only if there is one on its left, perhaps with marks on it;
and in the scripts of India two consonants form a conjunct only if a linking sign
stands somewhere between them, with nothing but marks around it.
-/

namespace Abacus.Text

namespace Cluster

/-- What a character is to the clusters around it. -/
inductive Class where
  | other
  | carriageReturn
  | lineFeed
  | control
  /-- It continues what is in front of it. -/
  | extend
  /-- The zero width joiner. -/
  | joiner
  /-- It continues what is in front of it and takes up room. -/
  | spacingMark
  /-- What follows continues it. -/
  | prepend
  /-- A letter of which two make up a flag. -/
  | flagLetter
  | pictograph
  /-- A consonant that forms conjuncts. -/
  | consonant
  /-- A Korean letter that starts a syllable. -/
  | lead
  /-- A Korean vowel. -/
  | vowel
  /-- A Korean letter that ends a syllable. -/
  | tail
  /-- A Korean syllable without a letter that ends it. -/
  | openSyllable
  /-- A Korean syllable with one. -/
  | closedSyllable
  deriving DecidableEq, Repr

/-- The letters of Korean syllables, by their role in them. -/
def koreanRanges : List (List (Nat × Nat) × Class) :=
  [([(0x1100, 0x115F), (0xA960, 0xA97C)], .lead),
   ([(0x1160, 0x11A7), (0xD7B0, 0xD7C6), (0x16D63, 0x16D63), (0x16D67, 0x16D6A)], .vowel),
   ([(0x11A8, 0x11FF), (0xD7CB, 0xD7FB)], .tail)]

/-- The classes that are given by ranges. -/
def classRanges : List (List (Nat × Nat) × Class) :=
  [(controlRanges, .control), (extendRanges, .extend), (spacingMarkRanges, .spacingMark),
   (prependRanges, .prepend), ([(0x1F1E6, 0x1F1FF)], .flagLetter),
   (pictographRanges, .pictograph), (consonantRanges, .consonant)] ++ koreanRanges

/-- The class of a character.  The Korean syllables are ordered so that every
twenty-eighth of them is open, from the first one on. -/
def Class.of (c : Char) : Class :=
  if c = '\r' then .carriageReturn
  else if c = '\n' then .lineFeed
  else if c.toNat = 0x200D then .joiner
  else if 0xAC00 ≤ c.toNat ∧ c.toNat ≤ 0xD7A3 then
    if (c.toNat - 0xAC00) % 28 = 0 then .openSyllable else .closedSyllable
  else ((classRanges.find? fun r => isIn r.1 c).map (·.2)).getD .other

/-- A class around which a text is always cut. -/
def Class.isSeparate (k : Class) : Bool :=
  k == .control || k == .carriageReturn || k == .lineFeed

/-- Whether two Korean letters belong to one syllable. -/
def Class.sameSyllable : Class → Class → Bool
  | .lead, .lead | .lead, .vowel | .lead, .openSyllable | .lead, .closedSyllable => true
  | .openSyllable, .vowel | .openSyllable, .tail | .vowel, .vowel | .vowel, .tail => true
  | .closedSyllable, .tail | .tail, .tail => true
  | _, _ => false

/-- A sign that joins two consonants. -/
def isLinker (c : Char) : Bool := isIn linkerRanges c

/-- A mark that may stand between two consonants and the sign that joins them. -/
def isConjunctMark (c : Char) : Bool :=
  (Class.of c == .extend || Class.of c == .joiner) && !isLinker c && c.toNat != 0x200C

/-- Whether a consonant after these characters, which are given newest first, completes
a conjunct. -/
def completesConjunct (before : List Char) : Bool :=
  let isInner := fun c => isLinker c || isConjunctMark c
  (before.takeWhile isInner).any isLinker &&
    ((before.dropWhile isInner).head?.map Class.of) == some .consonant

/-- Whether a pictograph after a joiner and these characters, which are given newest
first, is joined to another one. -/
def completesPictograph (before : List Char) : Bool :=
  ((before.dropWhile fun c => Class.of c == .extend).head?.map Class.of) == some .pictograph

/-- Whether a letter after these, which are given newest first, completes a flag. -/
def completesFlag (before : List Char) : Bool :=
  (before.takeWhile fun c => Class.of c == .flagLetter).length % 2 == 1

/-- Whether a character continues the cluster in front of it.  The characters in front
are given newest first. -/
def joins (before : List Char) (c : Char) : Bool :=
  match before with
  | [] => false
  | b :: earlier =>
      let k := Class.of c
      let j := Class.of b
      if j == .carriageReturn && k == .lineFeed then true
      else if j.isSeparate || k.isSeparate then false
      else
        j.sameSyllable k || k == .extend || k == .joiner || k == .spacingMark || j == .prepend ||
          (k == .consonant && completesConjunct before) ||
          (k == .pictograph && j == .joiner && completesPictograph earlier) ||
          (k == .flagLetter && completesFlag before)

/-- The clusters of a text that follows some characters, which are given newest
first. -/
def clustersAfter (before : List Char) : List Char → List (List Char)
  | [] => []
  | c :: cs =>
      match clustersAfter (c :: before) cs with
      | [] => [[c]]
      | cluster :: rest =>
          if (cluster.head?.map (joins (c :: before))).getD true then (c :: cluster) :: rest
          else [c] :: cluster :: rest

/-- The clusters of a text. -/
def clusters (cs : List Char) : List (List Char) := clustersAfter [] cs

/-- A letter with an accent and a flag are one cluster each. -/
example : (clusters ['e', '\u0301', '🇦', '🇧', '🇨']).map List.length = [2, 2, 1] := by
  decide +kernel

end Cluster

end Abacus.Text
