import WordMachine.Text.Grapheme.Kind
import WordMachine.Text.Utf8

/-!
Clusters: the characters that a reader takes for one. A cluster is read from its first
character on for as long as the next one joins it.
-/

namespace WordMachine.Text.Grapheme

/-- What matters of a cluster so far for what may join it. A pictograph waits for a joiner,
then for another pictograph; a regional letter waits for a second one. -/
inductive Tail where
  | plain
  | carriageReturn
  | control
  | leading
  | vowel
  | trailing
  | prepended
  | pictograph
  | joinedPictograph
  | regional
  deriving DecidableEq, Repr

def Tail.start : Kind → Tail
  | .carriageReturn => carriageReturn
  | .lineFeed | .control => control
  | .leading => leading
  | .vowel | .openSyllable => vowel
  | .trailing | .closedSyllable => trailing
  | .prepended => prepended
  | .pictograph => pictograph
  | .regional => regional
  | .other | .extending | .joiner | .spacing => plain

def Tail.join? : Tail → Kind → Option Tail
  | carriageReturn, .lineFeed => some control
  | carriageReturn, _ | control, _ => none
  | _, .carriageReturn | _, .lineFeed | _, .control => none
  | pictograph, .extending => some pictograph
  | pictograph, .joiner => some joinedPictograph
  | _, .extending | _, .joiner | _, .spacing => some plain
  | prepended, k => some (start k)
  | leading, .leading => some leading
  | leading, .vowel | leading, .openSyllable => some vowel
  | leading, .closedSyllable => some trailing
  | vowel, .vowel => some vowel
  | vowel, .trailing | trailing, .trailing => some trailing
  | joinedPictograph, .pictograph => some pictograph
  | regional, .regional => some plain
  | _, _ => none

def joined : Tail → List Utf8.Lead → List Utf8.Lead
  | _, [] => []
  | tail, c :: rest =>
    match tail.join? (kind c.code) with
    | some tail => c :: joined tail rest
    | none => []

def first : List Utf8.Lead → List Utf8.Lead
  | [] => []
  | c :: rest => c :: joined (.start (kind c.code)) rest

end WordMachine.Text.Grapheme
