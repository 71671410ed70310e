import WordMachine.Path
import Mathlib.Data.List.Basic

/-! Names that differ in their last part alone. Their other parts are the same, so they lead
from the same directory to two entries of it. An extension is the end of the last part. -/

namespace WordMachine

namespace Bytes

theorem splitAll_of_not_mem {mark : UInt8} {t : Bytes} (absent : mark ∉ t) : splitAll mark t = [t] := by
  induction t with
  | nil => rfl
  | cons b rest ih =>
    rw [List.mem_cons, not_or] at absent
    rw [splitAll, if_neg (Ne.symm absent.1), ih absent.2]

theorem splitAll_append (mark : UInt8) (first second : Bytes) :
    splitAll mark (first ++ mark :: second) = splitAll mark first ++ splitAll mark second := by
  induction first with
  | nil => simp [splitAll]
  | cons b first ih =>
    rw [List.cons_append, splitAll, splitAll, ih]
    split
    · rfl
    · cases pieces : splitAll mark first with
      | nil => exact absurd pieces (splitAll_ne_nil mark first)
      | cons piece more => rfl

theorem dropWhile_ne_cases (mark : UInt8) (t : Bytes) :
    t.dropWhile (· ≠ mark) = [] ∨ ∃ rest, t.dropWhile (· ≠ mark) = mark :: rest := by
  induction t with
  | nil => exact .inl rfl
  | cons b t ih =>
    by_cases here : b = mark
    · exact .inr ⟨t, by simp [here]⟩
    · simpa [here] using ih

theorem trimSuffix_append (t tail : Bytes) : trimSuffix (t ++ tail) tail = t := by
  simp [trimSuffix]

end Bytes

namespace Path

def parents (path : Bytes) : List Bytes :=
  if (beforeLast path).isEmpty then [] else Bytes.splitAll slash (beforeLast path).dropLast

theorem beforeLast_cases (path : Bytes) :
    beforeLast path = [] ∨ ∃ front, beforeLast path = front ++ [slash] := by
  rw [beforeLast]
  obtain none | ⟨rest, some'⟩ := Bytes.dropWhile_ne_cases slash path.reverse
  · exact .inl (by rw [none]; rfl)
  · exact .inr ⟨rest.reverse, by rw [some', List.reverse_cons]⟩

theorem splitAll_beforeLast (path : Bytes) {name : Bytes} (single : slash ∉ name) :
    Bytes.splitAll slash (beforeLast path ++ name) = parents path ++ [name] := by
  rw [parents]
  obtain none | ⟨front, some'⟩ := beforeLast_cases path
  · simp [none, Bytes.splitAll_of_not_mem single]
  · rw [some', List.append_assoc, List.singleton_append, Bytes.splitAll_append,
      Bytes.splitAll_of_not_mem single]
    simp

theorem isAbsolute_beforeLast (path : Bytes) {name : Bytes} (single : slash ∉ name) :
    isAbsolute (beforeLast path ++ name) = isAbsolute (beforeLast path) := by
  rw [isAbsolute, isAbsolute]
  obtain none | ⟨front, some'⟩ := beforeLast_cases path
  · rw [none, List.nil_append]
    cases name with
    | nil => rfl
    | cons b name =>
      have other : b ≠ slash := fun same => single (same ▸ List.mem_cons_self)
      simp [other]
  · rw [some']
    cases front <;> simp

theorem slash_notMem_lastPart (path : Bytes) : slash ∉ lastPart path :=
  fun inside => lastPart_ne_slash inside rfl

def stem (path : Bytes) : Bytes := Bytes.trimSuffix (lastPart path) (extension path)

theorem extension_isSuffix (path : Bytes) : ∃ front, lastPart path = front ++ extension path := by
  simp only [extension]
  split
  · next shorter =>
    have all := List.takeWhile_append_dropWhile (p := (· ≠ dot)) (l := (lastPart path).reverse)
    obtain none | ⟨rest, some'⟩ := Bytes.dropWhile_ne_cases dot (lastPart path).reverse
    · rw [none, List.append_nil] at all
      rw [all, List.length_reverse] at shorter
      exact absurd shorter (Nat.lt_irrefl _)
    · rw [some'] at all
      have turned := congrArg List.reverse all
      rw [List.reverse_reverse] at turned
      refine ⟨rest.reverse, turned.symm.trans ?_⟩
      rw [List.reverse_append, List.reverse_cons, List.append_assoc]
      rfl
  · exact ⟨lastPart path, by simp⟩

theorem stem_append_extension (path : Bytes) : stem path ++ extension path = lastPart path := by
  obtain ⟨front, same⟩ := extension_isSuffix path
  rw [stem, same, Bytes.trimSuffix_append]

/-- Another extension changes the last part alone. -/
theorem withExtension_eq (path other : Bytes) :
    withExtension path other = beforeLast path ++ (stem path ++ other) := by
  have whole : path = (beforeLast path ++ stem path) ++ extension path := by
    rw [List.append_assoc, stem_append_extension, beforeLast_append_lastPart]
  have cut : Bytes.trimSuffix path (extension path) = beforeLast path ++ stem path := by
    rw [congrArg (Bytes.trimSuffix · (extension path)) whole, Bytes.trimSuffix_append]
  rw [withExtension, cut, List.append_assoc]

end Path

end WordMachine
