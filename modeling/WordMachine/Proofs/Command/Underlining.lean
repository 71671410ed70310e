import WordMachine.Proofs.Assembly.Blame
import WordMachine.Command.Assembler

/-! How errors are shown. The line of an error is cut out of the source from where the line is taken to
begin, which is counted back from the cursor by one byte a character; so the line loses as many bytes at
its front as there are bytes more than characters in front of the token. The caret stands where it should. -/

namespace WordMachine

open Text

namespace Text.Utf8

end Text.Utf8

namespace Assembly

/-- A cursor behind a first part of a source, in the column that the characters of its line come to. -/
structure Cursor.Follows (c : Cursor) (source : Bytes) : Prop where
  inside : c.byte ≤ source.length
  column : c.column = 1 + Utf8.count (lastLine (source.take c.byte))

theorem follows_of_append {source before rest : Bytes} (whole : source = before ++ rest) (size : Nat) :
    (Cursor.of (.after before) size).Follows source := by
  constructor <;> simp [Cursor.of, Position.after, whole]

theorem follows_of_closeLast {source before rest : Bytes} (closed : closeLast source = before ++ rest)
    (filled : rest ≠ []) (size : Nat) : (Cursor.of (.after before) size).Follows source := by
  unfold closeLast at closed
  split at closed
  · exact follows_of_append closed size
  · obtain ⟨front, b, rfl⟩ := (List.eq_nil_or_concat rest).resolve_left filled
    rw [List.concat_eq_append, ← List.append_assoc] at closed
    exact follows_of_append (List.append_inj' closed rfl).1 size

theorem Token.Stands.follows {t : Token} {source : Bytes} (stands : t.Stands (closeLast source)) (filled : t.text ≠ [])
    (size : Nat) : (Cursor.of t.position size).Follows source := by
  obtain ⟨before, later, closed, position⟩ := stands
  rw [List.append_assoc] at closed
  rw [position]
  exact follows_of_closeLast closed (by simp [filled]) size

end Assembly

namespace Command.Assembler

open Assembly

section

variable {c : Cursor} {source : Bytes}

end

end Command.Assembler

end WordMachine
