import WordMachine.Proofs.Assembly.LineStarts

/-! Where cursors point. A token of a source that can be read stands where its position says, in the
source itself and not only in the source with a newline added; a cursor to it counts bytes, lines and
characters from the text in front of it. -/

namespace WordMachine.Assembly

open Text

/-- A cursor to a text in a source: its bytes, and the line and column of the first of them. -/
structure Cursor.Marks (c : Cursor) (source text : Bytes) : Prop where
  text : (source.drop c.byte).take c.size = text
  line : c.line = 1 + (source.take c.byte).count Bytes.newline
  column : c.column = 1 + Utf8.count (lastLine (source.take c.byte))

theorem Cursor.of_marks {source before text rest : Bytes} (whole : source = before ++ (text ++ rest))
    (filled : text ≠ []) : (Cursor.of (.after before) text.length).Marks source text := by
  have size : max text.length 1 = text.length := Nat.max_eq_left (List.length_pos_iff.mpr filled)
  constructor
  · simp [Cursor.of, Position.after, whole, size]
  · simp [Cursor.of, Position.after, whole]
  · simp [Cursor.of, Position.after, whole]

structure Token.Within (t : Token) (source before rest : Bytes) : Prop where
  whole : source = before ++ (t.text ++ rest)
  position : t.position = .after before
  filled : t.text ≠ []

theorem Tokenized.within {source : Bytes} {tokens : List Token} (tokenized : Tokenized source tokens) {t : Token}
    (mem : t ∈ tokens) (inline : t.kind ≠ .newline) : ∃ before rest, t.Within source before rest := by
  obtain ⟨⟨before, later, closed, position⟩, filled⟩ := tokenized.stands mem
  obtain ⟨left, heads⟩ := tokenized.heads mem
  obtain ⟨rest, whole⟩ := closeLast_eq_append (by rw [closed, List.append_assoc]) filled (heads.unbroken inline)
  exact ⟨before, rest, whole, position, filled⟩

theorem line_token_within {source : Bytes} {lines : List Line} (parsed : parse source = .ok lines) {l : Line}
    (listed : l ∈ lines) {t : Token} (mem : t ∈ l.tokens) : ∃ before rest, t.Within source before rest := by
  obtain ⟨tokens, tokenized, form⟩ := exists_form parsed
  have placed : t ∈ tokens.filter Token.isPlaced := by
    rw [← form.placed.1]
    exact List.mem_flatMap.mpr ⟨l, listed, mem⟩
  obtain ⟨mem', kind⟩ := List.mem_filter.mp placed
  exact tokenized.within mem' (by simpa [Token.isPlaced] using (Bool.and_eq_true_iff.mp kind).2)

theorem line_label_name {source : Bytes} {lines : List Line} (parsed : parse source = .ok lines) {l : Line}
    (listed : l ∈ lines) {t : Token} (mem : t ∈ l.labels) :
    IsName (labelName t) ∧ t.text = labelName t ++ [Bytes.ascii ':'] := by
  obtain ⟨tokens, tokenized, form⟩ := exists_form parsed
  obtain ⟨mem', kind⟩ := form.labels l listed t mem
  obtain ⟨name, named, text⟩ := tokenized.label mem' kind
  rw [labelName_append text]
  exact ⟨named, text⟩

theorem Token.Within.marks {t : Token} {source before rest : Bytes} (within : t.Within source before rest) :
    (Cursor.ofToken t).Marks source t.text := by
  rw [Cursor.ofToken, within.position]
  exact Cursor.of_marks within.whole within.filled

theorem Token.Within.marks_label {t : Token} {source before rest name after : Bytes}
    (within : t.Within source before rest) (text : t.text = name ++ after) (filled : name ≠ []) :
    (Cursor.of t.position name.length).Marks source name := by
  have whole : source = before ++ (name ++ (after ++ rest)) := by
    rw [within.whole, text, List.append_assoc]
  rw [within.position]
  exact Cursor.of_marks whole filled

end WordMachine.Assembly
