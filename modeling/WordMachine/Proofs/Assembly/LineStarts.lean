import WordMachine.Proofs.Assembly.Course
import WordMachine.Proofs.SymbolTable.Assembled

/-! Where the lines of a source begin. The place of a line is counted back from its first token by one
byte a column, although columns are characters; but nothing stands between the start of a line and its
first token except blanks, because a comment lasts until the line is over, and blanks are as many bytes
as characters. -/

namespace WordMachine

open Text

namespace Text.Utf8

theorem count_of_ascii {t : Bytes} (plain : ∀ b ∈ t, b < 0x80) : count t = t.length := by
  induction t with
  | nil => rfl
  | cons b t ih =>
    have rest : (characters t).length = t.length := ih fun c mem => plain c (List.mem_cons_of_mem _ mem)
    rw [count, characters_ascii (plain b List.mem_cons_self), List.length_cons, List.length_cons, rest]

end Text.Utf8

namespace Assembly

def textLines (t : Bytes) : List Bytes := Bytes.splitAll Bytes.newline t

/-- Where a line of a text begins: behind the lines before it, each with its newline. -/
def lineOffset (t : Bytes) (k : Nat) : Nat :=
  (((textLines t).take k).map fun line => line.length + 1).sum

/-- A text that is cut off after a newline, if anywhere. -/
def Whole (t : Bytes) : Prop := ∀ b ∈ t.getLast?, b = Bytes.newline

theorem Whole.lines {t : Bytes} (whole : Whole t) (rest : Bytes) :
    lineOffset (t ++ rest) (t.count Bytes.newline) = t.length ∧
      (textLines (t ++ rest)).drop (t.count Bytes.newline) = textLines rest := by
  induction t with
  | nil => simp [lineOffset]
  | cons b t ih =>
    by_cases line : b = Bytes.newline
    · have whole' : Whole t := by
        cases t with
        | nil => simp [Whole]
        | cons c t => simpa [Whole, List.getLast?_cons_cons] using whole
      obtain ⟨offset, left⟩ := ih whole'
      have split : textLines (b :: t ++ rest) = [] :: textLines (t ++ rest) := by
        rw [textLines, List.cons_append, Bytes.splitAll, if_pos line]
        rfl
      have counted : (b :: t).count Bytes.newline = t.count Bytes.newline + 1 := by
        rw [line, List.count_cons_self]
      rw [lineOffset] at offset
      rw [lineOffset, split, counted, List.take_succ_cons, List.drop_succ_cons, List.map_cons, List.sum_cons,
        offset, List.length_cons]
      exact ⟨by simp [Nat.add_comm], left⟩
    · obtain ⟨c, t, rfl⟩ : ∃ c more, t = c :: more := by
        cases t with
        | nil => exact absurd (whole b rfl) line
        | cons c t => exact ⟨c, t, rfl⟩
      have whole' : Whole (c :: t) := by simpa [Whole, List.getLast?_cons_cons] using whole
      obtain ⟨offset, left⟩ := ih whole'
      have closed : Bytes.newline ∈ c :: t := by
        have last := whole' _ (List.getLast?_eq_some_getLast (List.cons_ne_nil c t))
        exact last ▸ List.getLast_mem (List.cons_ne_nil c t)
      obtain ⟨n, count⟩ := Nat.exists_eq_succ_of_ne_zero (Nat.ne_of_gt (List.count_pos_iff.mpr closed))
      obtain ⟨piece, more, pieces⟩ := List.exists_cons_of_ne_nil
        (Bytes.splitAll_ne_nil Bytes.newline (c :: t ++ rest))
      have split : textLines (b :: (c :: t) ++ rest) = (b :: piece) :: more := by
        rw [textLines, List.cons_append, Bytes.splitAll, if_neg line, pieces]
      rw [lineOffset, textLines, pieces, count, List.take_succ_cons, List.map_cons, List.sum_cons] at offset
      rw [textLines, pieces, count, List.drop_succ_cons] at left
      rw [List.count_cons_of_ne (by simpa using line), lineOffset, split, count, List.take_succ_cons,
        List.map_cons, List.sum_cons, List.drop_succ_cons, List.length_cons, List.length_cons, ← offset]
      exact ⟨by omega, left⟩

theorem Whole.follows {t : Bytes} (whole : Whole t) (rest : Bytes) :
    t.length = 0 ∨ ∃ n, t.length = n + 1 ∧ (t ++ rest)[n]? = some Bytes.newline := by
  obtain rfl | ⟨front, b, rfl⟩ := t.eq_nil_or_concat
  · exact .inl rfl
  · have last : b = Bytes.newline := whole b (by simp)
    exact .inr ⟨front.length, by simp, by simp [last]⟩

theorem Whole.lastLine_append {t : Bytes} (whole : Whole t) {line : Bytes} (unbroken : Bytes.newline ∉ line) :
    lastLine (t ++ line) = line := by
  have none' : lastLine t = [] := by
    obtain rfl | ⟨front, b, rfl⟩ := t.eq_nil_or_concat
    · rfl
    · have last : b = Bytes.newline := whole b (by simp)
      rw [last, List.concat_eq_append, lastLine_append_newline]
  rw [WordMachine.Assembly.lastLine_append t unbroken, none', List.nil_append]

theorem refused_of_dropWhile {test : UInt8 → Bool} {t : Bytes} :
    ∀ b ∈ (t.dropWhile test).head?, test b = false := by
  intro b first
  rw [← List.find?_not_eq_head?_dropWhile] at first
  simpa using List.find?_some first

namespace Lexeme.Heads

variable {x : Lexeme} {rest : Bytes}

theorem comment (heads : x.Heads rest) (kind : x.kind = .comment) : ∀ b ∈ rest.head?, b = Bytes.newline := by
  have taken := heads.taken
  obtain ⟨b, more, text, first⟩ := heads.opens
  have mark : b = Bytes.ascii ';' := by simpa [kind, Token.opens] using first
  rw [kind, text, TokenKind.pattern, List.cons_append, Pattern.rests_char_seq, if_pos mark,
    Pattern.head?_rests_star_byte] at taken
  intro c next
  rw [← Option.some.inj taken] at next
  simpa using refused_of_dropWhile c next

theorem blank (heads : x.Heads rest) (kind : x.kind = .blank) : ∀ b ∈ x.text, Token.isBlank b = true := by
  have taken : rest ∈ x.kind.pattern.rests (x.text ++ rest) := List.mem_of_head? heads.taken
  obtain ⟨front, same, allowed⟩ := Pattern.rests_taken taken
  obtain rfl : x.text = front := List.append_cancel_right same
  intro b mem
  have inside := allowed b mem
  rw [kind] at inside
  simpa [TokenKind.pattern, Pattern.plus, Pattern.allows] using inside

end Lexeme.Heads

theorem Lexes.head? {t rest : Bytes} {x : Lexeme} {more : List Lexeme} (lexes : Lexes t (x :: more) rest) :
    ∃ b, t.head? = some b ∧ b ∈ x.text := by
  cases lexes with
  | step heads lexes =>
    obtain ⟨b, word, text, -⟩ := heads.opens
    exact ⟨b, by simp [text], by simp [text]⟩

theorem Lexes.blank {t rest : Bytes} {layout more : List Lexeme} {x : Lexeme}
    (lexes : Lexes t (layout ++ x :: more) rest) (elided : ∀ y ∈ layout, y.isLayout = true)
    (inline : x.kind ≠ .newline) : ∀ b ∈ layout.flatMap Lexeme.text, Token.isBlank b = true := by
  induction layout generalizing t with
  | nil => simp
  | cons y layout ih =>
    rw [List.cons_append] at lexes
    cases lexes with
    | @step _ u _ _ heads lexes =>
      have first : y.kind = .comment ∨ y.kind = .blank := by
        simpa [Lexeme.isLayout] using elided y List.mem_cons_self
      have blank : y.kind = .blank := by
        refine first.resolve_left fun comment => ?_
        obtain ⟨z, following, next, other⟩ : ∃ z following, layout ++ x :: more = z :: following ∧
            z.kind ≠ .newline := by
          cases layout with
          | nil => exact ⟨x, more, rfl, inline⟩
          | cons z layout =>
            refine ⟨z, layout ++ x :: more, rfl, fun line => ?_⟩
            have elided' := elided z (by simp)
            simp [Lexeme.isLayout, line] at elided'
        rw [next] at lexes
        obtain ⟨b, starts, inside⟩ := lexes.head?
        obtain rfl := heads.comment comment b starts
        obtain ⟨left, heads'⟩ := lexes.heads_of_mem List.mem_cons_self
        exact heads'.unbroken other inside
      intro b mem
      rw [List.flatMap_cons, List.mem_append] at mem
      obtain here | later := mem
      · exact heads.blank blank b here
      · exact ih lexes (fun z mem => elided z (List.mem_cons_of_mem _ mem)) b later

theorem Lexes.split {t rest : Bytes} {front back : List Lexeme} (lexes : Lexes t (front ++ back) rest) :
    Lexes (back.flatMap Lexeme.text ++ rest) back rest ∧ Lexes t front (back.flatMap Lexeme.text ++ rest) := by
  induction front generalizing t with
  | nil =>
    have text := lexes.text_eq
    rw [List.nil_append] at lexes text
    exact ⟨text ▸ lexes, text ▸ .done t⟩
  | cons x front ih =>
    rw [List.cons_append] at lexes
    cases lexes with
    | step heads lexes => exact ⟨(ih lexes).1, .step heads (ih lexes).2⟩

theorem Lexes.count_newline {t rest : Bytes} {lexemes : List Lexeme} (lexes : Lexes t lexemes rest) :
    (lexemes.flatMap Lexeme.text).count Bytes.newline = lexemes.countP fun x => x.kind = .newline := by
  induction lexes with
  | done t => rfl
  | @step x t more rest heads lexes ih =>
    rw [List.flatMap_cons, List.count_append, ih]
    obtain rfl | ⟨other, unbroken⟩ := heads.newline
    · rw [List.countP_cons_of_pos (by rfl), Nat.add_comm]
      rfl
    · rw [List.countP_cons_of_neg (by simpa using other), List.count_eq_zero.mpr unbroken, Nat.zero_add]

theorem Lexes.position {t rest : Bytes} {lexemes : List Lexeme} (lexes : Lexes t lexemes rest)
    {front back : List Token} {token : Token} (split : tokensAt {} lexemes = front ++ token :: back) :
    token.position = .after ((front.map Token.lexeme).flatMap Lexeme.text) := by
  have whole := map_lexeme_tokensAt {} lexemes
  rw [split, List.map_append, List.map_cons] at whole
  rw [← whole, tokensAt_append, tokensAt] at split
  have lengths : (tokensAt {} (front.map Token.lexeme)).length = front.length := by
    rw [← List.length_map Token.lexeme, map_lexeme_tokensAt, List.length_map]
  have here := List.head_eq_of_cons_eq (List.append_inj split lengths).2
  rw [← whole] at lexes
  rw [← here]
  exact lexes.split.2.placeAfter_eq []

theorem Lexes.whole {t rest : Bytes} {tokens : List Token} (lexes : Lexes t (tokens.map Token.lexeme) rest)
    (ended : Ended tokens) : Whole ((tokens.map Token.lexeme).flatMap Lexeme.text) := by
  obtain rfl | ⟨front, newline, rfl⟩ := tokens.eq_nil_or_concat
  · simp [Whole]
  · have kind : newline.kind = .newline := by simpa [Ended] using ended
    obtain ⟨left, heads⟩ := lexes.heads_of_mem (x := newline.lexeme) (by simp)
    have text : newline.lexeme.text = [Bytes.newline] := by
      rw [heads.eq_newline kind]
      rfl
    simp [Whole, text]

theorem SourceForm.split {tokens : List Token} {earlier later : List Line} {l : Line}
    (form : SourceForm tokens (earlier ++ l :: later)) :
    ∃ front line back, tokens = front ++ (line ++ back) ∧ SourceForm front earlier ∧ LineForm line l := by
  induction earlier generalizing tokens with
  | nil =>
    cases form with
    | @line line more newline _ _ form ends rest => exact ⟨[], line, newline :: more, rfl, .nil, form⟩
  | cons first earlier ih =>
    rw [List.cons_append] at form
    cases form with
    | @line tokens more newline _ _ form ends rest =>
      obtain ⟨front, line, back, rfl, forms, form'⟩ := ih rest
      exact ⟨tokens ++ newline :: front, line, back, by simp, .line form ends forms, form'⟩

theorem SourceForm.ended {tokens : List Token} {lines : List Line} (form : SourceForm tokens lines) :
    Ended tokens :=
  (Place.run?_last form.run).2.mp rfl

theorem LineForm.head {tokens : List Token} {l : Line} (form : LineForm tokens l)
    (stated : l.statement.isSome) : ∃ t more, tokens = t :: more ∧ l.start = t.position ∧ t.kind ≠ .newline := by
  have filled : tokens ≠ [] := by
    rintro rfl
    have placed := form.placed.1
    obtain ⟨s, statement⟩ := Option.isSome_iff_exists.mp stated
    simp [Line.tokens, statement] at placed
  obtain ⟨t, more, rfl⟩ := List.exists_cons_of_ne_nil filled
  refine ⟨t, more, rfl, ?_, form.placed.2 t List.mem_cons_self⟩
  generalize whole : t :: more = tokens at form
  cases form with
  | intro all statement =>
    rw [← whole]
    rfl

/-- Where a line of a source starts: behind the lines before it and some blanks. -/
structure Line.StartsIn (l : Line) (source : Bytes) (k : Nat) (before blanks rest : Bytes) : Prop where
  text : source = before ++ (blanks ++ rest)
  filled : rest ≠ []
  whole : Whole before
  lines : before.count Bytes.newline = k
  blank : ∀ b ∈ blanks, Token.isBlank b = true
  start : l.start = .after (before ++ blanks)

theorem closeLast_eq_append {source before word after : Bytes} (closed : closeLast source = before ++ (word ++ after))
    (filled : word ≠ []) (unbroken : Bytes.newline ∉ word) : ∃ after', source = before ++ (word ++ after') := by
  unfold closeLast at closed
  split at closed
  · exact ⟨after, closed⟩
  · obtain rfl | ⟨front, b, rfl⟩ := after.eq_nil_or_concat
    · obtain ⟨init, b, rfl⟩ := (List.eq_nil_or_concat word).resolve_left filled
      rw [List.append_nil, List.concat_eq_append, ← List.append_assoc] at closed
      have last := List.singleton_inj.mp (List.append_inj' closed rfl).2
      exact absurd (by simp [last]) unbroken
    · rw [List.concat_eq_append, ← List.append_assoc, ← List.append_assoc] at closed
      exact ⟨front, by rw [(List.append_inj' closed rfl).1, List.append_assoc]⟩

theorem exists_whole {tokens : List Token} (ended : Ended (tokens.filter fun t => !t.isLayout)) :
    ∃ whole gap, tokens = whole ++ gap ∧ Ended whole ∧ ∀ t ∈ gap, t.isLayout = true := by
  generalize kept : tokens.filter (fun t => !t.isLayout) = words at ended
  obtain rfl | ⟨front, newline, rfl⟩ := words.eq_nil_or_concat
  · exact ⟨[], tokens, rfl, by simp [Ended], by simpa using kept⟩
  · rw [List.concat_eq_append] at kept ended
    obtain ⟨first, second, rfl, -, last⟩ := List.filter_eq_append_iff.mp kept
    obtain ⟨gap, after, rfl, elided, -, rest⟩ := List.filter_eq_cons_iff.mp last
    refine ⟨first ++ gap ++ [newline], after, by simp, ?_, by simpa using rest⟩
    simpa [Ended] using ended

/-- Counted back by its column, the start of a line is a start of a line. -/
theorem Line.StartsIn.lineByte {l : Line} {source before blanks rest : Bytes} {k : Nat}
    (starts : l.StartsIn source k before blanks rest) :
    (Cursor.of l.start 1).lineByte = lineOffset source k ∧ lineOffset source k = before.length ∧
      (textLines source).drop k = textLines (blanks ++ rest) ∧ l.start.line = k + 1 := by
  have unbroken : Bytes.newline ∉ blanks := fun inside => absurd (starts.blank _ inside) (by decide)
  have plain : ∀ b ∈ blanks, b < 0x80 := by
    intro b mem
    have blank := starts.blank b mem
    simp only [Token.isBlank, Bool.or_eq_true, decide_eq_true_eq] at blank
    obtain (rfl | rfl) | rfl := blank <;> decide
  obtain ⟨offset, lines⟩ := starts.whole.lines (blanks ++ rest)
  rw [← starts.text, starts.lines] at offset lines
  refine ⟨?_, offset, lines, ?_⟩
  · rw [offset, starts.start, Cursor.lineByte, Cursor.of, Position.after,
      starts.whole.lastLine_append unbroken, Utf8.count_of_ascii plain, List.length_append]
    simp
  · rw [starts.start, Position.after, List.count_append, starts.lines, List.count_eq_zero.mpr unbroken]
    exact Nat.add_comm 1 k

theorem line_starts {source : Bytes} {earlier later : List Line} {l : Line}
    (parsed : parse source = .ok (earlier ++ l :: later)) (stated : l.statement.isSome) :
    ∃ before blanks rest, l.StartsIn source earlier.length before blanks rest := by
  obtain ⟨tokens, tokenized, form⟩ := exists_form parsed
  obtain ⟨front, line, back, rfl, forms, lineForm⟩ := form.split
  obtain ⟨t, more, rfl, start, inline⟩ := lineForm.head stated
  obtain ⟨lexemes, lexes, filtered⟩ := tokenized
  obtain ⟨first, second, scanned, kept, others⟩ := List.filter_eq_append_iff.mp filtered.symm
  obtain ⟨gap, after, rfl, elided, -, -⟩ := List.filter_eq_cons_iff.mp others
  obtain ⟨whole, gap', rfl, ended, elided'⟩ := exists_whole (kept ▸ forms.ended)
  have scanned' : tokensAt {} lexemes = (whole ++ (gap' ++ gap)) ++ t :: after := by simp [scanned]
  have position := lexes.position scanned'
  have lexed := map_lexeme_tokensAt {} lexemes
  rw [scanned', List.map_append, List.map_append, List.map_cons, List.append_assoc] at lexed
  rw [← lexed] at lexes
  obtain ⟨rest, before⟩ := lexes.split
  have layout : ∀ x ∈ (gap' ++ gap).map Token.lexeme, x.isLayout = true := by
    intro x mem
    obtain ⟨u, listed, rfl⟩ := List.mem_map.mp mem
    obtain here | here := List.mem_append.mp listed
    · exact elided' u here
    · have covered : u.isLayout = true := by simpa using elided u here
      exact covered
  have blank := rest.blank layout inline
  obtain ⟨left, heads⟩ := lexes.heads_of_mem (x := t.lexeme) (by simp)
  have unbroken : Bytes.newline ∉ t.text := heads.unbroken inline
  have filled : t.text ≠ [] := heads.filled
  have text := lexes.text_eq
  rw [List.append_nil, List.flatMap_append, List.flatMap_append, List.flatMap_cons, ← List.append_assoc] at text
  obtain ⟨remaining, same⟩ := closeLast_eq_append text filled unbroken
  have words : front = whole.filter fun u => !u.isLayout := by
    have none' : gap'.filter (fun u => !u.isLayout) = [] := by simpa using elided'
    rw [← kept, List.filter_append, none', List.append_nil]
  have lines : ((whole.map Token.lexeme).flatMap Lexeme.text).count Bytes.newline = earlier.length := by
    rw [before.count_newline, forms.placed.2, words, List.countP_filter, List.countP_map]
    refine List.countP_congr fun u _ => ?_
    cases kind : u.kind <;> simp [Token.lexeme, Token.isLayout, kind]
  refine ⟨(whole.map Token.lexeme).flatMap Lexeme.text, ((gap' ++ gap).map Token.lexeme).flatMap Lexeme.text,
    t.text ++ remaining, ?_, ?_, ?_, lines, blank, ?_⟩
  · rw [same, List.append_assoc]
    rfl
  · simp [filled]
  · exact before.whole ended
  · rw [start, position, List.map_append, List.flatMap_append]

end Assembly

end WordMachine
