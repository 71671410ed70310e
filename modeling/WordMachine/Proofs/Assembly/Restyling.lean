import WordMachine.Proofs.Assembly.LineStarts

/-! Sources in another style. Blanks and comments, a comma between operands and the case of words that
mean the same in any case are matters of style. What comes after a lexeme decides how far the lexeme goes,
so it has to be shown that another style moves no end of a word: behind it comes the same text but for case,
up to a byte at which every word is over. -/

namespace WordMachine.Assembly

open Text

/-- How far a line has come, even if no line can go on like that: no statement has begun yet, or one
has, and its last word is an operand or is none. -/
inductive Spot where
  | bare | headed | operand
  deriving DecidableEq, Repr

def Spot.next (spot : Spot) : TokenKind → Spot
  | .comment | .blank => spot
  | .newline => bare
  | .label => if spot = bare then bare else headed
  | .name => if spot = bare then headed else operand
  | .number | .character | .string => operand
  | .directive | .comma => headed

def caseless (spot : Spot) (kind : TokenKind) (text : Bytes) : Bool :=
  match kind with
  | .directive => true
  | .name => spot = .bare || isRegisterName text
  | .label => isRegisterName (Bytes.trimSuffix text ":")
  | _ => false

def recased (spot : Spot) (kind : TokenKind) (text piece : Bytes) : Bool :=
  piece = text || caseless spot kind text && Bytes.toLower piece = Bytes.toLower text

def isGap (piece : Bytes) : Bool := !piece.isEmpty && piece.all Token.isBlank

def isComment (piece : Bytes) : Bool :=
  piece.head? = some (Bytes.ascii ';') && !piece.contains Bytes.newline

/-- Whether a text may stand for a lexeme: any blanks for blanks, any comment or none for a comment,
blanks for a comma that stands between operands, and a word in another case. -/
def Lexeme.allows (spot : Spot) (next? : Option Lexeme) (x : Lexeme) (piece : Bytes) : Bool :=
  match x.kind with
  | .blank => isGap piece
  | .comment => piece.isEmpty || isComment piece
  | .comma => piece = x.text || spot = .operand && next?.any Lexeme.isOperand && isGap piece
  | kind => recased spot kind x.text piece

def words (lexemes : List Lexeme) : List Lexeme := lexemes.filter fun x => !x.isLayout

def restyles : Spot → List Lexeme → List Bytes → Bool
  | _, [], [] => true
  | spot, x :: more, piece :: pieces =>
    x.allows spot (words more).head? piece && restyles (spot.next x.kind) more pieces
  | _, _, _ => false

inductive Leftover : Bytes → Bytes → Prop
  | nil : Leftover [] []
  | stuck {b : UInt8} {t u : Bytes} (first : Unlexed (b :: t)) (second : Unlexed (b :: u)) :
      Leftover (b :: t) (b :: u)

/-- A source in another style, up to its end or to the first place where no rule of tokens matches. -/
inductive Restyled (source source' : Bytes) : Prop
  | intro {lexemes : List Lexeme} {rest rest' : Bytes} {pieces : List Bytes}
      (lexes : Lexes (closeLast source) lexemes rest) (leftover : Leftover rest rest')
      (style : restyles .bare lexemes pieces = true) (text : closeLast source' = pieces.flatten ++ rest')

namespace Token

def isStop (b : UInt8) : Bool :=
  isBlank b || b = Bytes.newline || b = Bytes.ascii ';' || b = Bytes.ascii ','

end Token

structure OfWords (test : UInt8 → Bool) : Prop where
  lower (b : UInt8) : test (Bytes.lower b) = test b
  outside {b : UInt8} (outside : Token.isNameByte b = false) : test b = false

theorem ofWords_of_all {test : UInt8 → Bool}
    (all : ∀ n : Fin 256, test (Bytes.lower (.ofFin n)) = test (.ofFin n) ∧
      (Token.isNameByte (.ofFin n) = false → test (.ofFin n) = false)) : OfWords test :=
  ⟨fun b => (all b.toFin).1, fun outside => (all _).2 outside⟩

theorem ofWords_isLetter : OfWords Bytes.isLetter := ofWords_of_all (by decide +kernel)

theorem ofWords_isDigit : OfWords Bytes.isDigit := ofWords_of_all (by decide +kernel)

theorem ofWords_isHexDigit : OfWords Bytes.isHexDigit := ofWords_of_all (by decide +kernel)

theorem ofWords_isNameStart : OfWords Token.isNameStart := ofWords_of_all (by decide +kernel)

theorem ofWords_isNameByte : OfWords Token.isNameByte := ofWords_of_all (by decide +kernel)

theorem OfWords.eq {test : UInt8 → Bool} (ofWords : OfWords test) {b c : UInt8}
    (same : Bytes.lower b = Bytes.lower c) : test b = test c := by
  rw [← ofWords.lower b, same, ofWords.lower]

def TokenKind.isWord : TokenKind → Bool
  | directive | number | label | name => true
  | _ => false

theorem opens_lower {b c : UInt8} (same : Bytes.lower b = Bytes.lower c) (kind : TokenKind) :
    Token.opens b kind = Token.opens c kind := by
  have all : ∀ n : Fin 256, ∀ kind ∈ Token.rules,
      Token.opens (Bytes.lower (.ofFin n)) kind = Token.opens (.ofFin n) kind := by decide +kernel
  have first := all b.toFin kind (Token.mem_rules kind)
  have second := all c.toFin kind (Token.mem_rules kind)
  exact first.symm.trans ((congrArg (Token.opens · kind) same).trans second)

def Stopped (t : Bytes) : Prop := ∀ b ∈ t.head?, Token.isStop b = true

inductive Agrees : Bytes → Bytes → Prop
  | stop {t u : Bytes} (first : Stopped t) (second : Stopped u) : Agrees t u
  | stuck {b : UInt8} {t u : Bytes} (first : Unlexed (b :: t)) (second : Unlexed (b :: u)) :
      Agrees (b :: t) (b :: u)
  | byte {b c : UInt8} {t u : Bytes} (same : Bytes.lower b = Bytes.lower c) (more : Agrees t u) :
      Agrees (b :: t) (c :: u)

theorem Stopped.matchLength {t : Bytes} (stopped : Stopped t) {kind : TokenKind} (word : kind.isWord = true) :
    Token.matchLength kind t = none := by
  cases t with
  | nil => rfl
  | cons b t =>
    have all : ∀ n : Fin 256, Token.isStop (.ofFin n) = true → ∀ kind ∈ Token.rules, kind.isWord = true →
        Token.opens (.ofFin n) kind = false := by decide +kernel
    exact Token.matchLength_of_closed (all b.toFin (stopped b rfl) kind (Token.mem_rules kind) word) t

theorem Stopped.outside {t : Bytes} (stopped : Stopped t) : ∀ b ∈ t.head?, Token.isNameByte b = false := by
  have all : ∀ n : Fin 256, Token.isStop (.ofFin n) = true → Token.isNameByte (.ofFin n) = false := by
    decide +kernel
  exact fun b first => all b.toFin (stopped b first)

theorem Unlexed.outside {t : Bytes} (unlexed : Unlexed t) : ∀ b ∈ t.head?, Token.isNameByte b = false := by
  intro b first
  obtain ⟨t, rfl⟩ : ∃ more, t = b :: more := ⟨t.tail, (List.cons_head?_tail first).symm⟩
  have name := matchLength_eq_none_iff.mpr (unlexed.refused .name)
  have number := matchLength_eq_none_iff.mpr (unlexed.refused .number)
  by_contra inside
  simp only [Token.isNameByte, Bool.not_eq_false, Bool.or_eq_true] at inside
  obtain start | digit := inside
  · simp [Token.matchLength, start] at name
  · simp only [Token.matchLength, Token.spanLength, List.takeWhile_cons, digit, if_true, List.length_cons,
      Nat.zero_lt_succ] at number
    split at number <;> simp at number

theorem span_of_outside {t : Bytes} (outside : ∀ b ∈ t.head?, Token.isNameByte b = false) {test : UInt8 → Bool}
    (ofWords : OfWords test) : Token.spanLength test t = 0 ∧ t.dropWhile test = t := by
  cases t with
  | nil => exact ⟨rfl, rfl⟩
  | cons b t =>
    have fails := ofWords.outside (outside b rfl)
    simp [Token.spanLength, fails]

namespace Agrees

variable {t u : Bytes}

theorem append {word word' : Bytes} (same : Bytes.toLower word' = Bytes.toLower word) (agrees : Agrees t u) :
    Agrees (word ++ t) (word' ++ u) := by
  induction word generalizing word' with
  | nil =>
    obtain rfl : word' = [] := List.map_eq_nil_iff.mp same
    exact agrees
  | cons b word ih =>
    obtain ⟨c, word', rfl, first, rest⟩ := List.map_eq_cons_iff.mp same
    exact .byte first.symm (ih rest)

theorem span {test : UInt8 → Bool} (ofWords : OfWords test) (agrees : Agrees t u) :
    Token.spanLength test t = Token.spanLength test u ∧ Agrees (t.dropWhile test) (u.dropWhile test) := by
  induction agrees with
  | stop first second =>
    simp only [span_of_outside first.outside ofWords, span_of_outside second.outside ofWords, true_and]
    exact .stop first second
  | stuck first second =>
    simp only [span_of_outside first.outside ofWords, span_of_outside second.outside ofWords, true_and]
    exact .stuck first second
  | @byte b c t u same more ih =>
    have alike := ofWords.eq same
    rw [Token.spanLength] at ih ⊢
    rw [Token.spanLength] at ih ⊢
    rw [List.takeWhile_cons, List.takeWhile_cons, List.dropWhile_cons, List.dropWhile_cons, ← alike]
    by_cases inside : test b = true
    · simpa [inside] using ih
    · simpa [inside] using Agrees.byte same more

theorem head? {mark : UInt8} (passed : ∀ b, Token.isStop b = true → Bytes.lower b ≠ mark) (agrees : Agrees t u) :
    t.head?.map Bytes.lower = some mark ↔ u.head?.map Bytes.lower = some mark := by
  have unmarked : ∀ {t : Bytes}, Stopped t → t.head?.map Bytes.lower ≠ some mark := by
    intro t stopped found
    obtain ⟨b, first, same⟩ := Option.map_eq_some_iff.mp found
    exact passed b (stopped b first) same
  cases agrees with
  | stop first second => exact ⟨fun found => absurd found (unmarked first), fun found => absurd found (unmarked second)⟩
  | stuck first second => rfl
  | byte same more => simp [same]

theorem marked (agrees : Agrees t u) (mark : t.head?.map Bytes.lower = some (Bytes.ascii 'x')) :
    Agrees (t.drop 1) (u.drop 1) := by
  have all : ∀ n : Fin 256, Bytes.lower (.ofFin n) = Bytes.ascii 'x' → Token.isNameByte (.ofFin n) = true := by
    decide +kernel
  obtain ⟨b, first, letter⟩ := Option.map_eq_some_iff.mp mark
  have inside : Token.isNameByte b = true := all b.toFin letter
  cases agrees with
  | stop stopped _ => exact absurd inside (by simp [stopped.outside b first])
  | stuck unlexed _ => exact absurd inside (by simp [unlexed.outside b first])
  | byte same more => exact more

theorem colon (agrees : Agrees t u) : t.head? = some (Bytes.ascii ':') ↔ u.head? = some (Bytes.ascii ':') := by
  have all : ∀ n : Fin 256, (Token.isStop (.ofFin n) = true → Bytes.lower (.ofFin n) ≠ Bytes.ascii ':') ∧
      (Bytes.lower (.ofFin n) = Bytes.ascii ':' ↔ UInt8.ofFin n = Bytes.ascii ':') := by decide +kernel
  have plain : ∀ t : Bytes, t.head? = some (Bytes.ascii ':') ↔
      t.head?.map Bytes.lower = some (Bytes.ascii ':') := by
    intro t
    cases t with
    | nil => simp
    | cons b t => simpa using (all b.toFin).2.symm
  rw [plain, plain]
  exact agrees.head? fun b => (all b.toFin).1

theorem matchLength {kind : TokenKind} (word : kind.isWord = true) (agrees : Agrees t u) :
    Token.matchLength kind t = Token.matchLength kind u := by
  have mark : ∀ b, Token.isStop b = true → Bytes.lower b ≠ Bytes.ascii 'x' := by
    have all : ∀ n : Fin 256, Token.isStop (.ofFin n) = true → Bytes.lower (.ofFin n) ≠ Bytes.ascii 'x' := by
      decide +kernel
    exact fun b => all b.toFin
  cases agrees with
  | stop first second => rw [first.matchLength word, second.matchLength word]
  | stuck first second =>
    rw [matchLength_eq_none_iff.mpr (first.refused kind), matchLength_eq_none_iff.mpr (second.refused kind)]
  | @byte b c t u same more =>
    have exactly : ∀ mark ∈ [Bytes.ascii '.', Bytes.ascii '0'], (b = mark ↔ c = mark) := by
      have all : ∀ n : Fin 256, ∀ mark ∈ [Bytes.ascii '.', Bytes.ascii '0'],
          (Bytes.lower (.ofFin n) = mark ↔ UInt8.ofFin n = mark) := by decide +kernel
      intro mark listed
      have first := all b.toFin mark listed
      have second := all c.toFin mark listed
      exact first.symm.trans ((show _ ↔ _ from same ▸ Iff.rfl).trans second)
    have dot := exactly _ List.mem_cons_self
    have zero := exactly _ (List.mem_cons_of_mem _ List.mem_cons_self)
    cases kind with
    | comment | blank | newline | string | character | comma => simp [TokenKind.isWord] at word
    | directive => simp only [Token.matchLength, dot, (more.span ofWords_isLetter).1]
    | number =>
      have digits := ((Agrees.byte same more).span ofWords_isDigit).1
      have marked := more.head? mark
      by_cases hexadecimal : t.head?.map Bytes.lower = some (Bytes.ascii 'x')
      · have run := ((more.marked hexadecimal).span ofWords_isHexDigit).1
        simp only [Token.matchLength, zero, hexadecimal, marked.mp hexadecimal, digits, run]
      · simp only [Token.matchLength, hexadecimal, mt marked.mpr hexadecimal, digits]
        simp
    | label =>
      obtain ⟨run, rest⟩ := more.span ofWords_isNameByte
      have colon : (t.drop (Token.spanLength Token.isNameByte t)).head? = some (Bytes.ascii ':') ↔
          (u.drop (Token.spanLength Token.isNameByte u)).head? = some (Bytes.ascii ':') := by
        rw [drop_spanLength, drop_spanLength]
        exact rest.colon
      rw [run] at colon
      simp only [Token.matchLength, ofWords_isNameStart.eq same, Nat.add_comm 1, List.drop_succ_cons, colon, run]
    | name => simp only [Token.matchLength, ofWords_isNameStart.eq same, (more.span ofWords_isNameByte).1]

end Agrees

theorem quotedLength_take {quote : UInt8} {t : Bytes} {n : Nat} (closed : Token.quotedLength quote t = some n) :
    Token.quotedLength quote (t.take n) = some n := by
  fun_induction Token.quotedLength quote t generalizing n with
  | case1 => simp at closed
  | case2 => simp at closed
  | case3 c rest other ih =>
    obtain ⟨m, inner, rfl⟩ := Option.map_eq_some_iff.mp closed
    simp [Token.quotedLength, other, ih inner]
  | case4 rest =>
    obtain rfl := Option.some.inj closed
    simp [Token.quotedLength]
  | case5 => simp at closed
  | case6 b rest _ unquoted inside ih =>
    obtain ⟨m, inner, rfl⟩ := Option.map_eq_some_iff.mp closed
    have plain : b ≠ 92 := by
      rintro rfl
      simp at inside
    rw [List.take_succ_cons, Token.quotedLength.eq_3 _ _ _ fun _ _ escape => absurd escape plain,
      if_neg unquoted, if_neg inside, ih inner]
    rfl

namespace Lexeme.Heads

variable {x : Lexeme} {t u : Bytes}

theorem mark {b : UInt8} {kind : TokenKind} (taken : ∀ rest, Token.matchLength kind (b :: rest) = some 1)
    (closed : ∀ k ∈ Token.before kind, Token.opens b k = false) : Lexeme.Heads ⟨kind, [b]⟩ u := by
  rw [heads_iff_next?]
  exact Token.next?_of_closed closed (taken u)

theorem quoted (heads : x.Heads t) (kind : x.kind = .string ∨ x.kind = .character) : x.Heads u := by
  obtain ⟨b, more, text, first⟩ := heads.opens
  obtain ⟨taken, -⟩ := next?_eq_some_iff.mp (heads_iff_next?.mp heads)
  obtain ⟨kind', word⟩ := x
  obtain rfl : word = b :: more := text
  have moved : ∀ quote : UInt8, quote ≠ 92 →
      (Token.quotedLength quote (more ++ t)).map (· + 1) = some (b :: more).length →
      Token.quotedLength quote (more ++ u) = some more.length ∧ more ≠ [] := by
    intro quote plain closed
    obtain ⟨n, inner, length⟩ := Option.map_eq_some_iff.mp closed
    obtain rfl : n = more.length := Nat.succ.inj length
    have whole := quotedLength_take inner
    rw [List.take_left] at whole
    refine ⟨Token.quotedLength_append plain whole u, ?_⟩
    rintro rfl
    simp [Token.quotedLength] at whole
  rw [heads_iff_next?]
  obtain rfl | rfl := kind
  · obtain rfl : b = 34 := by simpa [Token.opens] using first
    rw [List.cons_append, Token.matchLength, if_pos rfl] at taken
    obtain ⟨closed, -⟩ := moved 34 (by decide) taken
    have earlier : ∀ k ∈ Token.before .string, Token.opens 34 k = false := by decide
    exact Token.next?_of_closed earlier (by simp [Token.matchLength, closed])
  · obtain rfl : b = 39 := by simpa [Token.opens] using first
    rw [List.cons_append, Token.matchLength] at taken
    split at taken
    · next opened =>
      obtain ⟨closed, filled⟩ := moved 39 (by decide) taken
      obtain ⟨c, inner, rfl⟩ := List.exists_cons_of_ne_nil filled
      have earlier : ∀ k ∈ Token.before .character, Token.opens 39 k = false := by decide
      have single : c ≠ 39 := by simpa using opened
      rw [List.cons_append] at closed
      exact Token.next?_of_closed earlier (by simp [Token.matchLength, closed, single])
    · simp at taken

theorem word (heads : x.Heads t) (word : x.kind.isWord = true) {piece : Bytes}
    (same : Bytes.toLower piece = Bytes.toLower x.text) (agrees : Agrees t u) :
    Lexeme.Heads ⟨x.kind, piece⟩ u := by
  have alike := agrees.append same
  have length : piece.length = x.text.length := by simpa [Bytes.toLower] using congrArg List.length same
  obtain ⟨b, more, text, first⟩ := heads.opens
  obtain ⟨taken, refused⟩ := next?_eq_some_iff.mp (heads_iff_next?.mp heads)
  obtain ⟨c, more', rfl, first', -⟩ := List.map_eq_cons_iff.mp (text ▸ same)
  rw [heads_iff_next?]
  refine Token.next?_of_first (fun k earlier => ?_) (by rw [← alike.matchLength word, taken, length])
  by_cases going : k.isWord = true
  · rw [← alike.matchLength going, refused k earlier]
  · have all : ∀ n : Fin 256, ∀ kind ∈ Token.rules, kind.isWord = true → Token.opens (.ofFin n) kind = true →
        ∀ k ∈ Token.rules, k.isWord = false → Token.opens (.ofFin n) k = false := by decide +kernel
    have closed := all b.toFin x.kind (Token.mem_rules _) word first k (Token.mem_rules _) (by simpa using going)
    exact Token.matchLength_of_closed ((opens_lower first' k).trans closed) _

theorem recased (heads : x.Heads t) (inked : x.isLayout = false) {spot : Spot} {piece : Bytes}
    (same : recased spot x.kind x.text piece = true) (agrees : Agrees t u) : Lexeme.Heads ⟨x.kind, piece⟩ u := by
  by_cases word : x.kind.isWord = true
  · refine heads.word word ?_ agrees
    simp only [WordMachine.Assembly.recased, Bool.or_eq_true, decide_eq_true_eq, Bool.and_eq_true] at same
    obtain rfl | ⟨-, same⟩ := same
    · rfl
    · exact same
  · obtain ⟨kind, text⟩ := x
    have fixed : piece = text := by
      cases kind <;> simp_all [WordMachine.Assembly.recased, caseless, TokenKind.isWord, Lexeme.isLayout]
    subst fixed
    cases kind with
    | comment | blank => simp [Lexeme.isLayout] at inked
    | directive | number | label | name => simp [TokenKind.isWord] at word
    | string => exact heads.quoted (.inl rfl)
    | character => exact heads.quoted (.inr rfl)
    | newline =>
      rw [heads.eq_newline rfl]
      exact mark (fun rest => by simp [Token.matchLength]) (by decide)
    | comma =>
      have whole : piece = [Bytes.ascii ','] := by
        obtain ⟨b, more, text, first⟩ := heads.opens
        obtain ⟨taken, -⟩ := next?_eq_some_iff.mp (heads_iff_next?.mp heads)
        obtain rfl : piece = b :: more := text
        obtain rfl : b = Bytes.ascii ',' := by simpa [Token.opens] using first
        simpa [Token.matchLength] using taken
      subst whole
      exact mark (fun rest => by simp [Token.matchLength]) (by decide)

theorem inked (heads : x.Heads t) (kind : x.kind = .blank) : ∀ b ∈ t.head?, Token.isBlank b = false := by
  have taken := heads.taken
  obtain ⟨b, more, text, first⟩ := heads.opens
  have blank : Token.isBlank b = true := by simpa [kind, Token.opens] using first
  rw [kind, text, TokenKind.pattern, List.cons_append, Pattern.rests_plus_byte, if_pos blank,
    Pattern.head?_rests_star_byte] at taken
  rw [← Option.some.inj taken]
  exact refused_of_dropWhile

end Lexeme.Heads

theorem exists_gap {piece : Bytes} (gap : isGap piece = true) :
    ∃ b more, piece = b :: more ∧ Token.isBlank b = true ∧ ∀ c ∈ more, Token.isBlank c = true := by
  cases piece with
  | nil => simp [isGap] at gap
  | cons b more => exact ⟨b, more, rfl, by simpa [isGap] using gap⟩

theorem heads_gap {piece u : Bytes} (gap : isGap piece = true) (inked : ∀ b ∈ u.head?, Token.isBlank b = false) :
    Lexeme.Heads ⟨.blank, piece⟩ u := by
  obtain ⟨b, more, rfl, first, others⟩ := exists_gap gap
  have all : ∀ n : Fin 256, Token.isBlank (.ofFin n) = true →
      ∀ k ∈ Token.before .blank, Token.opens (.ofFin n) k = false := by decide +kernel
  rw [heads_iff_next?]
  refine Token.next?_of_closed (all b.toFin first) ?_
  simp [Token.matchLength, first, spanLength_of_stops others inked, Nat.add_comm 1]

theorem heads_comment {piece u : Bytes} (comment : isComment piece = true)
    (ends : ∀ b ∈ u.head?, b = Bytes.newline) : Lexeme.Heads ⟨.comment, piece⟩ u := by
  obtain ⟨first, unbroken⟩ : piece.head? = some (Bytes.ascii ';') ∧ Bytes.newline ∉ piece := by
    simpa [isComment] using comment
  obtain ⟨more, rfl⟩ : ∃ more, piece = Bytes.ascii ';' :: more := ⟨piece.tail, (List.cons_head?_tail first).symm⟩
  have inside : ∀ c ∈ more, decide (c ≠ Bytes.newline) = true := by
    intro c mem
    rw [decide_eq_true_eq]
    rintro rfl
    exact unbroken (List.mem_cons_of_mem _ mem)
  have stops : ∀ b ∈ u.head?, decide (b ≠ Bytes.newline) = false := fun b next => by simp [ends b next]
  have length := spanLength_of_stops inside stops
  rw [heads_iff_next?]
  refine Token.next?_of_first (by simp [Token.before, Token.rules]) ?_
  simp only [List.cons_append, Token.matchLength, if_true, length, List.length_cons, Nat.add_comm 1]

theorem Lexes.pad {u rest piece : Bytes} {lexemes : List Lexeme} (lexes : Lexes u lexemes rest)
    (stops : rest = [] ∨ Unlexed rest) (gap : isGap piece = true) :
    ∃ padded, Lexes (piece ++ u) padded rest ∧ words padded = words lexemes := by
  by_cases inked : ∀ b ∈ u.head?, Token.isBlank b = false
  · exact ⟨⟨.blank, piece⟩ :: lexemes, .step (heads_gap gap inked) lexes, rfl⟩
  · obtain ⟨b, u, rfl, blank⟩ : ∃ b more, u = b :: more ∧ Token.isBlank b = true := by
      cases u with
      | nil => simp at inked
      | cons b u => exact ⟨b, u, rfl, by simpa using inked⟩
    generalize whole : b :: u = text at lexes
    cases lexes with
    | done t =>
      subst whole
      have unlexed : Unlexed (b :: u) := stops.resolve_left (by simp)
      have none' := matchLength_eq_none_iff.mpr (unlexed.refused .blank)
      simp [Token.matchLength, blank] at none'
    | @step y t more rest heads lexes =>
      obtain ⟨c, word, text', first⟩ := heads.opens
      obtain rfl : b = c := by
        rw [text'] at whole
        exact (List.cons_eq_cons.mp whole).1
      have all : ∀ n : Fin 256, Token.isBlank (.ofFin n) = true → ∀ kind ∈ Token.rules,
          Token.opens (.ofFin n) kind = true → kind = .blank := by decide +kernel
      have kind : y.kind = .blank := all b.toFin blank y.kind (Token.mem_rules _) first
      have gap' : isGap (piece ++ y.text) = true := by
        obtain ⟨d, others, rfl, first, rest⟩ := exists_gap gap
        simpa [isGap, first] using ⟨rest, heads.blank kind⟩
      refine ⟨⟨.blank, piece ++ y.text⟩ :: more, ?_, ?_⟩
      · rw [← List.append_assoc]
        exact .step (heads_gap gap' (heads.inked kind)) lexes
      · simp [words, Lexeme.isLayout, kind]

structure Token.Recased (spot : Spot) (t t' : Token) : Prop where
  kind : t'.kind = t.kind
  text : recased spot t.kind t.text t'.text = true

inductive Alike : Spot → List Token → List Token → Prop
  | nil (spot : Spot) : Alike spot [] []
  | keep {spot : Spot} {t t' : Token} {tokens tokens' : List Token} (same : t.Recased spot t')
      (more : Alike (spot.next t.kind) tokens tokens') : Alike spot (t :: tokens) (t' :: tokens')
  | drop {c o : Token} {tokens tokens' : List Token} (comma : c.kind = .comma) (operand : o.isOperand = true)
      (more : Alike .headed (o :: tokens) tokens') : Alike .operand (c :: o :: tokens) tokens'

/-- Lexemes that are alike as tokens, wherever they stand. -/
def AlikeWords (spot : Spot) (lexemes lexemes' : List Lexeme) : Prop :=
  ∀ tokens tokens' : List Token, tokens.map Token.lexeme = words lexemes →
    tokens'.map Token.lexeme = words lexemes' → Alike spot tokens tokens'

theorem allows_cases {spot : Spot} {next? : Option Lexeme} {x : Lexeme} {piece : Bytes}
    (allowed : x.allows spot next? piece = true) :
    (x.kind = .blank ∧ isGap piece = true) ∨ (x.kind = .comment ∧ (piece = [] ∨ isComment piece = true)) ∨
      (x.kind = .comma ∧ spot = .operand ∧ (∃ y ∈ next?, y.isOperand = true) ∧ isGap piece = true) ∨
      (x.isLayout = false ∧ recased spot x.kind x.text piece = true) := by
  obtain ⟨kind, text⟩ := x
  cases kind with
  | blank => exact .inl ⟨rfl, allowed⟩
  | comment => exact .inr (.inl ⟨rfl, by simpa [Lexeme.allows] using allowed⟩)
  | comma =>
    right; right
    simp only [Lexeme.allows, Bool.or_eq_true, decide_eq_true_eq, Bool.and_eq_true, Option.any_eq_true] at allowed
    obtain kept | ⟨⟨between, operand⟩, gap⟩ := allowed
    · exact .inr ⟨rfl, by simp [recased, kept]⟩
    · exact .inl ⟨rfl, between, operand, gap⟩
  | newline | string | character | directive | number | label | name => exact .inr (.inr (.inr ⟨rfl, allowed⟩))

theorem restyles_cons {spot : Spot} {x : Lexeme} {more : List Lexeme} {pieces : List Bytes}
    (style : restyles spot (x :: more) pieces = true) :
    ∃ piece pieces', pieces = piece :: pieces' ∧ x.allows spot (words more).head? piece = true ∧
      restyles (spot.next x.kind) more pieces' = true := by
  cases pieces with
  | nil => simp [restyles] at style
  | cons piece pieces => exact ⟨piece, pieces, rfl, by simpa [restyles] using style⟩

theorem toLower_recased {spot : Spot} {kind : TokenKind} {text piece : Bytes}
    (same : recased spot kind text piece = true) : Bytes.toLower piece = Bytes.toLower text := by
  simp only [recased, Bool.or_eq_true, decide_eq_true_eq, Bool.and_eq_true] at same
  obtain rfl | ⟨-, same⟩ := same
  · rfl
  · exact same

/-- A line ends where it ended. -/
theorem restyles_newline {t rest rest' : Bytes} {lexemes : List Lexeme} (lexes : Lexes t lexemes rest)
    (leftover : Leftover rest rest') {spot : Spot} {pieces : List Bytes}
    (style : restyles spot lexemes pieces = true) (ends : ∀ b ∈ t.head?, b = Bytes.newline) :
    ∀ b ∈ (pieces.flatten ++ rest').head?, b = Bytes.newline := by
  cases lexes with
  | done t =>
    cases pieces with
    | nil => cases leftover <;> exact ends
    | cons piece pieces => simp [restyles] at style
  | @step x t more rest heads lexes =>
    obtain ⟨piece, pieces, rfl, allowed, -⟩ := restyles_cons style
    obtain ⟨b, word, text, -⟩ := heads.opens
    obtain rfl : b = Bytes.newline := ends b (by simp [text])
    obtain line | ⟨-, unbroken⟩ := heads.newline
    · have kept : piece = [Bytes.newline] := by
        simpa [line, Lexeme.allows, Lexeme.newline, recased, caseless] using allowed
      simp [kept]
    · simp [text] at unbroken

theorem Stopped.of_cons {b : UInt8} (stop : Token.isStop b = true) (t : Bytes) : Stopped (b :: t) := by
  rintro c ⟨⟩
  exact stop

theorem stopped_gap {piece : Bytes} (gap : isGap piece = true) (u : Bytes) : Stopped (piece ++ u) := by
  obtain ⟨b, more, rfl, blank, -⟩ := exists_gap gap
  exact .of_cons (by simp [Token.isStop, blank]) _

theorem Lexeme.Heads.stopped {x : Lexeme} {t : Bytes} (heads : x.Heads t)
    (kind : x.kind = .blank ∨ x.kind = .comment ∨ x.kind = .comma) (u : Bytes) : Stopped (x.text ++ u) := by
  obtain ⟨b, more, text, first⟩ := heads.opens
  rw [text]
  refine .of_cons ?_ _
  obtain kind | kind | kind := kind <;> simp_all [Token.opens, Token.isStop]

namespace Leftover

variable {rest rest' : Bytes}

theorem stops (leftover : Leftover rest rest') : rest' = [] ∨ Unlexed rest' := by
  cases leftover with
  | nil => exact .inl rfl
  | stuck first second => exact .inr second

theorem agrees (leftover : Leftover rest rest') : Agrees rest rest' := by
  cases leftover with
  | nil => exact .stop (by simp [Stopped]) (by simp [Stopped])
  | stuck first second => exact .stuck first second

end Leftover

namespace AlikeWords

variable {spot : Spot} {x x' : Lexeme} {more more' : List Lexeme}

theorem layout (elided : x.isLayout = true) (alike : AlikeWords spot more more') :
    AlikeWords spot (x :: more) more' := by
  intro tokens tokens' first second
  exact alike tokens tokens' (by rw [first, words, List.filter_cons_of_neg (by simpa using elided)]; rfl) second

theorem of_words_eq {padded : List Lexeme} (same : words padded = words more')
    (alike : AlikeWords spot more more') : AlikeWords spot more padded := by
  intro tokens tokens' first second
  exact alike tokens tokens' first (second.trans same)

theorem keep (inked : x.isLayout = false) {piece : Bytes} (same : recased spot x.kind x.text piece = true)
    (alike : AlikeWords (spot.next x.kind) more more') :
    AlikeWords spot (x :: more) (⟨x.kind, piece⟩ :: more') := by
  intro tokens tokens' first second
  rw [words, List.filter_cons_of_pos (by simpa using inked)] at first
  rw [words, List.filter_cons_of_pos (by simpa [Lexeme.isLayout] using inked)] at second
  obtain ⟨t, tokens, rfl, rfl, others⟩ := List.map_eq_cons_iff.mp first
  obtain ⟨t', tokens', rfl, here, others'⟩ := List.map_eq_cons_iff.mp second
  obtain ⟨kind, text⟩ := Lexeme.mk.inj here
  exact .keep ⟨kind, text ▸ same⟩ (alike tokens tokens' others others')

theorem drop (comma : x.kind = .comma) (operand : ∃ y ∈ (words more).head?, y.isOperand = true)
    (alike : AlikeWords .headed more more') : AlikeWords .operand (x :: more) more' := by
  intro tokens tokens' first second
  rw [words, List.filter_cons_of_pos (by simp [Lexeme.isLayout, comma])] at first
  obtain ⟨c, tokens, rfl, rfl, others⟩ := List.map_eq_cons_iff.mp first
  obtain ⟨y, next, operand⟩ := operand
  have next' : (tokens.map Token.lexeme).head? = some y := by
    rw [others]
    exact next
  cases tokens with
  | nil => simp at next'
  | cons o tokens =>
    obtain rfl : o.lexeme = y := by simpa using next'
    exact .drop comma operand (alike (o :: tokens) tokens' others second)

end AlikeWords

/-- A text in another style falls into the same lexemes but for layout, commas and case, and comes to
a leftover like its own. -/
theorem Lexes.restyled {t rest rest' : Bytes} {lexemes : List Lexeme} (lexes : Lexes t lexemes rest)
    (leftover : Leftover rest rest') {spot : Spot} {pieces : List Bytes}
    (style : restyles spot lexemes pieces = true) :
    ∃ lexemes', Lexes (pieces.flatten ++ rest') lexemes' rest' ∧ Agrees t (pieces.flatten ++ rest') ∧
      AlikeWords spot lexemes lexemes' := by
  induction lexes generalizing spot pieces with
  | done t =>
    cases pieces with
    | nil =>
      refine ⟨[], .done rest', leftover.agrees, fun tokens tokens' first second => ?_⟩
      obtain rfl : tokens = [] := List.map_eq_nil_iff.mp first
      obtain rfl : tokens' = [] := List.map_eq_nil_iff.mp second
      exact .nil spot
    | cons piece pieces => simp [restyles] at style
  | @step x t more rest heads lexes ih =>
    obtain ⟨piece, pieces, rfl, allowed, style'⟩ := restyles_cons style
    obtain ⟨lexemes', lexes', agrees, alike⟩ := ih leftover style'
    rw [List.flatten_cons, List.append_assoc]
    obtain ⟨blank, gap⟩ | ⟨comment, deleted | replaced⟩ | ⟨comma, rfl, operand, gap⟩ | ⟨inked, same⟩ :=
      allows_cases allowed
    · obtain ⟨padded, lexes'', same⟩ := lexes'.pad leftover.stops gap
      rw [show spot.next x.kind = spot by rw [blank]; rfl] at alike
      exact ⟨padded, lexes'', .stop (heads.stopped (.inl blank) t) (stopped_gap gap _),
        (alike.layout (by simp [Lexeme.isLayout, blank])).of_words_eq same⟩
    · subst deleted
      have ends := restyles_newline lexes leftover style' (heads.comment comment)
      rw [show spot.next x.kind = spot by rw [comment]; rfl] at alike
      refine ⟨lexemes', lexes', .stop (heads.stopped (.inr (.inl comment)) t) fun b next => ?_,
        alike.layout (by simp [Lexeme.isLayout, comment])⟩
      rw [ends b next]
      rfl
    · have ends := restyles_newline lexes leftover style' (heads.comment comment)
      have heads' := heads_comment replaced ends
      rw [show spot.next x.kind = spot by rw [comment]; rfl] at alike
      exact ⟨_, .step heads' lexes', .stop (heads.stopped (.inr (.inl comment)) t)
        (heads'.stopped (.inr (.inl rfl)) _), (alike.layout (by simp [Lexeme.isLayout, comment])).of_words_eq rfl⟩
    · obtain ⟨padded, lexes'', same⟩ := lexes'.pad leftover.stops gap
      rw [show Spot.next .operand x.kind = .headed by rw [comma]; rfl] at alike
      exact ⟨padded, lexes'', .stop (heads.stopped (.inr (.inr comma)) t) (stopped_gap gap _),
        (alike.drop comma operand).of_words_eq same⟩
    · exact ⟨_, .step (heads.recased inked same agrees) lexes', agrees.append (toLower_recased same),
        alike.keep inked same⟩

end WordMachine.Assembly
