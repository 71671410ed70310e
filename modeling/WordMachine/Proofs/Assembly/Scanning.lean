import WordMachine.Proofs.Assembly.Repetition
import Mathlib.Data.List.Forall2

/-! Statements that are written plainly, with one space before each operand and a newline at the
end, are read as they were written. A scanner only looks ahead as far as the space or newline
that follows a word, so it is enough that every word is a token when one of these comes next. -/

namespace WordMachine.Assembly

structure Lexeme where
  kind : TokenKind
  text : Bytes
  deriving DecidableEq, Repr

def Token.lexeme (t : Token) : Lexeme := ⟨t.kind, t.text⟩

namespace Lexeme

def space : Lexeme := ⟨.blank, [Bytes.space]⟩

def newline : Lexeme := ⟨.newline, [Bytes.newline]⟩

def isLayout (x : Lexeme) : Bool := x.kind = .comment || x.kind = .blank

def isOperand (x : Lexeme) : Bool :=
  x.kind = .number || x.kind = .character || x.kind = .string || x.kind = .name

inductive Plain : Lexeme → Prop
  | name {b : UInt8} {rest : Bytes} (first : Token.isNameStart b = true)
      (others : ∀ c ∈ rest, Token.isNameByte c = true) : Plain ⟨.name, b :: rest⟩
  | number {text : Bytes} (filled : text ≠ []) (digits : ∀ c ∈ text, Bytes.isDigit c = true) :
      Plain ⟨.number, text⟩
  | directive {rest : Bytes} (filled : rest ≠ []) (letters : ∀ c ∈ rest, Bytes.isLetter c = true) :
      Plain ⟨.directive, Bytes.ascii '.' :: rest⟩
  | character {inner : Bytes} (opened : (inner ++ [39]).head? ≠ some 39)
      (closed : Token.quotedLength 39 (inner ++ [39]) = some (inner.length + 1)) :
      Plain ⟨.character, 39 :: (inner ++ [39])⟩

theorem isLayout_of_isOperand {x : Lexeme} (operand : x.isOperand = true) : x.isLayout = false := by
  cases kind : x.kind <;> simp_all [isOperand, isLayout]

end Lexeme

theorem spanLength_of_stops {test : UInt8 → Bool} {t rest : Bytes} (inside : ∀ b ∈ t, test b = true)
    (stops : ∀ b ∈ rest.head?, test b = false) : Token.spanLength test (t ++ rest) = t.length := by
  rw [Token.spanLength, List.takeWhile_append_of_pos inside]
  cases rest with
  | nil => simp
  | cons b rest => simp [stops b rfl]

/-- A text that starts with a space or a newline. -/
def Parted (rest : Bytes) : Prop := ∃ b more, rest = b :: more ∧ (b = Bytes.space ∨ b = Bytes.newline)

theorem spanLength_append {test : UInt8 → Bool} {t rest : Bytes} (inside : ∀ b ∈ t, test b = true)
    (parted : Parted rest) (space : test Bytes.space = false) (newline : test Bytes.newline = false) :
    Token.spanLength test (t ++ rest) = t.length := by
  obtain ⟨b, more, rfl, which⟩ := parted
  refine spanLength_of_stops inside ?_
  rintro c ⟨⟩
  obtain rfl | rfl := which
  · exact space
  · exact newline

namespace Token

def opens (b : UInt8) : TokenKind → Bool
  | .comment => b = Bytes.ascii ';'
  | .blank => isBlank b
  | .newline => b = Bytes.newline
  | .string => b = 34
  | .character => b = 39
  | .directive => b = Bytes.ascii '.'
  | .number => Bytes.isDigit b
  | .label | .name => isNameStart b
  | .comma => b = Bytes.ascii ','

theorem matchLength_of_closed {kind : TokenKind} {b : UInt8} (closed : opens b kind = false) (rest : Bytes) :
    matchLength kind (b :: rest) = none := by
  cases kind with
  | number =>
    have digit : Bytes.isDigit b = false := closed
    have nonzero : b ≠ Bytes.ascii '0' := by
      rintro rfl
      exact absurd closed (by decide)
    simp [matchLength, nonzero, spanLength, digit]
  | comment | blank | newline | string | character | directive | label | name | comma =>
    simp_all [opens, matchLength]

theorem mem_rules (kind : TokenKind) : kind ∈ rules := by
  cases kind <;> decide

def before (kind : TokenKind) : List TokenKind := rules.takeWhile (· ≠ kind)

theorem next?_of_first {kind : TokenKind} {t : Bytes} {n : Nat}
    (refused : ∀ k ∈ before kind, matchLength k t = none) (taken : matchLength kind t = some n) :
    next? t = some (kind, n) := by
  obtain ⟨later, order⟩ : ∃ later, rules = before kind ++ kind :: later := by
    cases kind <;> exact ⟨_, rfl⟩
  have none' : ((before kind).findSome? fun k => (matchLength k t).map (k, ·)) = none := by
    rw [List.findSome?_eq_none_iff]
    intro k mem
    rw [refused k mem]
    rfl
  rw [next?, order, List.findSome?_append, none', Option.none_or, List.findSome?_cons, taken]
  rfl

theorem next?_of_closed {kind : TokenKind} {b : UInt8} {rest : Bytes} {n : Nat}
    (closed : ∀ k ∈ before kind, opens b k = false) (taken : matchLength kind (b :: rest) = some n) :
    next? (b :: rest) = some (kind, n) :=
  next?_of_first (fun k earlier => matchLength_of_closed (closed k earlier) rest) taken

theorem closed_of_isNameStart {b : UInt8} (first : isNameStart b = true) :
    ∀ kind ∈ before .label, opens b kind = false := by
  have all : ∀ n : Fin 256, isNameStart (.ofFin n) = true →
      ∀ kind ∈ before .label, opens (.ofFin n) kind = false := by decide +kernel
  exact all b.toFin first

theorem closed_of_isDigit {b : UInt8} (digit : Bytes.isDigit b = true) :
    ∀ kind ∈ before .number, opens b kind = false := by
  have all : ∀ n : Fin 256, Bytes.isDigit (.ofFin n) = true →
      ∀ kind ∈ before .number, opens (.ofFin n) kind = false := by decide +kernel
  exact all b.toFin digit

theorem next?_name {b : UInt8} {name rest : Bytes} (first : isNameStart b = true)
    (others : ∀ c ∈ name, isNameByte c = true) (parted : Parted rest) :
    next? (b :: name ++ rest) = some (.name, (b :: name).length) := by
  have span : spanLength isNameByte (name ++ rest) = name.length :=
    spanLength_append others parted (by decide) (by decide)
  have unlabelled : matchLength .label (b :: name ++ rest) = none := by
    have colon : rest.head? ≠ some (Bytes.ascii ':') := by
      obtain ⟨c, more, rfl, rfl | rfl⟩ := parted <;> simp [Bytes.space, Bytes.newline, Bytes.ascii]
    simp [matchLength, span, Nat.add_comm 1, colon]
  apply next?_of_first
  · intro kind earlier
    obtain closed | rfl : kind ∈ before .label ∨ kind = .label := by
      simpa [show before .name = before .label ++ [.label] from rfl] using earlier
    · exact matchLength_of_closed (closed_of_isNameStart first kind closed) _
    · exact unlabelled
  · simp [matchLength, first, span, Nat.add_comm 1]

theorem lower_ne_of_isDigit {b : UInt8} (digit : Bytes.isDigit b = true) :
    Bytes.lower b ≠ Bytes.ascii 'x' := by
  have all : ∀ n : Fin 256, Bytes.isDigit (.ofFin n) = true →
      Bytes.lower (.ofFin n) ≠ Bytes.ascii 'x' := by decide +kernel
  exact all b.toFin digit

theorem next?_number {digits rest : Bytes} (filled : digits ≠ [])
    (all : ∀ c ∈ digits, Bytes.isDigit c = true) (parted : Parted rest) :
    next? (digits ++ rest) = some (.number, digits.length) := by
  have span : spanLength Bytes.isDigit (digits ++ rest) = digits.length :=
    spanLength_append all parted (by decide) (by decide)
  obtain ⟨b, more, rfl⟩ := List.exists_cons_of_ne_nil filled
  have unmarked : (more ++ rest).head?.map Bytes.lower ≠ some (Bytes.ascii 'x') := by
    cases more with
    | nil =>
      obtain ⟨c, more, rfl, rfl | rfl⟩ := parted <;>
        simp [Bytes.space, Bytes.newline, Bytes.ascii, Bytes.lower]
    | cons c more =>
      have digit : Bytes.isDigit c = true := all c (by simp)
      simpa using lower_ne_of_isDigit digit
  rw [List.cons_append] at span ⊢
  refine next?_of_closed (closed_of_isDigit (all b List.mem_cons_self)) ?_
  simp only [matchLength, unmarked, span, decide_false, Bool.and_false, Bool.false_and]
  simp

theorem next?_directive {letters rest : Bytes} (filled : letters ≠ [])
    (all : ∀ c ∈ letters, Bytes.isLetter c = true) (parted : Parted rest) :
    next? (Bytes.ascii '.' :: letters ++ rest) = some (.directive, (Bytes.ascii '.' :: letters).length) := by
  have span : spanLength Bytes.isLetter (letters ++ rest) = letters.length :=
    spanLength_append all parted (by decide) (by decide)
  have some' : 0 < letters.length := List.length_pos_iff.mpr filled
  refine next?_of_closed (by decide) ?_
  simp [matchLength, span, some', Nat.add_comm 1]

/-- Nothing that follows a closing quote has a part in what it closes. -/
theorem quotedLength_append {quote : UInt8} (other : quote ≠ 92) {t : Bytes} {n : Nat}
    (closed : quotedLength quote t = some n) (rest : Bytes) : quotedLength quote (t ++ rest) = some n := by
  fun_induction quotedLength quote t generalizing n with
  | case1 => simp at closed
  | case2 => simp at closed
  | case3 c t inside ih =>
    obtain ⟨k, inner, rfl⟩ := Option.map_eq_some_iff.mp closed
    simp [quotedLength, inside, ih inner]
  | case4 t =>
    obtain rfl := Option.some.inj closed
    rw [List.cons_append, quotedLength.eq_3 _ _ _ fun _ _ escape => absurd escape other, if_pos rfl]
  | case5 => simp at closed
  | case6 b t _ unquoted inside ih =>
    obtain ⟨k, inner, rfl⟩ := Option.map_eq_some_iff.mp closed
    have plain : b ≠ 92 := by
      rintro rfl
      simp at inside
    rw [List.cons_append, quotedLength.eq_3 _ _ _ fun _ _ escape => absurd escape plain, if_neg unquoted,
      if_neg inside, ih inner]
    rfl

theorem next?_character {inner : Bytes} (opened : (inner ++ [39]).head? ≠ some 39)
    (closed : quotedLength 39 (inner ++ [39]) = some (inner.length + 1)) (rest : Bytes) :
    next? (39 :: (inner ++ [39]) ++ rest) = some (.character, (39 :: (inner ++ [39])).length) := by
  have quoted := quotedLength_append (by decide) closed rest
  have single : (inner ++ [39] ++ rest).head? ≠ some 39 := by
    cases inner with
    | nil => exact absurd rfl opened
    | cons b inner => exact opened
  refine next?_of_closed (by decide) ?_
  simp only [List.append_eq, matchLength, decide_eq_true single, quoted]
  simp

theorem next?_newline (rest : Bytes) : next? (Bytes.newline :: rest) = some (.newline, 1) :=
  next?_of_closed (by decide) (by simp [matchLength])

theorem next?_space {b : UInt8} (inked : isBlank b = false) (rest : Bytes) :
    next? (Bytes.space :: b :: rest) = some (.blank, 1) := by
  refine next?_of_closed (by decide) ?_
  simp [matchLength, spanLength, inked, show isBlank Bytes.space = true by decide]

end Token

theorem next?_plain {x : Lexeme} (plain : x.Plain) {rest : Bytes} (parted : Parted rest) :
    Token.next? (x.text ++ rest) = some (x.kind, x.text.length) := by
  cases plain with
  | name first others => exact Token.next?_name first others parted
  | number filled digits => exact Token.next?_number filled digits parted
  | directive filled letters => exact Token.next?_directive filled letters parted
  | character opened closed => exact Token.next?_character opened closed rest

theorem Lexeme.Plain.inked {x : Lexeme} (plain : x.Plain) :
    ∃ b rest, x.text = b :: rest ∧ Token.isBlank b = false := by
  cases plain with
  | @name b rest first others =>
    exact ⟨b, rest, rfl, Token.closed_of_isNameStart first .blank (by decide)⟩
  | @number text filled digits =>
    obtain ⟨b, rest, rfl⟩ := List.exists_cons_of_ne_nil filled
    exact ⟨b, rest, rfl, Token.closed_of_isDigit (digits b (by simp)) .blank (by decide)⟩
  | directive | character => exact ⟨_, _, rfl, by decide⟩

theorem Lexeme.Plain.getLast?_ne {x : Lexeme} (plain : x.Plain) : x.text.getLast? ≠ some Bytes.newline := by
  intro last
  have inside := List.mem_of_getLast? last
  cases plain with
  | @name b rest first others =>
    obtain rfl | mem := List.mem_cons.mp inside
    · exact absurd first (by decide)
    · exact absurd (others _ mem) (by decide)
  | number filled digits => exact absurd (digits _ inside) (by decide)
  | @directive rest filled letters =>
    obtain mark | mem := List.mem_cons.mp inside
    · exact absurd mark (by decide)
    · exact absurd (letters _ mem) (by decide)
  | @character inner opened closed =>
    rw [← List.cons_append, List.getLast?_concat] at last
    exact absurd last (by decide)

def tokensAt : Position → List Lexeme → List Token
  | _, [] => []
  | p, x :: more => ⟨x.kind, x.text, p⟩ :: tokensAt (p.advance x.text) more

theorem map_lexeme_tokensAt (p : Position) (lexemes : List Lexeme) :
    (tokensAt p lexemes).map Token.lexeme = lexemes := by
  induction lexemes generalizing p with
  | nil => rfl
  | cons x more ih => rw [tokensAt, List.map_cons, ih, Token.lexeme]

inductive Scans : Bytes → List Lexeme → Prop
  | nil : Scans [] []
  | cons {x : Lexeme} {rest : Bytes} {more : List Lexeme} (filled : x.text ≠ [])
      (next : Token.next? (x.text ++ rest) = some (x.kind, x.text.length)) (scans : Scans rest more) :
      Scans (x.text ++ rest) (x :: more)

theorem scanFrom_of_scans {t : Bytes} {lexemes : List Lexeme} (scans : Scans t lexemes) {fuel : Nat}
    (enough : t.length ≤ fuel) (p : Position) (tokens : List Token) :
    Token.scanFrom fuel p tokens t = .ok (tokens.reverse ++ tokensAt p lexemes) := by
  induction scans generalizing fuel p tokens with
  | nil => cases fuel <;> simp [Token.scanFrom, tokensAt]
  | @cons x rest more filled next scans ih =>
    have some' : 0 < x.text.length := List.length_pos_iff.mpr filled
    rw [List.length_append] at enough
    obtain ⟨fuel, rfl⟩ : ∃ n, fuel = n + 1 := ⟨fuel - 1, by omega⟩
    have step : Token.scanFrom (fuel + 1) p tokens (x.text ++ rest) =
        Token.scanFrom fuel (p.advance x.text) (⟨x.kind, x.text, p⟩ :: tokens) rest := by
      have some'' : x.text ++ rest ≠ [] := by simp [filled]
      rw [Token.scanFrom.eq_3 _ _ _ _ some'', next]
      simp
    rw [step, ih (by omega), tokensAt]
    simp

theorem scan_of_scans {source : Bytes} {lexemes : List Lexeme} (scans : Scans source lexemes) :
    Token.scan source = .ok (tokensAt {} lexemes) := by
  rw [Token.scan, scanFrom_of_scans scans (Nat.le_refl _)]
  rfl

structure Written where
  head : Lexeme
  operands : List Lexeme
  deriving DecidableEq, Repr

namespace Written

def text (w : Written) : Bytes := w.head.text ++ w.operands.flatMap fun x => Bytes.space :: x.text

def lexemes (w : Written) : List Lexeme := w.head :: w.operands.flatMap fun x => [.space, x]

structure Sound (w : Written) : Prop where
  head : w.head.Plain
  names : w.head.kind = .directive ∨ w.head.kind = .name
  operands : ∀ x ∈ w.operands, x.Plain ∧ x.isOperand = true

structure Reads (w : Written) (l : Line) : Prop where
  unlabelled : l.labels = []
  stated : ∃ s, l.statement = some s ∧ s.head.lexeme = w.head ∧ s.operands.map Token.lexeme = w.operands

end Written

def sourceOf (written : List Written) : Bytes := written.flatMap fun w => w.text ++ [Bytes.newline]

def lexemesOf (written : List Written) : List Lexeme := written.flatMap fun w => w.lexemes ++ [.newline]

/-- Statements have a head, operands and a newline each. -/
def tokenCount : List Written → Nat
  | [] => 0
  | w :: written => w.operands.length + 2 + tokenCount written

theorem scans_operands {operands : List Lexeme} (plain : ∀ x ∈ operands, x.Plain) {rest : Bytes}
    {more : List Lexeme} (parted : Parted rest) (scans : Scans rest more) :
    Parted ((operands.flatMap fun x => Bytes.space :: x.text) ++ rest) ∧
      Scans ((operands.flatMap fun x => Bytes.space :: x.text) ++ rest)
        ((operands.flatMap fun x => [.space, x]) ++ more) := by
  induction operands with
  | nil => exact ⟨parted, scans⟩
  | cons x operands ih =>
    obtain ⟨parted', scans'⟩ := ih fun y mem => plain y (List.mem_cons_of_mem _ mem)
    obtain ⟨b, text, same, inked⟩ := (plain x List.mem_cons_self).inked
    have filled : x.text ≠ [] := by simp [same]
    have word := Scans.cons filled (next?_plain (plain x List.mem_cons_self) parted') scans'
    have gap : Token.next? (Lexeme.space.text ++
        (x.text ++ ((operands.flatMap fun x => Bytes.space :: x.text) ++ rest))) = some (.blank, 1) := by
      rw [same]
      exact Token.next?_space inked _
    have spaced := Scans.cons (x := .space) (by simp [Lexeme.space]) gap word
    simp only [List.flatMap_cons, List.append_assoc, List.cons_append, List.nil_append] at spaced ⊢
    exact ⟨⟨_, _, rfl, .inl rfl⟩, spaced⟩

theorem scans_sourceOf {written : List Written} (sound : ∀ w ∈ written, w.Sound) :
    Scans (sourceOf written) (lexemesOf written) := by
  induction written with
  | nil => exact .nil
  | cons w written ih =>
    have rest := ih fun v mem => sound v (List.mem_cons_of_mem _ mem)
    have sound' := sound w List.mem_cons_self
    have ended : Scans (Bytes.newline :: sourceOf written) (.newline :: lexemesOf written) :=
      Scans.cons (x := .newline) (by simp [Lexeme.newline]) (Token.next?_newline _) rest
    obtain ⟨parted, operands⟩ := scans_operands (fun x mem => (sound'.operands x mem).1)
      ⟨_, _, rfl, .inr rfl⟩ ended
    obtain ⟨b, text, same, -⟩ := sound'.head.inked
    have line := Scans.cons (by simp [same]) (next?_plain sound'.head parted) operands
    simpa [sourceOf, lexemesOf, Written.text, Written.lexemes] using line

theorem splitLines_line {line rest : List Token} {t : Token} (inside : ∀ u ∈ line, u.kind ≠ .newline)
    (ends : t.kind = .newline) : splitLines (line ++ t :: rest) = line :: splitLines rest := by
  have collected : ∀ start : List Token,
      splitLines.go start (line ++ t :: rest) = (start.reverse ++ line) :: splitLines.go [] rest := by
    induction line with
    | nil => simp [splitLines.go, ends]
    | cons u line ih =>
      intro start
      rw [List.cons_append, splitLines.go, if_neg (inside u List.mem_cons_self),
        ih fun v mem => inside v (List.mem_cons_of_mem _ mem)]
      simp
  exact collected []

theorem moreOperands_operands {tokens : List Token} (operands : ∀ t ∈ tokens, t.isOperand = true) :
    Line.moreOperands tokens = .ok tokens := by
  induction tokens with
  | nil => rfl
  | cons t tokens ih =>
    rw [Line.moreOperands.eq_def]
    simp only [operands t List.mem_cons_self, if_true,
      ih fun u mem => operands u (List.mem_cons_of_mem _ mem)]
    rfl

theorem ofTokens_statement {head : Token} {operands : List Token}
    (named : head.kind = .directive ∨ head.kind = .name) (all : ∀ t ∈ operands, t.isOperand = true) :
    Line.ofTokens (head :: operands) = .ok ⟨head.position, [], some ⟨head, operands⟩⟩ := by
  have read : Line.readOperands operands = .ok operands := by
    cases operands with
    | nil => rfl
    | cons t operands =>
      rw [Line.readOperands, if_pos (all t List.mem_cons_self),
        moreOperands_operands fun u mem => all u (List.mem_cons_of_mem _ mem)]
      rfl
  have unlabelled : head.kind ≠ .label := by
    obtain kind | kind := named <;> simp [kind]
  simp [Line.ofTokens, Line.readStatement, unlabelled, named, read, Except.map]

theorem words_of_lexemes {w : Written} (sound : w.Sound) {tokens : List Token}
    (same : tokens.map Token.lexeme = w.lexemes) :
    (tokens.filter fun t => !t.isLayout).map Token.lexeme = w.head :: w.operands := by
  have operands : ∀ list : List Lexeme, (∀ x ∈ list, x.isOperand = true) →
      (list.flatMap fun x => [.space, x]).filter (fun x => !x.isLayout) = list := by
    intro list kinds
    induction list with
    | nil => rfl
    | cons x list ih =>
      have kept := Lexeme.isLayout_of_isOperand (kinds x List.mem_cons_self)
      have gone : Lexeme.space.isLayout = true := rfl
      have rest := ih fun y mem => kinds y (List.mem_cons_of_mem _ mem)
      rw [List.flatMap_cons, List.filter_append, rest]
      simp [gone, kept]
  have head : w.head.isLayout = false := by
    obtain kind | kind := sound.names <;> simp [Lexeme.isLayout, kind]
  have filtered := congrArg (List.filter fun x => !x.isLayout) same
  rw [List.filter_map, Written.lexemes, List.filter_cons, head,
    operands w.operands fun x mem => (sound.operands x mem).2] at filtered
  exact filtered

theorem lines_of_tokens {written : List Written} (sound : ∀ w ∈ written, w.Sound) {tokens : List Token}
    (same : tokens.map Token.lexeme = lexemesOf written) :
    (tokens.filter fun t => !t.isLayout).length = tokenCount written ∧
      ∃ lines, readLines (tokens.filter fun t => !t.isLayout) = .ok lines ∧
        List.Forall₂ Written.Reads written lines := by
  induction written generalizing tokens with
  | nil =>
    obtain rfl : tokens = [] := by simpa [lexemesOf] using same
    exact ⟨rfl, [], rfl, .nil⟩
  | cons w written ih =>
    have sound' := sound w List.mem_cons_self
    rw [lexemesOf, List.flatMap_cons, List.append_assoc] at same
    obtain ⟨front, back, rfl, first, later⟩ := List.map_eq_append_iff.mp same
    obtain ⟨ending, rest, rfl, closes, others⟩ := List.map_eq_cons_iff.mp later
    obtain ⟨length, lines, parsed, reads⟩ := ih (fun v mem => sound v (List.mem_cons_of_mem _ mem)) others
    have ends : ending.kind = .newline := congrArg Lexeme.kind closes
    have words := words_of_lexemes sound' first
    obtain ⟨head, operands, split, headed, listed⟩ := List.map_eq_cons_iff.mp words
    have named : head.kind = .directive ∨ head.kind = .name := by
      rw [show head.kind = w.head.kind from congrArg Lexeme.kind headed]
      exact sound'.names
    have all : ∀ t ∈ operands, t.isOperand = true := by
      intro t mem
      refine (sound'.operands t.lexeme ?_).2
      rw [← listed]
      exact List.mem_map_of_mem mem
    have inside : ∀ t ∈ head :: operands, t.kind ≠ .newline := by
      intro t mem
      obtain rfl | mem := List.mem_cons.mp mem
      · obtain kind | kind := named <;> simp [kind]
      · intro kind
        have operand := all t mem
        simp [Token.isOperand, kind] at operand
    have kept : ending.isLayout = false := by simp [Token.isLayout, ends]
    have number : operands.length = w.operands.length := by rw [← listed, List.length_map]
    rw [List.filter_append, split, List.filter_cons, kept, Bool.not_false, if_pos rfl]
    constructor
    · rw [List.length_append, List.length_cons, List.length_cons, length, number, tokenCount]
      omega
    · refine ⟨⟨head.position, [], some ⟨head, operands⟩⟩ :: lines, ?_,
        .cons ⟨rfl, ⟨head, operands⟩, rfl, headed, listed⟩ reads⟩
      rw [readLines] at parsed
      rw [readLines, splitLines_line inside ends, List.mapM_cons, ofTokens_statement named all, parsed]
      rfl

theorem closeLast_sourceOf {written : List Written} (filled : written ≠ []) :
    closeLast (sourceOf written) = sourceOf written := by
  obtain ⟨front, w, rfl⟩ := (List.eq_nil_or_concat written).resolve_left filled
  rw [closeLast, if_pos]
  simp [sourceOf]

theorem closeLast_getLast? (source : Bytes) : (closeLast source).getLast? = some Bytes.newline := by
  unfold closeLast
  split
  · assumption
  · simp

theorem parse_closeLast (source : Bytes) : parse (closeLast source) = parse source := by
  have again : closeLast (closeLast source) = closeLast source := by
    rw [closeLast, if_pos (closeLast_getLast? source)]
  rw [parse, again]
  rfl

theorem Written.Sound.closeLast_text {w : Written} (sound : w.Sound) : closeLast w.text = sourceOf [w] := by
  have unclosed : w.text.getLast? ≠ some Bytes.newline := by
    rw [Written.text]
    obtain none' | ⟨front, x, split⟩ := List.eq_nil_or_concat w.operands
    · rw [none', List.flatMap_nil, List.append_nil]
      exact sound.head.getLast?_ne
    · have plain := (sound.operands x (by simp [split])).1
      obtain ⟨b, rest, same, -⟩ := plain.inked
      have last := plain.getLast?_ne
      rw [same] at last
      rw [split, List.concat_eq_append, List.flatMap_append, List.flatMap_singleton, same,
        ← List.append_assoc, List.getLast?_append, List.getLast?_cons_cons]
      simpa using last
  rw [closeLast, if_neg unclosed]
  simp [sourceOf]

/-- Statements that are written plainly are read as they were written. -/
theorem parse_sourceOf {written : List Written} (filled : written ≠ []) (sound : ∀ w ∈ written, w.Sound)
    (few : tokenCount written < repetitionLimit) :
    ∃ lines, parse (sourceOf written) = .ok lines ∧ List.Forall₂ Written.Reads written lines := by
  obtain ⟨length, lines, parsed, reads⟩ := lines_of_tokens sound (map_lexeme_tokensAt {} (lexemesOf written))
  refine ⟨lines, ?_, reads⟩
  rw [parse, closeLast_sourceOf filled, scan_of_scans (scans_sourceOf sound)]
  exact (parseTokens_of_few (length ▸ few)).trans parsed

end WordMachine.Assembly
