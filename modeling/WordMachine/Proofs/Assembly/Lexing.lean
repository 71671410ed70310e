import WordMachine.Proofs.Assembly.Scanning
import WordMachine.Proofs.Text.Characters
import Mathlib.Data.List.TakeWhile

/-! The rules of tokens as regular expressions. A scanner that counts bytes takes at every place
what the first rule that matches there takes, so the tokens of a source are those of the rules. -/

namespace WordMachine.Assembly

open Text

theorem drop_spanLength (test : UInt8 → Bool) (t : Bytes) :
    t.drop (Token.spanLength test t) = t.dropWhile test := by
  induction t with
  | nil => rfl
  | cons b rest ih =>
    rw [Token.spanLength, List.takeWhile_cons, List.dropWhile_cons]
    split
    · exact ih
    · rfl

theorem spanLength_le (test : UInt8 → Bool) (t : Bytes) : Token.spanLength test t ≤ t.length :=
  (List.takeWhile_sublist test).length_le

/-- Regular expressions over bytes. A character beyond ASCII is a run of bytes, none of which is
told apart from the others by a rule. -/
inductive Pattern where
  | byte (test : UInt8 → Bool)
  | seq (first second : Pattern)
  | alt (first second : Pattern)
  | star (body : Pattern)

namespace Pattern

/-- What is left after a step has been repeated, longer runs first. It is repeated only while it
takes something. -/
def repeated (step : Bytes → List Bytes) : (fuel : Nat) → Bytes → List Bytes
  | 0, t => [t]
  | fuel + 1, t => ((step t).filter (·.length < t.length)).flatMap (repeated step fuel) ++ [t]

/-- What a match at the head of a text can leave of it, preferred matches first: an alternative
before those after it, and one repetition more before one less. -/
def rests : Pattern → Bytes → List Bytes
  | byte _, [] => []
  | byte test, b :: rest => if test b then [rest] else []
  | seq first second, t => (first.rests t).flatMap second.rests
  | alt first second, t => first.rests t ++ second.rests t
  | star body, t => repeated body.rests t.length t

def allows : Pattern → UInt8 → Bool
  | byte test, b => test b
  | seq first second, b | alt first second, b => first.allows b || second.allows b
  | star body, b => body.allows b

theorem repeated_enough (step : Bytes → List Bytes) {fuel : Nat} {t : Bytes} (enough : t.length ≤ fuel) :
    repeated step fuel t = repeated step t.length t := by
  induction fuel using Nat.strongRecOn generalizing t with
  | _ fuel ih =>
    cases t with
    | nil => cases fuel <;> simp [repeated]
    | cons b rest =>
      obtain ⟨fuel, rfl⟩ : ∃ n, fuel = n + 1 := ⟨fuel - 1, by simp at enough; omega⟩
      rw [List.length_cons, repeated, repeated]
      congr 1
      apply List.flatMap_congr
      intro t mem
      have shorter : t.length < rest.length + 1 := by simpa using (List.mem_filter.mp mem).2
      have within : rest.length ≤ fuel := by simpa using enough
      rw [ih fuel (by omega) (by omega), ih rest.length (by omega) (by omega)]

theorem rests_star (body : Pattern) (t : Bytes) :
    (star body).rests t =
      ((body.rests t).filter (·.length < t.length)).flatMap (star body).rests ++ [t] := by
  cases t with
  | nil => simp [rests, repeated]
  | cons b rest =>
    rw [rests, List.length_cons, repeated]
    congr 1
    apply List.flatMap_congr
    intro t mem
    have shorter : t.length < rest.length + 1 := by simpa using (List.mem_filter.mp mem).2
    rw [repeated_enough _ (Nat.le_of_lt_succ shorter), rests]

theorem rests_star_seq (body after : Pattern) (t : Bytes) :
    (seq (star body) after).rests t =
      ((body.rests t).filter (·.length < t.length)).flatMap (seq (star body) after).rests ++
        after.rests t := by
  rw [rests, rests_star, List.flatMap_append, List.flatMap_assoc, List.flatMap_singleton]
  rfl

theorem rests_taken {p : Pattern} {t rest : Bytes} (left : rest ∈ p.rests t) :
    ∃ taken, t = taken ++ rest ∧ ∀ b ∈ taken, p.allows b = true := by
  induction p generalizing t rest with
  | byte test =>
    cases t with
    | nil => simp [rests] at left
    | cons b t =>
      rw [rests] at left
      split at left
      · next passes =>
        obtain rfl := List.mem_singleton.mp left
        exact ⟨[b], rfl, by simpa [allows] using passes⟩
      · simp at left
  | seq first second one two =>
    obtain ⟨middle, start, finish⟩ := List.mem_flatMap.mp left
    obtain ⟨a, rfl, before⟩ := one start
    obtain ⟨c, rfl, after⟩ := two finish
    refine ⟨a ++ c, by simp, fun b mem => ?_⟩
    rw [allows, Bool.or_eq_true]
    exact (List.mem_append.mp mem).imp (before b) (after b)
  | alt first second one two =>
    obtain start | finish := List.mem_append.mp left
    · obtain ⟨a, same, inside⟩ := one start
      exact ⟨a, same, fun b mem => by rw [allows, inside b mem, Bool.true_or]⟩
    · obtain ⟨a, same, inside⟩ := two finish
      exact ⟨a, same, fun b mem => by rw [allows, inside b mem, Bool.or_true]⟩
  | star body ih =>
    induction n : t.length using Nat.strongRecOn generalizing t with
    | _ n shorter =>
      rw [rests_star, List.mem_append] at left
      obtain left | left := left
      · obtain ⟨middle, start, finish⟩ := List.mem_flatMap.mp left
        obtain ⟨listed, less⟩ := List.mem_filter.mp start
        obtain ⟨a, rfl, before⟩ := ih listed
        obtain ⟨c, rfl, after⟩ := shorter _ (by simpa [n] using less) finish rfl
        refine ⟨a ++ c, by simp, fun b mem => ?_⟩
        exact (List.mem_append.mp mem).elim (before b) (after b)
      · obtain rfl := List.mem_singleton.mp left
        exact ⟨[], rfl, by simp⟩

def plus (body : Pattern) : Pattern := seq body (star body)

def char (b : UInt8) : Pattern := byte (· = b)

section

variable {test : UInt8 → Bool} {p : Pattern} {b : UInt8} {t : Bytes}

@[simp] theorem rests_byte_cons : (byte test).rests (b :: t) = if test b then [t] else [] := rfl

@[simp] theorem rests_char_cons {c : UInt8} :
    (char c).rests (b :: t) = if b = c then [t] else [] := by
  simp [char]

theorem head?_rests_char (c : UInt8) (t : Bytes) :
    ((char c).rests t).head? = if t.head? = some c then some t.tail else none := by
  cases t with
  | nil => rfl
  | cons b t => by_cases same : b = c <;> simp [same]

@[simp] theorem rests_byte_seq :
    (seq (byte test) p).rests (b :: t) = if test b then p.rests t else [] := by
  rw [rests, rests_byte_cons]
  split <;> simp

@[simp] theorem rests_char_seq {c : UInt8} :
    (seq (char c) p).rests (b :: t) = if b = c then p.rests t else [] := by
  simp [char]

@[simp] theorem rests_plus_byte :
    (plus (byte test)).rests (b :: t) = if test b then (star (byte test)).rests t else [] := by
  simp [plus]

theorem rests_star_byte_nil : (star (byte test)).rests [] = [[]] := by
  simp [rests, repeated]

theorem rests_star_byte_cons :
    (star (byte test)).rests (b :: t) =
      if test b then (star (byte test)).rests t ++ [b :: t] else [b :: t] := by
  rw [rests_star, rests_byte_cons]
  split <;> simp

theorem head?_rests_star_byte (test : UInt8 → Bool) (t : Bytes) :
    ((star (byte test)).rests t).head? = some (t.dropWhile test) := by
  induction t with
  | nil => simp [rests_star_byte_nil]
  | cons b t ih =>
    rw [rests_star_byte_cons, List.dropWhile_cons]
    split
    · rw [List.head?_append, ih]
      rfl
    · rfl

theorem head?_rests_plus_byte (test : UInt8 → Bool) (t : Bytes) :
    ((plus (byte test)).rests t).head? =
      if 0 < Token.spanLength test t then some (t.drop (Token.spanLength test t)) else none := by
  cases t with
  | nil => simp [plus, rests, Token.spanLength]
  | cons b t =>
    rw [rests_plus_byte, Token.spanLength, List.takeWhile_cons]
    split
    · rw [head?_rests_star_byte, ← drop_spanLength]
      simp [Token.spanLength]
    · simp

theorem rests_star_byte_seq (refuses : ∀ b t, test b = true → p.rests (b :: t) = []) :
    (seq (star (byte test)) p).rests t = p.rests (t.dropWhile test) := by
  induction t with
  | nil => simp [rests, repeated]
  | cons b t ih =>
    rw [rests] at ih ⊢
    rw [rests_star_byte_cons, List.dropWhile_cons]
    split
    · next inside => rw [List.flatMap_append, ih, List.flatMap_singleton, refuses b t inside, List.append_nil]
    · rw [List.flatMap_singleton]

end

def quotable (quote : UInt8) : Pattern :=
  alt (seq (char 92) (byte (· ≠ Bytes.newline)))
    (byte fun b => b ≠ quote && b ≠ 92 && b ≠ Bytes.newline)

end Pattern

open Pattern in
/-- What each kind of token is made of. -/
def TokenKind.pattern : TokenKind → Pattern
  | comment => seq (char (Bytes.ascii ';')) (star (byte (· ≠ Bytes.newline)))
  | blank => plus (byte Token.isBlank)
  | newline => char Bytes.newline
  | string => seq (char 34) (seq (star (quotable 34)) (char 34))
  | character => seq (char 39) (seq (plus (quotable 39)) (char 39))
  | directive => seq (char (Bytes.ascii '.')) (plus (byte Bytes.isLetter))
  | number =>
    alt (seq (char (Bytes.ascii '0'))
        (seq (byte fun b => b = Bytes.ascii 'x' || b = Bytes.ascii 'X') (plus (byte Bytes.isHexDigit))))
      (plus (byte Bytes.isDigit))
  | label => seq (byte Token.isNameStart) (seq (star (byte Token.isNameByte)) (char (Bytes.ascii ':')))
  | name => seq (byte Token.isNameStart) (star (byte Token.isNameByte))
  | comma => char (Bytes.ascii ',')

theorem quotedLength_le {quote : UInt8} {t : Bytes} {n : Nat} (closed : Token.quotedLength quote t = some n) :
    n ≤ t.length := by
  fun_induction Token.quotedLength quote t generalizing n with
  | case1 => simp at closed
  | case2 => simp at closed
  | case3 c rest other ih =>
    obtain ⟨m, inner, rfl⟩ := Option.map_eq_some_iff.mp closed
    simpa using ih inner
  | case4 b rest => simp_all
  | case5 => simp at closed
  | case6 b rest more ends refused ih =>
    obtain ⟨m, inner, rfl⟩ := Option.map_eq_some_iff.mp closed
    simpa using ih inner

open Pattern

section

variable {quote b : UInt8} {t : Bytes}

theorem rests_quotable_nil : (quotable quote).rests [] = [] := by
  simp [quotable, rests, char]

theorem rests_quotable_lone : (quotable quote).rests [92] = [] := by
  simp [quotable, rests]

theorem rests_quotable_escape :
    (quotable quote).rests (92 :: b :: t) = if b = Bytes.newline then [] else [t] := by
  by_cases line : b = Bytes.newline <;> simp [quotable, rests, line]

theorem rests_quotable_plain (plain : b ≠ 92) :
    (quotable quote).rests (b :: t) = if b = quote ∨ b = Bytes.newline then [] else [t] := by
  rw [quotable, rests, rests_char_seq, if_neg plain, List.nil_append, rests_byte_cons]
  by_cases ends : b = quote <;> by_cases line : b = Bytes.newline <;> simp [plain, ends, line]

theorem rests_quotable_shorter :
    ((quotable quote).rests t).filter (·.length < t.length) = (quotable quote).rests t := by
  rcases t with _ | ⟨b, t⟩
  · rfl
  · by_cases mark : b = 92
    · subst mark
      cases t with
      | nil => simp [rests_quotable_lone]
      | cons c t =>
        rw [rests_quotable_escape]
        split
        · rfl
        · have shorter : t.length < (92 :: c :: t).length := by
            rw [List.length_cons, List.length_cons]
            omega
          exact List.filter_eq_self.mpr (List.forall_mem_singleton.mpr (decide_eq_true shorter))
    · rw [rests_quotable_plain mark]
      split <;> simp

theorem rests_quoted (plain : quote ≠ 92) (t : Bytes) :
    (seq (star (quotable quote)) (char quote)).rests t =
      ((Token.quotedLength quote t).map t.drop).toList := by
  fun_induction Token.quotedLength quote t with
  | case1 =>
    rw [rests_star_seq, rests_quotable_nil]
    rfl
  | case2 rest =>
    rw [rests_star_seq, rests_quotable_shorter, rests_quotable_escape]
    simp [Ne.symm plain]
  | case3 c rest other ih =>
    rw [rests_star_seq, rests_quotable_shorter, rests_quotable_escape]
    simp [other, Ne.symm plain, ih, Function.comp_def]
  | case4 rest =>
    rw [rests_star_seq, rests_quotable_plain plain]
    simp
  | case5 b rest alone unequal refused =>
    rw [rests_star_seq, rests_quotable_shorter, rests_char_cons, if_neg unequal]
    by_cases mark : b = 92
    · subst mark
      cases rest with
      | nil => simp [rests_quotable_lone]
      | cons c rest => exact (alone c rest rfl rfl).elim
    · have line : b = Bytes.newline := by simpa [mark] using refused
      rw [rests_quotable_plain mark, if_pos (.inr line)]
      rfl
  | case6 b rest alone unequal allowed ih =>
    obtain ⟨mark, line⟩ : b ≠ 92 ∧ b ≠ Bytes.newline := by simpa using allowed
    rw [rests_star_seq, rests_quotable_shorter, rests_quotable_plain mark]
    simp [unequal, line, ih, Function.comp_def]

theorem rests_quoted_plus (plain : quote ≠ 92) (t : Bytes) :
    (seq (plus (quotable quote)) (char quote)).rests t =
      if t.head? = some quote then [] else ((Token.quotedLength quote t).map t.drop).toList := by
  have whole : (seq (plus (quotable quote)) (char quote)).rests t =
      ((quotable quote).rests t).flatMap (seq (star (quotable quote)) (char quote)).rests := by
    rw [rests, plus, rests, List.flatMap_assoc]
    rfl
  rw [whole, ← rests_quoted plain]
  cases t with
  | nil =>
    rw [rests_star_seq, rests_quotable_nil]
    rfl
  | cons b t =>
    by_cases ends : b = quote
    · subst ends
      simp [rests_quotable_plain plain]
    · rw [rests_star_seq _ _ (b :: t), rests_quotable_shorter, rests_char_cons, if_neg ends]
      simp [ends]

end

theorem lower_eq_iff (b : UInt8) :
    (b = Bytes.ascii 'x' || b = Bytes.ascii 'X') = decide (Bytes.lower b = Bytes.ascii 'x') := by
  have all : ∀ n : Fin 256, (UInt8.ofFin n = Bytes.ascii 'x' || UInt8.ofFin n = Bytes.ascii 'X') =
      decide (Bytes.lower (.ofFin n) = Bytes.ascii 'x') := by decide +kernel
  exact all b.toFin

theorem head?_rests_hexadecimal (b : UInt8) (rest : Bytes) :
    ((seq (char (Bytes.ascii '0')) (seq (byte fun b => b = Bytes.ascii 'x' || b = Bytes.ascii 'X')
        (plus (byte Bytes.isHexDigit)))).rests (b :: rest)).head? =
      if b = Bytes.ascii '0' ∧ rest.head?.map Bytes.lower = some (Bytes.ascii 'x') ∧
          0 < Token.spanLength Bytes.isHexDigit (rest.drop 1) then
        some ((rest.drop 1).drop (Token.spanLength Bytes.isHexDigit (rest.drop 1)))
      else none := by
  rw [rests_char_seq]
  by_cases zero : b = Bytes.ascii '0'
  · cases rest with
    | nil => simp [rests]
    | cons m more =>
      rw [if_pos zero, rests_byte_seq, lower_eq_iff]
      by_cases mark : Bytes.lower m = Bytes.ascii 'x'
      · simp [mark, zero, head?_rests_plus_byte]
      · simp [mark]
  · simp [zero]

section

variable {kind : TokenKind} (b : UInt8) (rest : Bytes)

theorem head?_rests_run (run : kind = .comment ∨ kind = .blank ∨ kind = .name) :
    (kind.pattern.rests (b :: rest)).head? = (Token.matchLength kind (b :: rest)).map (b :: rest).drop := by
  have longest : ∀ test : UInt8 → Bool, ((star (byte test)).rests rest).head? =
      some ((b :: rest).drop (1 + Token.spanLength test rest)) := by
    intro test
    rw [head?_rests_star_byte, Nat.add_comm, List.drop_succ_cons, drop_spanLength]
  obtain rfl | rfl | rfl := run
  all_goals
    simp only [TokenKind.pattern, Token.matchLength, rests_char_seq, rests_byte_seq, rests_plus_byte]
    split
    · exact longest _
    · rfl

theorem head?_rests_quotes (quotes : kind = .string ∨ kind = .character) :
    (kind.pattern.rests (b :: rest)).head? = (Token.matchLength kind (b :: rest)).map (b :: rest).drop := by
  obtain rfl | rfl := quotes
  · simp only [TokenKind.pattern, Token.matchLength, rests_char_seq]
    split
    · rw [rests_quoted (by decide)]
      simp [Function.comp_def]
    · rfl
  · have plain : (39 : UInt8) ≠ 92 := by decide
    simp only [TokenKind.pattern, Token.matchLength, rests_char_seq, rests_quoted_plus plain]
    by_cases first : b = 39 <;> by_cases empty : rest.head? = some 39 <;>
      simp [first, empty, Function.comp_def]

theorem head?_rests_directive :
    (TokenKind.directive.pattern.rests (b :: rest)).head? =
      (Token.matchLength .directive (b :: rest)).map (b :: rest).drop := by
  simp only [TokenKind.pattern, Token.matchLength, rests_char_seq]
  by_cases first : b = Bytes.ascii '.'
  · simp only [first, if_true, head?_rests_plus_byte, decide_true, Bool.true_and, decide_eq_true_eq]
    split
    · simp [Nat.add_comm 1]
    · rfl
  · simp [first]

theorem head?_rests_number :
    (TokenKind.number.pattern.rests (b :: rest)).head? =
      (Token.matchLength .number (b :: rest)).map (b :: rest).drop := by
  rw [TokenKind.pattern, rests, List.head?_append, head?_rests_hexadecimal, head?_rests_plus_byte,
    Token.matchLength]
  simp only [Bool.and_eq_true, decide_eq_true_eq, and_assoc]
  split
  · simp [Nat.add_comm 2]
  · split <;> simp

theorem head?_rests_label :
    (TokenKind.label.pattern.rests (b :: rest)).head? =
      (Token.matchLength .label (b :: rest)).map (b :: rest).drop := by
  simp only [TokenKind.pattern, Token.matchLength, rests_byte_seq]
  by_cases first : Token.isNameStart b = true
  · have colon : ∀ c more, Token.isNameByte c = true → (char (Bytes.ascii ':')).rests (c :: more) = [] := by
      intro c more inside
      have other : c ≠ Bytes.ascii ':' := by
        rintro rfl
        exact absurd inside (by decide)
      simp [other]
    rw [if_pos first, rests_star_byte_seq colon, ← drop_spanLength, head?_rests_char]
    simp only [first, Bool.true_and, decide_eq_true_eq, Nat.add_comm 1, List.drop_succ_cons]
    split
    · simp
    · rfl
  · simp [first]

end

/-- The scanner measures what a rule takes of a text. -/
theorem head?_rests (kind : TokenKind) (t : Bytes) :
    (kind.pattern.rests t).head? = (Token.matchLength kind t).map t.drop := by
  cases t with
  | nil => cases kind <;> simp [TokenKind.pattern, rests, Token.matchLength, plus, char]
  | cons b rest =>
    cases kind with
    | comment | blank | name => exact head?_rests_run b rest (by simp)
    | string | character => exact head?_rests_quotes b rest (by simp)
    | directive => exact head?_rests_directive b rest
    | number => exact head?_rests_number b rest
    | label => exact head?_rests_label b rest
    | newline | comma =>
      simp only [TokenKind.pattern, Token.matchLength, rests_char_cons]
      split <;> rfl

example : (TokenKind.number.pattern.rests (Bytes.ofString "0xZZ")).head? = some (Bytes.ofString "xZZ") := by
  decide

theorem matchLength_eq_none_iff {kind : TokenKind} {t : Bytes} :
    Token.matchLength kind t = none ↔ kind.pattern.rests t = [] := by
  rw [← List.head?_eq_none_iff, head?_rests, Option.map_eq_none_iff]

theorem matchLength_bounds {kind : TokenKind} {t : Bytes} {n : Nat}
    (taken : Token.matchLength kind t = some n) : 0 < n ∧ n ≤ t.length := by
  cases t with
  | nil => simp [Token.matchLength] at taken
  | cons b rest =>
    have run := fun test => spanLength_le test rest
    have digits := spanLength_le Bytes.isDigit (b :: rest)
    have hexadecimal := spanLength_le Bytes.isHexDigit (rest.drop 1)
    have quoted : ∀ quote, (Token.quotedLength quote rest).map (· + 1) = some n →
        0 < n ∧ n ≤ rest.length + 1 := by
      intro quote closed
      obtain ⟨m, inner, rfl⟩ := Option.map_eq_some_iff.mp closed
      exact ⟨Nat.succ_pos m, Nat.succ_le_succ (quotedLength_le inner)⟩
    cases kind <;> simp only [Token.matchLength] at taken <;> grind

def IsName (t : Bytes) : Prop :=
  ∃ b rest, t = b :: rest ∧ Token.isNameStart b = true ∧ ∀ c ∈ rest, Token.isNameByte c = true

/-- The lexeme at the head of a text, by the first of the rules that match there. -/
structure Lexeme.Heads (x : Lexeme) (rest : Bytes) : Prop where
  taken : (x.kind.pattern.rests (x.text ++ rest)).head? = some rest
  earlier : ∀ kind ∈ Token.before x.kind, kind.pattern.rests (x.text ++ rest) = []

theorem next?_eq_some_iff {t : Bytes} {kind : TokenKind} {n : Nat} :
    Token.next? t = some (kind, n) ↔
      Token.matchLength kind t = some n ∧ ∀ k ∈ Token.before kind, Token.matchLength k t = none := by
  constructor
  · intro next
    obtain ⟨front, k, back, order, found, passed⟩ := List.findSome?_eq_some_iff.mp next
    obtain ⟨m, taken, same⟩ := Option.map_eq_some_iff.mp found
    obtain ⟨rfl, rfl⟩ := Prod.mk.inj same
    refine ⟨taken, fun k' mem => ?_⟩
    have distinct : Token.rules.Nodup := by decide
    have front_eq : Token.before k = front := by
      have fresh : k ∉ front := by
        rw [order] at distinct
        exact fun mem => (List.nodup_append.mp distinct).2.2 k mem k List.mem_cons_self rfl
      rw [Token.before, order, List.takeWhile_append_of_pos (by grind)]
      simp
    rw [front_eq] at mem
    simpa using passed k' mem
  · rintro ⟨taken, refused⟩
    exact Token.next?_of_first refused taken

theorem heads_iff_next? {x : Lexeme} {rest : Bytes} :
    x.Heads rest ↔ Token.next? (x.text ++ rest) = some (x.kind, x.text.length) := by
  rw [next?_eq_some_iff]
  constructor
  · rintro ⟨taken, earlier⟩
    refine ⟨?_, fun kind mem => matchLength_eq_none_iff.mpr (earlier kind mem)⟩
    rw [head?_rests] at taken
    obtain ⟨n, measured, left⟩ := Option.map_eq_some_iff.mp taken
    have within := (matchLength_bounds measured).2
    have lengths := congrArg List.length left
    rw [List.length_drop, List.length_append] at lengths
    rw [List.length_append] at within
    rw [measured]
    congr 1
    omega
  · rintro ⟨measured, refused⟩
    refine ⟨?_, fun kind mem => matchLength_eq_none_iff.mp (refused kind mem)⟩
    rw [head?_rests, measured, Option.map_some, List.drop_left]

/-- A text that falls into lexemes up to a rest. -/
inductive Lexes : Bytes → List Lexeme → Bytes → Prop
  | done (t : Bytes) : Lexes t [] t
  | step {x : Lexeme} {t : Bytes} {more : List Lexeme} {rest : Bytes} (heads : x.Heads t)
      (lexes : Lexes t more rest) : Lexes (x.text ++ t) (x :: more) rest

structure Unlexed (t : Bytes) : Prop where
  filled : t ≠ []
  refused : ∀ kind : TokenKind, kind.pattern.rests t = []

theorem next?_eq_none_iff {t : Bytes} :
    Token.next? t = none ↔ ∀ kind : TokenKind, kind.pattern.rests t = [] := by
  rw [Token.next?, List.findSome?_eq_none_iff]
  constructor
  · intro passed kind
    exact matchLength_eq_none_iff.mp (by simpa using passed kind (Token.mem_rules kind))
  · intro refused kind _
    rw [matchLength_eq_none_iff.mpr (refused kind)]
    rfl

namespace Lexeme.Heads

variable {x : Lexeme} {rest : Bytes}

theorem opens (heads : x.Heads rest) : ∃ b more, x.text = b :: more ∧ Token.opens b x.kind = true := by
  have measured := (next?_eq_some_iff.mp (heads_iff_next?.mp heads)).1
  cases same : x.text with
  | nil =>
    rw [same] at measured
    exact absurd (matchLength_bounds measured).1 (Nat.lt_irrefl 0)
  | cons b more =>
    refine ⟨b, more, rfl, ?_⟩
    by_contra closed
    rw [same, List.cons_append, Token.matchLength_of_closed (by simpa using closed)] at measured
    exact absurd measured (by simp)

theorem severed (heads : x.Heads rest) : Utf8.Severed x.text := by
  obtain ⟨b, more, same, opens⟩ := heads.opens
  have all : ∀ n : Fin 256, ∀ kind ∈ Token.rules, Token.opens (.ofFin n) kind = true →
      UInt8.ofFin n < 0x80 := by decide +kernel
  intro c first
  rw [same, List.head?_cons, Option.mem_some] at first
  exact first ▸ all b.toFin x.kind (Token.mem_rules _) opens

/-- A newline stands in no lexeme but its own. -/
theorem newline (heads : x.Heads rest) : x = .newline ∨ x.kind ≠ .newline ∧ Bytes.newline ∉ x.text := by
  obtain ⟨kind, text⟩ := x
  have taken : rest ∈ kind.pattern.rests (text ++ rest) := List.mem_of_head? heads.taken
  by_cases line : kind = .newline
  · subst line
    have first := heads.taken
    rw [TokenKind.pattern, head?_rests_char] at first
    split at first
    · next here =>
      have whole : text ++ rest = [Bytes.newline] ++ rest := by
        rw [← List.cons_head?_tail here, Option.some.inj first]
        rfl
      exact .inl (congrArg (Lexeme.mk .newline) (List.append_cancel_right whole))
    · simp at first
  · right
    obtain ⟨front, same, allowed⟩ := rests_taken taken
    obtain rfl : text = front := List.append_cancel_right same
    refine ⟨line, fun inside => ?_⟩
    have refused : ∀ kind ∈ Token.rules, kind ≠ .newline → kind.pattern.allows Bytes.newline = false := by
      decide
    exact absurd (allowed _ inside) (by simp [refused kind (Token.mem_rules kind) line])

theorem filled (heads : x.Heads rest) : x.text ≠ [] := by
  obtain ⟨b, more, same, -⟩ := heads.opens
  simp [same]

theorem unbroken (heads : x.Heads rest) (inline : x.kind ≠ .newline) : Bytes.newline ∉ x.text := by
  obtain line | ⟨-, unbroken⟩ := heads.newline
  · exact absurd (congrArg Lexeme.kind line) inline
  · exact unbroken

theorem eq_newline (heads : x.Heads rest) (kind : x.kind = .newline) : x = .newline := by
  obtain line | ⟨other, -⟩ := heads.newline
  · exact line
  · exact absurd kind other

theorem label (heads : x.Heads rest) (kind : x.kind = .label) :
    ∃ name, IsName name ∧ x.text = name ++ [Bytes.ascii ':'] := by
  have measured := (next?_eq_some_iff.mp (heads_iff_next?.mp heads)).1
  obtain ⟨b, more, same, first⟩ := heads.opens
  rw [kind] at measured first
  rw [same, List.cons_append, Token.matchLength] at measured
  simp only [show Token.isNameStart b = true from first, Bool.true_and, decide_eq_true_eq] at measured
  split at measured
  · next colon =>
    have length : 1 + Token.spanLength Token.isNameByte (more ++ rest) = more.length := by
      simpa using Option.some.inj measured
    obtain ⟨front, last, rfl⟩ : ∃ front last, more = front ++ [last] := by
      obtain rfl | ⟨front, last, rfl⟩ := more.eq_nil_or_concat
      · simp at length
      · exact ⟨front, last, by simp⟩
    have span : Token.spanLength Token.isNameByte (front ++ ([last] ++ rest)) = front.length := by
      rw [List.append_assoc, List.length_append, List.length_singleton] at length
      omega
    rw [List.append_assoc, span, Nat.add_comm, List.drop_succ_cons, List.drop_left] at colon
    obtain rfl : last = Bytes.ascii ':' := by simpa using colon
    have whole := List.takeWhile_append_dropWhile (p := Token.isNameByte) (l := front ++ ([Bytes.ascii ':'] ++ rest))
    have run := (List.append_inj whole span).1
    refine ⟨b :: front, ⟨b, front, rfl, first, fun c mem => ?_⟩, same⟩
    rw [← run] at mem
    exact List.mem_takeWhile_imp mem
  · simp at measured

end Lexeme.Heads

def lastLine (t : Bytes) : Bytes := (t.reverse.takeWhile (· ≠ Bytes.newline)).reverse

def Position.after (t : Bytes) : Position :=
  ⟨1 + t.count Bytes.newline, 1 + Utf8.count (lastLine t), t.length⟩

theorem lastLine_append_newline (t : Bytes) : lastLine (t ++ [Bytes.newline]) = [] := by
  simp [lastLine]

theorem lastLine_append (t : Bytes) {word : Bytes} (unbroken : Bytes.newline ∉ word) :
    lastLine (t ++ word) = lastLine t ++ word := by
  have all : ∀ b ∈ word.reverse, decide (b ≠ Bytes.newline) = true := by
    intro b inside
    rw [List.mem_reverse] at inside
    rw [decide_eq_true_eq]
    rintro rfl
    exact unbroken inside
  rw [lastLine, List.reverse_append, List.takeWhile_append_of_pos all, List.reverse_append,
    List.reverse_reverse]
  rfl

theorem advance_after {x : Lexeme} {rest : Bytes} (heads : x.Heads rest) (before : Bytes) :
    (Position.after before).advance x.text = .after (before ++ x.text) := by
  obtain rfl | ⟨-, unbroken⟩ := heads.newline
  · simp [Position.advance, Position.after, Lexeme.newline, lastLine_append_newline, Utf8.count,
      Utf8.characters_nil, Nat.add_assoc]
  · have word : x.text ≠ [Bytes.newline] := fun same => unbroken (by simp [same])
    rw [Position.advance, if_neg word, Position.after, Position.after, lastLine_append _ unbroken,
      Utf8.count_append _ heads.severed, List.count_append, List.count_eq_zero.mpr unbroken,
      List.length_append, Nat.add_zero, Nat.add_assoc]

def placeAfter (p : Position) (lexemes : List Lexeme) : Position :=
  lexemes.foldl (fun p x => p.advance x.text) p

theorem tokensAt_append (p : Position) (front back : List Lexeme) :
    tokensAt p (front ++ back) = tokensAt p front ++ tokensAt (placeAfter p front) back := by
  induction front generalizing p with
  | nil => rfl
  | cons x front ih => rw [List.cons_append, tokensAt, tokensAt, ih, List.cons_append, placeAfter, placeAfter,
      List.foldl_cons]

/-- A token that stands in a source where it says. -/
def Token.Stands (t : Token) (source : Bytes) : Prop :=
  ∃ before later, source = before ++ t.text ++ later ∧ t.position = .after before

namespace Lexes

variable {t rest : Bytes} {lexemes : List Lexeme}

theorem text_eq (lexes : Lexes t lexemes rest) : t = lexemes.flatMap Lexeme.text ++ rest := by
  induction lexes with
  | done t => rfl
  | step heads lexes ih =>
    rw [List.flatMap_cons, List.append_assoc]
    exact congrArg _ ih

theorem heads_of_mem (lexes : Lexes t lexemes rest) {x : Lexeme} (mem : x ∈ lexemes) :
    ∃ more, x.Heads more := by
  induction lexes with
  | done t => simp at mem
  | step heads lexes ih =>
    obtain rfl | mem := List.mem_cons.mp mem
    · exact ⟨_, heads⟩
    · exact ih mem

theorem placeAfter_eq (lexes : Lexes t lexemes rest) (before : Bytes) :
    placeAfter (.after before) lexemes = .after (before ++ lexemes.flatMap Lexeme.text) := by
  induction lexes generalizing before with
  | done t => simp [placeAfter]
  | step heads lexes ih =>
    rw [placeAfter, List.foldl_cons, advance_after heads]
    rw [List.flatMap_cons, ← List.append_assoc]
    exact ih _

theorem stands (lexes : Lexes t lexemes rest) (before : Bytes) :
    ∀ token ∈ tokensAt (.after before) lexemes, token.Stands (before ++ t) := by
  induction lexes generalizing before with
  | done t => simp [tokensAt]
  | @step x t more rest heads lexes ih =>
    intro token mem
    rw [tokensAt, advance_after heads] at mem
    obtain rfl | mem := List.mem_cons.mp mem
    · exact ⟨before, t, by simp, rfl⟩
    · rw [← List.append_assoc]
      exact ih (before ++ x.text) token mem

theorem scanFrom_eq (lexes : Lexes t lexemes rest) {fuel : Nat} (enough : t.length ≤ fuel) (p : Position)
    (tokens : List Token) :
    ∃ left, rest.length ≤ left ∧ Token.scanFrom fuel p tokens t =
      Token.scanFrom left (placeAfter p lexemes) ((tokensAt p lexemes).reverse ++ tokens) rest := by
  induction lexes generalizing fuel p tokens with
  | done t => exact ⟨fuel, enough, rfl⟩
  | @step x t more rest heads lexes ih =>
    have filled : 0 < x.text.length := List.length_pos_iff.mpr heads.filled
    rw [List.length_append] at enough
    obtain ⟨fuel, rfl⟩ : ∃ n, fuel = n + 1 := ⟨fuel - 1, by omega⟩
    have enough' : t.length ≤ fuel := by omega
    obtain ⟨left, within, scanned⟩ := ih enough' (p.advance x.text) (⟨x.kind, x.text, p⟩ :: tokens)
    refine ⟨left, within, ?_⟩
    have some' : x.text ++ t ≠ [] := by simp [heads.filled]
    rw [Token.scanFrom.eq_3 _ _ _ _ some', heads_iff_next?.mp heads]
    simpa [tokensAt, placeAfter] using scanned

theorem scan_eq (lexes : Lexes t lexemes []) : Token.scan t = .ok (tokensAt {} lexemes) := by
  obtain ⟨left, -, scanned⟩ := lexes.scanFrom_eq (Nat.le_refl _) {} []
  rw [Token.scan, scanned]
  cases left <;> simp [Token.scanFrom]

/-- A scanner stops at the first place where a text goes on with no lexeme. -/
theorem scan_stuck (lexes : Lexes t lexemes rest) (unlexed : Unlexed rest) :
    Token.scan t = .error ⟨.after (lexemes.flatMap Lexeme.text), rest⟩ := by
  obtain ⟨left, within, scanned⟩ := lexes.scanFrom_eq (Nat.le_refl _) {} []
  have some' : 0 < rest.length := List.length_pos_iff.mpr unlexed.filled
  obtain ⟨left, rfl⟩ : ∃ n, left = n + 1 := ⟨left - 1, by omega⟩
  rw [Token.scan, scanned, Token.scanFrom.eq_3 _ _ _ _ unlexed.filled,
    next?_eq_none_iff.mpr unlexed.refused]
  have place := lexes.placeAfter_eq []
  rw [List.nil_append] at place
  exact congrArg (fun p => Except.error (Token.Stuck.mk p rest)) place

theorem unique {other : List Lexeme} (lexes : Lexes t lexemes []) (lexes' : Lexes t other []) :
    other = lexemes := by
  have same : tokensAt {} lexemes = tokensAt {} other := Except.ok.inj (lexes.scan_eq.symm.trans lexes'.scan_eq)
  rw [← map_lexeme_tokensAt {} lexemes, same, map_lexeme_tokensAt]

theorem getLast?_eq (lexes : Lexes t lexemes []) (ends : t.getLast? = some Bytes.newline) :
    lexemes.getLast? = some .newline := by
  generalize left : ([] : Bytes) = rest at lexes
  induction lexes with
  | done t =>
    subst left
    simp at ends
  | @step x t more rest heads lexes ih =>
    subst left
    cases more with
    | nil =>
      obtain rfl : t = [] := by cases lexes; rfl
      rw [List.append_nil] at ends
      obtain rfl | ⟨-, unbroken⟩ := heads.newline
      · rfl
      · exact absurd (List.mem_of_getLast? ends) unbroken
    | cons y more =>
      have filled : t ≠ [] := by
        rw [lexes.text_eq]
        obtain ⟨rest', heads'⟩ := lexes.heads_of_mem (List.mem_cons_self)
        simp [heads'.filled]
      rw [List.getLast?_append, Option.or_of_isSome (by simpa using filled)] at ends
      rw [List.getLast?_cons_cons]
      exact ih ends rfl

end Lexes

/-- Every text falls into lexemes up to its end or to a place where no rule matches. -/
theorem lexes_total (t : Bytes) : ∃ lexemes rest, Lexes t lexemes rest ∧ (rest = [] ∨ Unlexed rest) := by
  induction n : t.length using Nat.strongRecOn generalizing t with
  | _ n shorter =>
    cases next : Token.next? t with
    | none =>
      refine ⟨[], t, .done t, ?_⟩
      by_cases empty : t = []
      · exact .inl empty
      · exact .inr ⟨empty, next?_eq_none_iff.mp next⟩
    | some found =>
      obtain ⟨kind, length⟩ := found
      obtain ⟨some', within⟩ := matchLength_bounds (next?_eq_some_iff.mp next).1
      have whole : t.take length ++ t.drop length = t := List.take_append_drop length t
      have heads : Lexeme.Heads ⟨kind, t.take length⟩ (t.drop length) := by
        rw [heads_iff_next?]
        simp [whole, next, within]
      obtain ⟨lexemes, rest, lexes, stops⟩ :=
        shorter (t.drop length).length (by rw [List.length_drop]; omega) (t.drop length) rfl
      have stepped := Lexes.step heads lexes
      rw [show (Lexeme.mk kind (t.take length)).text ++ t.drop length = t from whole] at stepped
      exact ⟨_, rest, stepped, stops⟩

end WordMachine.Assembly
