import WordMachine.Proofs.Assembly.Parsing
import WordMachine.Proofs.Assembly.Reassembly

/-! Sources that print a text and halt. The lexer and the reader of literals tell by rules of their
own where a literal ends, but whatever the reader takes whole is one token: of the bytes that it
takes together none but the one behind a backslash could end a token. So a literal that is read is
printed, two words for each of its characters. -/

namespace WordMachine.Assembly

open Text

/-- Bytes that neither end a quotation nor have a part in an escape. -/
def Inert (t : Bytes) : Prop :=
  ∀ b ∈ t, b ≠ Quoted.doubleQuote ∧ b ≠ Quoted.backslash ∧ b ≠ Bytes.newline

theorem inert_of_apart {p : UInt8 → Bool} {b : UInt8} (has : p b = true)
    (apart : p Quoted.doubleQuote = false ∧ p Quoted.backslash = false ∧ p Bytes.newline = false) :
    b ≠ Quoted.doubleQuote ∧ b ≠ Quoted.backslash ∧ b ≠ Bytes.newline := by
  obtain ⟨quote, backslash, newline⟩ := apart
  refine ⟨?_, ?_, ?_⟩
  · rintro rfl
    exact Bool.false_ne_true (quote.symm.trans has)
  · rintro rfl
    exact Bool.false_ne_true (backslash.symm.trans has)
  · rintro rfl
    exact Bool.false_ne_true (newline.symm.trans has)

theorem inert_of_digit? {b : UInt8} {d : Nat} (digit : Numeral.digit? b = some d) :
    b ≠ Quoted.doubleQuote ∧ b ≠ Quoted.backslash ∧ b ≠ Bytes.newline :=
  @inert_of_apart (fun b => (Numeral.digit? b).isSome) b (by simp [digit]) (by decide)

theorem fixedDigits_split {base count value v : Nat} {t rest : Bytes}
    (read : Quoted.fixedDigits base count value t = some (v, rest)) :
    ∃ digits, t = digits ++ rest ∧ digits.length = count ∧ Inert digits := by
  induction count generalizing value t with
  | zero =>
    obtain ⟨-, rfl⟩ := Prod.mk.inj (Option.some.inj read)
    exact ⟨[], rfl, rfl, by simp [Inert]⟩
  | succ count ih =>
    cases t with
    | nil => simp [Quoted.fixedDigits] at read
    | cons b t =>
      rw [Quoted.fixedDigits] at read
      split at read
      · simp at read
      · next d digit =>
        split at read
        · obtain ⟨digits, rfl, length, inert⟩ := ih read
          have inert' : Inert (b :: digits) := List.forall_mem_cons.mpr ⟨inert_of_digit? digit, inert⟩
          exact ⟨b :: digits, rfl, by simp [length], inert'⟩
        · simp at read

theorem unescape_split {t out rest : Bytes} (read : Quoted.unescape Quoted.doubleQuote t = some (out, rest)) :
    ∃ c digits, t = c :: (digits ++ rest) ∧ c ≠ Bytes.newline ∧ Inert digits := by
  cases t with
  | nil => simp [Quoted.unescape] at read
  | cons c t =>
    have inline : c ≠ Bytes.newline := by
      rintro rfl
      simp [Quoted.unescape, Quoted.controlOf?, Bytes.newline, Bytes.ascii, Quoted.backslash,
        Quoted.doubleQuote] at read
    have alone : ∃ digits, t = digits ++ t ∧ Inert digits := ⟨[], rfl, by simp [Inert]⟩
    suffices ∃ digits, t = digits ++ rest ∧ Inert digits by
      obtain ⟨digits, rfl, inert⟩ := this
      exact ⟨c, digits, rfl, inline, inert⟩
    rw [Quoted.unescape] at read
    split at read
    · obtain ⟨-, rfl⟩ := Prod.mk.inj (Option.some.inj read)
      exact alone
    split at read
    · obtain ⟨⟨v, r⟩, number, same⟩ := Option.map_eq_some_iff.mp read
      obtain ⟨-, rfl⟩ := Prod.mk.inj same
      obtain ⟨digits, whole, -, inert⟩ := fixedDigits_split number
      exact ⟨digits, whole, inert⟩
    split at read
    · split at read
      · next v r number =>
        split at read
        · obtain ⟨-, rfl⟩ := Prod.mk.inj (Option.some.inj read)
          obtain ⟨digits, whole, -, inert⟩ := fixedDigits_split number
          exact ⟨digits, whole, inert⟩
        · simp at read
      · simp at read
    split at read
    · split at read
      · next v r number =>
        split at read
        · obtain ⟨-, rfl⟩ := Prod.mk.inj (Option.some.inj read)
          obtain ⟨digits, whole, length, inert⟩ := fixedDigits_split number
          obtain ⟨d, digits, rfl⟩ := List.exists_cons_of_length_eq_add_one length
          obtain ⟨rfl, rfl⟩ := List.cons.inj whole
          exact ⟨digits, rfl, (List.forall_mem_cons.mp inert).2⟩
        · simp at read
      · simp at read
    split at read
    · obtain ⟨-, rfl⟩ := Prod.mk.inj (Option.some.inj read)
      exact alone
    · simp at read

theorem quotedLength_inert {front rest : Bytes} {n : Nat} (inert : Inert front)
    (closed : Token.quotedLength Quoted.doubleQuote rest = some n) :
    Token.quotedLength Quoted.doubleQuote (front ++ rest) = some (front.length + n) := by
  induction front with
  | nil => simpa using closed
  | cons b front ih =>
    obtain ⟨⟨unquoted, plain, inline⟩, others⟩ := List.forall_mem_cons.mp inert
    have stays : ¬(b = 92 || b = Bytes.newline) = true := by simpa using ⟨plain, inline⟩
    rw [List.cons_append, Token.quotedLength.eq_3 _ _ _ fun _ _ escape => absurd escape plain,
      if_neg unquoted, if_neg stays, ih others, List.length_cons]
    simp only [Option.map_some, Option.some.injEq]
    omega

theorem quotedLength_of_unquoteOne {t out rest : Bytes}
    (read : Quoted.unquoteOne Quoted.doubleQuote t = some (out, rest))
    (closed : Token.quotedLength Quoted.doubleQuote rest = some rest.length) :
    Token.quotedLength Quoted.doubleQuote t = some t.length := by
  cases t with
  | nil => simp [Quoted.unquoteOne] at read
  | cons b t =>
    rw [Quoted.unquoteOne] at read
    split at read
    · simp at read
    next ends =>
    obtain ⟨unquoted, inline⟩ : b ≠ Quoted.doubleQuote ∧ b ≠ Bytes.newline := by simpa using ends
    split at read
    · next escape =>
      obtain ⟨c, digits, rfl, inline', inert⟩ := unescape_split read
      rw [escape, Quoted.backslash, Token.quotedLength, if_neg inline', quotedLength_inert inert closed]
      simp
    · next plain =>
      obtain ⟨-, rfl⟩ := Prod.mk.inj (Option.some.inj read)
      have inert : Inert (b :: t.take ((Utf8.lead b t).width - 1)) :=
        List.forall_mem_cons.mpr ⟨⟨unquoted, plain, inline⟩,
          fun u taken => inert_of_apart (Utf8.isTail_of_mem_lead taken) (by decide)⟩
      have whole := quotedLength_inert inert closed
      rw [List.cons_append, List.take_append_drop] at whole
      rw [whole, List.length_cons, List.length_cons, List.length_take, List.length_drop]
      congr 1
      omega

theorem quotedLength_of_unquoteBody {fuel : Nat} {t out : Bytes}
    (read : Quoted.unquoteBody Quoted.doubleQuote fuel t = some out) :
    Token.quotedLength Quoted.doubleQuote t = some t.length := by
  induction fuel generalizing t out with
  | zero => simp [Quoted.unquoteBody] at read
  | succ fuel ih =>
    unfold Quoted.unquoteBody at read
    split at read
    · next last =>
      rw [last]
      rfl
    · split at read
      · simp at read
      · next c rest one =>
        obtain ⟨more, body, -⟩ := Option.map_eq_some_iff.mp read
        exact quotedLength_of_unquoteOne one (ih body)

theorem heads_string {literal text : Bytes} (read : Quoted.unquoteString literal = some text) (rest : Bytes) :
    (⟨.string, literal⟩ : Lexeme).Heads rest := by
  cases literal with
  | nil => simp [Quoted.unquoteString] at read
  | cons b body =>
    rw [Quoted.unquoteString] at read
    split at read
    · next opened =>
      have closed := Token.quotedLength_append (by decide) (quotedLength_of_unquoteBody read) rest
      rw [Quoted.doubleQuote] at opened closed
      subst opened
      have first : ∀ kind ∈ Token.before .string, Token.opens 34 kind = false := by decide
      exact heads_iff_next?.mpr (Token.next?_of_closed first (by simp [Token.matchLength, closed]))
    · simp at read

theorem heads_space {b : UInt8} (inked : Token.isBlank b = false) (rest : Bytes) :
    Lexeme.space.Heads (b :: rest) :=
  heads_iff_next?.mpr (Token.next?_space inked rest)

theorem heads_plain {x : Lexeme} (plain : x.Plain) {rest : Bytes} (parted : Parted rest) : x.Heads rest :=
  heads_iff_next?.mpr (next?_plain plain parted)

theorem parted_newline (rest : Bytes) : Parted (Lexeme.newline.text ++ rest) := ⟨_, _, rfl, .inr rfl⟩

theorem parted_space (rest : Bytes) : Parted (Lexeme.space.text ++ rest) := ⟨_, _, rfl, .inl rfl⟩

theorem stringValue_eq {literal text : Bytes} (read : Quoted.unquoteString literal = some text)
    (small : ∀ c ∈ Utf8.codes text, c ≠ Utf8.replacement ∧ c ≤ literalLimit) :
    stringValue literal = .ok ((Utf8.codes text).map Nat.toUInt16) := by
  have sound : ¬(Utf8.codes text).any (fun c => c = Utf8.replacement || literalLimit < c) = true := by
    intro some'
    obtain ⟨c, mem, unsound⟩ := List.any_eq_true.mp some'
    obtain ⟨other, low⟩ := small c mem
    simp [other, Nat.not_lt.mpr low] at unsound
  rw [stringValue, read, Option.map_some]
  simp only [if_neg sound]

def outputs (chars : List UInt16) : List UInt16 := chars.flatMap fun c => [Opcode.out.code, c]

theorem length_outputs (chars : List UInt16) : (outputs chars).length = 2 * chars.length := by
  simp [outputs, List.length_flatMap, Nat.mul_comm]

def printed (chars : List UInt16) : List UInt16 := outputs chars ++ [Opcode.halt.code]

/-- Sources that consist of a `.print` of a literal and of `halt`, in whatever layout. -/
def Prints (literal source : Bytes) : Prop :=
  ∃ tokens, Tokenized source tokens ∧ tokens.map Token.lexeme =
    [⟨.directive, Bytes.ofString ".print"⟩, ⟨.string, literal⟩, .newline,
      ⟨.name, Bytes.ofString "halt"⟩, .newline]

def printing (literal : Bytes) : Bytes := Bytes.ofString ".print " ++ literal ++ Bytes.ofString "\nhalt\n"

theorem closeLast_printing (literal : Bytes) : closeLast (printing literal) = printing literal := by
  rw [closeLast, if_pos]
  rw [printing, List.getLast?_append]
  rfl

theorem printing_eq (literal : Bytes) :
    printing literal = Bytes.ofString ".print" ++ (Lexeme.space.text ++
      (literal ++ (Lexeme.newline.text ++ (Bytes.ofString "halt" ++ [Bytes.newline])))) := by
  have opening : Bytes.ofString ".print " = Bytes.ofString ".print" ++ Lexeme.space.text := by decide
  have closing : Bytes.ofString "\nhalt\n" =
      Lexeme.newline.text ++ (Bytes.ofString "halt" ++ [Bytes.newline]) := by decide
  rw [printing, opening, closing]
  simp only [List.append_assoc]

theorem prints_printing {literal text : Bytes} (read : Quoted.unquoteString literal = some text) :
    Prints literal (printing literal) := by
  have quoted := heads_string read
  obtain ⟨b, body, rfl, mark⟩ : ∃ b body, literal = b :: body ∧ Token.opens b .string = true :=
    (quoted []).opens
  have inked : Token.isBlank b = false := by
    obtain rfl : b = 34 := by simpa [Token.opens] using mark
    decide
  have directive : (⟨.directive, Bytes.ascii '.' :: Bytes.ofString "print"⟩ : Lexeme).Plain :=
    .directive (by decide) (List.all_eq_true.mp (by decide))
  have name : (⟨.name, Bytes.ascii 'h' :: Bytes.ofString "alt"⟩ : Lexeme).Plain :=
    .name (by decide) (List.all_eq_true.mp (by decide))
  have close := Lexes.step (heads_newline []) (.done [])
  have halt := Lexes.step (heads_plain name (parted_newline [])) close
  have line := Lexes.step (heads_newline _) halt
  have string := Lexes.step (quoted _) line
  have gap := Lexes.step (heads_space inked _) string
  have whole := Lexes.step (heads_plain directive (parted_space _)) gap
  have split : printing (b :: body) = closeLast (printing (b :: body)) := (closeLast_printing _).symm
  rw [printing_eq] at split
  exact ⟨_, ⟨_, split ▸ whole, rfl⟩, rfl⟩

def Statement.line (s : Statement) : Line := ⟨s.head.position, [], some s⟩

theorem parse_prints {literal source : Bytes} (prints : Prints literal source) :
    ∃ (print string halt : Token), print.lexeme = ⟨.directive, Bytes.ofString ".print"⟩ ∧
      string.lexeme = ⟨.string, literal⟩ ∧ halt.lexeme = ⟨.name, Bytes.ofString "halt"⟩ ∧
      parse source = .ok [Statement.line ⟨print, [string]⟩, Statement.line ⟨halt, []⟩] := by
  obtain ⟨tokens, tokenized, same⟩ := prints
  obtain ⟨print, rest, rfl, isPrint, same⟩ := List.map_eq_cons_iff.mp same
  obtain ⟨string, rest, rfl, isString, same⟩ := List.map_eq_cons_iff.mp same
  obtain ⟨ending, rest, rfl, ends, same⟩ := List.map_eq_cons_iff.mp same
  obtain ⟨halt, rest, rfl, isHalt, same⟩ := List.map_eq_cons_iff.mp same
  obtain ⟨close, rfl, closes⟩ := List.map_eq_singleton_iff.mp same
  have quoted : string.kind = .string := congrArg Lexeme.kind isString
  have operand : string.isOperand = true := isOperand_iff.mpr (.inr (.inr (.inl quoted)))
  have first : LineForm [print, string] (Statement.line ⟨print, [string]⟩) :=
    @LineForm.intro [] _ _ (by simp) (.head (.inl (congrArg Lexeme.kind isPrint)) (.first operand .nil))
  have second : LineForm [halt] (Statement.line ⟨halt, []⟩) :=
    @LineForm.intro [] _ _ (by simp) (.head (.inr (congrArg Lexeme.kind isHalt)) .nil)
  have form := SourceForm.line first (congrArg Lexeme.kind ends)
    (.line second (congrArg Lexeme.kind closes) .nil)
  have few : [print, string, ending, halt, close].length < repetitionLimit := by
    change 5 < repetitionLimit
    decide
  exact ⟨print, string, halt, isPrint, isString, isHalt,
    tokenized.parse_eq.trans ((parseTokens_of_few few).trans form.read)⟩

theorem assemble_prints {literal source : Bytes} {chars : List UInt16} (prints : Prints literal source)
    (value : stringValue literal = .ok chars) (fits : 2 * chars.length + 1 ≤ memorySize)
    (table : Option SymbolTable) : (assemble source table).outcome = .ok (printed chars) := by
  obtain ⟨print, string, halt, isPrint, isString, isHalt, parsed⟩ := parse_prints prints
  have characters : Draft.soleString ⟨print, [string]⟩ = .ok chars := by
    have kind : operandKind string = .string := by
      rw [operandKind, show string.kind = .string from congrArg Lexeme.kind isString]
    have text : string.text = literal := congrArg Lexeme.text isString
    simp [Draft.soleString, Draft.soleOperand, kind, text, value, bind, Except.bind, Except.mapError]
  have first : (⟨print, [string]⟩ : Statement).Lays
      ((outputs chars).map (.word · (.ofToken print))) := by
    refine .print (congrArg Lexeme.kind isPrint) ?_ characters
    rw [show print.text = Bytes.ofString ".print" from congrArg Lexeme.text isPrint]
    decide
  have second : (⟨halt, []⟩ : Statement).Lays [.word Opcode.halt.code (.ofToken halt)] := by
    have kind : halt.kind = .name := congrArg Lexeme.kind isHalt
    refine .instruction (by simp [kind]) ?_ rfl .nil
    rw [Statement.opcode?, show halt.text = Bytes.ofString "halt" from congrArg Lexeme.text isHalt]
    decide
  have each : List.Forall₂ (fun (l : Line) pieces =>
      l.labels = [] ∧ l.Lays pieces ∧ ∀ before, l.base before = before)
      [Statement.line ⟨print, [string]⟩, Statement.line ⟨halt, []⟩] [_, _] :=
    .cons ⟨rfl, .placed rfl first, first.base_eq rfl⟩
      (.cons ⟨rfl, .placed rfl second, second.base_eq rfl⟩ .nil)
  have drafted := Draft.foldl_line_plain (Draft.tracks_empty table) each (by
    simp only [List.flatten_cons, List.length_append, List.length_map, length_outputs]
    simpa using fits)
  obtain ⟨clean, image⟩ := @image_of_tracks _ 0 _ (printed chars) (by simpa using drafted)
    (by simp [Piece.word?, printed, Function.comp_def]) (by simp [printed])
  simp [assemble, parsed, clean, image]

end WordMachine.Assembly
