import WordMachine.Proofs.Assembly.Drafting
import WordMachine.Proofs.Assembly.Scanning
import WordMachine.Proofs.Machine.Decoding
import WordMachine.Proofs.Text.Decimal

/-! Statements that stand for given words. Operations and numbers in the form in which the
machine's memory is listed are assembled to the words they were made from, one statement after
the other, from the address where `.orig` puts them. -/

namespace WordMachine.Assembly

open Text

theorem digitsOf_decimal (n : Nat) : digitsOf (Numeral.decimal n) = (10, Numeral.decimal n) := by
  unfold digitsOf
  split
  · next z x digits same =>
    have digit : Bytes.isDigit x = true := by
      apply Numeral.isDigit_of_mem_decimal (n := n)
      simp [same]
    rw [if_neg]
    simpa using fun _ => Token.lower_ne_of_isDigit digit
  · rfl

theorem literalValue_decimal {limit n : Nat} (fits : n ≤ limit) (bounded : limit < Nat.pow 2 64) :
    literalValue limit (Numeral.decimal n) = .ok n.toUInt16 := by
  have read : Numeral.readNat 10 64 (Numeral.decimal n) = .ok n :=
    Numeral.readNat_decimal (Nat.lt_of_le_of_lt fits bounded)
  simp [literalValue, digitsOf_decimal, read, Nat.not_lt.mpr fits]

theorem decimal_plain (n : Nat) : (⟨.number, Numeral.decimal n⟩ : Lexeme).Plain :=
  .number (Numeral.decimal_ne_nil n) fun _ mem => Numeral.isDigit_of_mem_decimal mem

def operandLexeme (raw : UInt16) : Lexeme :=
  ⟨if raw < registerBase then .number else .name, Instruction.formatOperand raw⟩

theorem operandPiece?_number {limit : Nat} {t : Token} {w : UInt16} (number : t.kind = .number)
    (text : t.text = Numeral.decimal w.toNat) (fits : w.toNat ≤ limit) (bounded : limit < Nat.pow 2 64) :
    operandPiece? limit t = some (.word w (.ofToken t)) := by
  have value : literalValue limit t.text = .ok w := by
    rw [text, literalValue_decimal fits bounded]
    simp
  simp [operandPiece?, operandKind, number, value, Except.toOption]

/-- A word of a source that is read as the raw number `raw` where an operand has a role. -/
structure Spells (role : Role) (x : Lexeme) (raw : UInt16) : Prop where
  plain : x.Plain
  operand : x.isOperand = true
  piece : ∀ t : Token, t.lexeme = x → rolePiece? role t = some (.word raw (.ofToken t))

theorem spells_number {raw : UInt16} (below : raw < registerBase) :
    Spells .value ⟨.number, Numeral.decimal raw.toNat⟩ raw where
  plain := decimal_plain raw.toNat
  operand := rfl
  piece t same := by
    have kind : t.kind = .number := congrArg Lexeme.kind same
    have text : t.text = Numeral.decimal raw.toNat := congrArg Lexeme.text same
    have bound : raw.toNat ≤ literalLimit := by
      rw [UInt16.lt_iff_toNat_lt] at below
      exact Nat.le_of_lt_succ below
    simpa [rolePiece?] using operandPiece?_number kind text bound (by decide)

theorem spells_register (role : Role) (r : Register) :
    Spells role ⟨.name, Bytes.ascii 'r' :: Numeral.decimal r.val⟩ r.raw where
  plain := by
    refine .name (by decide) fun c mem => ?_
    simp [Token.isNameByte, Numeral.isDigit_of_mem_decimal mem]
  operand := rfl
  piece t same := by
    have kind : t.kind = .name := congrArg Lexeme.kind same
    have text : t.text = Bytes.ascii 'r' :: Numeral.decimal r.val := congrArg Lexeme.text same
    have names : ∀ r : Register, isRegisterName (Bytes.ascii 'r' :: Numeral.decimal r.val) = true ∧
        registerValue (Bytes.ascii 'r' :: Numeral.decimal r.val) = .ok r.raw := by decide
    have register : operandKind t = .register := by simp [operandKind, kind, text, (names r).1]
    simp [rolePiece?, register, operandPiece?, text, (names r).2, Except.toOption]

/-- The words of operands are placed as the raw numbers that they spell. -/
theorem operands_placed {roles : List Role} {operands : List (Lexeme × UInt16)}
    (spelled : List.Forall₂ (fun role (o : Lexeme × UInt16) => Spells role o.1 o.2) roles operands)
    {tokens : List Token} (same : tokens.map Token.lexeme = operands.map Prod.fst) :
    ∃ pieces, List.Forall₂ (fun (entry : Role × Token) p => rolePiece? entry.1 entry.2 = some p)
        (roles.zip tokens) pieces ∧
      pieces.map (Piece.word? []) = (operands.map Prod.snd).map some := by
  induction spelled generalizing tokens with
  | nil => exact ⟨[], .nil, rfl⟩
  | @cons role operand roles operands first rest ih =>
    obtain ⟨t, tokens, rfl, head, tail⟩ := List.map_eq_cons_iff.mp same
    obtain ⟨pieces, placed, words⟩ := ih tail
    exact ⟨_, .cons (first.piece t head) placed, by rw [List.map_cons, words]; rfl⟩

theorem operands_spelled {roles : List Role} {operands : List (Lexeme × UInt16)}
    (spelled : List.Forall₂ (fun role (o : Lexeme × UInt16) => Spells role o.1 o.2) roles operands) :
    ∀ x ∈ operands.map Prod.fst, x.Plain ∧ x.isOperand = true := by
  induction spelled with
  | nil => simp
  | cons first rest ih => exact List.forall_mem_cons.mpr ⟨⟨first.plain, first.operand⟩, ih⟩

namespace Written

/-- A statement that can be written, and is assembled to words without any label. -/
structure Stands (w : Written) (words : List UInt16) : Prop where
  sound : w.Sound
  filled : words ≠ []
  few : w.operands.length ≤ words.length
  lays : ∀ s : Statement, s.head.lexeme = w.head → s.operands.map Token.lexeme = w.operands →
    ∃ pieces, s.Lays pieces ∧ pieces.map (Piece.word? []) = words.map some

def instruction (op : Opcode) (operands : List Lexeme) : Written :=
  ⟨⟨.name, Bytes.ofString op.mnemonic⟩, operands⟩

def operation (op : Opcode) (raws : List UInt16) : Written :=
  ⟨⟨.name, Bytes.ofString op.mnemonic⟩, raws.map operandLexeme⟩

def directive (name : String) (n : Nat) : Written :=
  ⟨⟨.directive, Bytes.ofString name⟩, [⟨.number, Numeral.decimal n⟩]⟩

def number (w : UInt16) : Written := directive ".word" w.toNat

def origin (addr : Nat) : Written := directive ".orig" addr

theorem mnemonic_plain (op : Opcode) : (⟨.name, Bytes.ofString op.mnemonic⟩ : Lexeme).Plain := by
  cases op <;> exact .name (by decide) (List.all_eq_true.mp (by decide))

theorem ofMnemonic?_mnemonic (op : Opcode) :
    Opcode.ofMnemonic? (Bytes.toLower (Bytes.ofString op.mnemonic)) = some op := by
  cases op <;> decide

theorem instruction_stands {op : Opcode} {operands : List (Lexeme × UInt16)}
    (spelled : List.Forall₂ (fun role (o : Lexeme × UInt16) => Spells role o.1 o.2) op.roles operands) :
    (instruction op (operands.map Prod.fst)).Stands (op.code :: operands.map Prod.snd) where
  sound := ⟨mnemonic_plain op, .inr rfl, operands_spelled spelled⟩
  filled := List.cons_ne_nil _ _
  few := by simp [instruction]
  lays s head tokens := by
    have kind : s.head.kind = .name := congrArg Lexeme.kind head
    have text : s.head.text = Bytes.ofString op.mnemonic := congrArg Lexeme.text head
    obtain ⟨pieces, placed, words⟩ := operands_placed spelled tokens
    have count : s.operands.length = op.arity := by
      rw [← List.length_map Token.lexeme, tokens, instruction, List.length_map, ← spelled.length_eq,
        Opcode.arity]
    have known : s.opcode? = some op := by rw [Statement.opcode?, text, ofMnemonic?_mnemonic]
    exact ⟨_, .instruction (by simp [kind]) known count placed, by rw [List.map_cons, words]; rfl⟩

theorem sound_of_stands {written : List Written} {words : List (List UInt16)}
    (stand : List.Forall₂ Stands written words) : ∀ w ∈ written, w.Sound := by
  induction stand with
  | nil => simp
  | cons first rest ih => exact List.forall_mem_cons.mpr ⟨first.sound, ih⟩

theorem length_of_stands {written : List Written} {words : List (List UInt16)}
    (stand : List.Forall₂ Stands written words) :
    tokenCount written ≤ 3 * words.flatten.length := by
  induction stand with
  | nil => exact Nat.zero_le _
  | cons first rest ih =>
    have some' := List.length_pos_of_ne_nil first.filled
    have few := first.few
    rw [tokenCount, List.flatten_cons, List.length_append]
    omega

theorem three_memories_lt : 3 * memorySize + 3 < repetitionLimit := by decide

end Written

theorem Draft.foldl_line_plain {d : Draft} {laid : List (Nat × Piece)} {names : List (Bytes × Nat)}
    (tracks : d.Tracks laid names) {lines : List Line} {all : List (List Piece)}
    (each : List.Forall₂ (fun (l : Line) pieces =>
      l.labels = [] ∧ l.Lays pieces ∧ ∀ before, l.base before = before) lines all)
    (fits : d.addr + all.flatten.length ≤ memorySize) :
    (lines.foldl line d).Tracks ((numbered d.addr all.flatten).reverse ++ laid) names := by
  induction each generalizing d laid with
  | nil => exact tracks
  | @cons l pieces lines all first rest ih =>
    obtain ⟨unlabelled, lays, stays⟩ := first
    rw [List.flatten_cons, List.length_append, lays.length_eq] at fits
    obtain ⟨tracks', addr⟩ := line_tracks tracks lays (enter_clean tracks lays unlabelled)
      (by rw [stays]; omega)
    rw [stays] at tracks' addr
    rw [unlabelled] at tracks'
    have final := ih tracks' (by omega)
    rw [addr] at final
    rw [List.foldl_cons, List.flatten_cons, numbered_append, lays.length_eq, List.reverse_append,
      List.append_assoc]
    exact final

theorem extent_numbered (addr : Nat) {pieces : List Piece} (filled : pieces ≠ []) :
    extent (numbered addr pieces).reverse = addr + pieces.length := by
  have cells : ∀ {e : Nat × Piece}, e ∈ (numbered addr pieces).reverse → e.1 < addr + pieces.length := by
    intro e mem
    have listed : e.1 ∈ (numbered addr pieces).map Prod.fst := List.mem_map_of_mem (List.mem_reverse.mp mem)
    rw [map_fst_numbered, List.mem_range'_1] at listed
    exact listed.2
  have some' : 0 < pieces.length := List.length_pos_iff.mpr filled
  have last : (addr + (pieces.length - 1), pieces.getLast filled) ∈ (numbered addr pieces).reverse := by
    apply List.mem_reverse.mpr
    apply mem_numbered
    rw [← List.getLast?_eq_getElem?, List.getLast?_eq_getLast_of_ne_nil filled]
  have least := lt_extent last
  dsimp only at least
  obtain zero | ⟨e, mem, same⟩ := extent_mem (numbered addr pieces).reverse
  · omega
  · have most := cells mem
    omega

theorem image_of_tracks {d : Draft} {addr : Nat} {pieces : List Piece} {words : List UInt16}
    (tracks : d.Tracks (numbered addr pieces).reverse []) (same : pieces.map (Piece.word? []) = words.map some)
    (filled : words ≠ []) :
    d.finish.errors = [] ∧
      d.finish.memory.toList.take d.finish.size = List.replicate addr 0 ++ words := by
  have length : pieces.length = words.length := by
    rw [← List.length_map (Piece.word? []), same, List.length_map]
  have filled' : pieces ≠ [] := by
    rintro rfl
    exact filled (List.length_eq_zero_iff.mp length.symm)
  have unfixed : d.fixups = [] := by
    rw [tracks.fixups, List.filterMap_eq_nil_iff]
    rintro ⟨k, p⟩ mem
    have listed : p ∈ pieces := by
      rw [← map_snd_numbered addr pieces]
      exact List.mem_map.mpr ⟨_, List.mem_reverse.mp mem, rfl⟩
    have valued : p.word? [] ∈ words.map some := same ▸ List.mem_map_of_mem listed
    cases p with
    | word value cursor => rfl
    | reference t => simp [Piece.word?] at valued
  have finished : d.finish = d := by simp [Draft.finish, unfixed]
  have clean : d.finish.errors = [] := by rw [finished, tracks.clean]
  have once : ((numbered addr pieces).reverse.map Prod.fst).Nodup := by
    rw [List.map_reverse, List.nodup_reverse, map_fst_numbered]
    exact List.nodup_range'
  obtain ⟨size, -, written, unwritten⟩ := finish_image tracks once clean
  rw [extent_numbered addr filled'] at size unwritten
  refine ⟨clean, List.ext_getElem? fun k => ?_⟩
  by_cases below : k < addr
  · have untouched : k ∉ (numbered addr pieces).reverse.map Prod.fst := by
      rw [List.map_reverse, List.mem_reverse, map_fst_numbered, List.mem_range'_1]
      omega
    rw [unwritten k (by omega) untouched, List.getElem?_append_left (by simpa using below)]
    simp [below]
  · obtain ⟨n, rfl⟩ : ∃ n, k = addr + n := ⟨k - addr, by omega⟩
    rw [List.getElem?_append_right (by simp)]
    simp only [List.length_replicate, Nat.add_sub_cancel_left]
    cases listed : pieces[n]? with
    | none =>
      have past : pieces.length ≤ n := by simpa using listed
      rw [List.getElem?_eq_none (by omega), List.getElem?_eq_none (by omega)]
    | some p =>
      obtain ⟨w, word, held⟩ := written (addr + n, p) (List.mem_reverse.mpr (mem_numbered listed))
      have mapped : (words.map some)[n]? = some (some w) := by
        rw [← same, List.getElem?_map, listed, Option.map_some, word]
      have entry : words[n]? = some w := by simpa using mapped
      rw [held, entry]

theorem Statement.Lays.base_eq {s : Statement} {pieces : List Piece} (lays : s.Lays pieces) {l : Line}
    (stated : l.statement = some s) (before : Nat) : l.base before = before := by
  simp [Line.base, stated, (Draft.statement_eq lays).1]

theorem lays_of_reads {written : List Written} {words : List (List UInt16)} {lines : List Line}
    (stand : List.Forall₂ Written.Stands written words) (reads : List.Forall₂ Written.Reads written lines) :
    ∃ all : List (List Piece),
      List.Forall₂ (fun (l : Line) pieces =>
        l.labels = [] ∧ l.Lays pieces ∧ ∀ before, l.base before = before) lines all ∧
      all.flatten.map (Piece.word? []) = words.flatten.map some := by
  induction stand generalizing lines with
  | nil =>
    cases reads
    exact ⟨[], .nil, rfl⟩
  | @cons w words written more first rest ih =>
    cases reads with
    | @cons _ l _ lines read others =>
      obtain ⟨all, each, same⟩ := ih others
      obtain ⟨s, stated, head, operands⟩ := read.stated
      obtain ⟨pieces, lays, valued⟩ := first.lays s head operands
      refine ⟨pieces :: all, .cons ⟨read.unlabelled, .placed stated lays, lays.base_eq stated⟩ each, ?_⟩
      rw [List.flatten_cons, List.flatten_cons, List.map_append, List.map_append, valued, same]

theorem Draft.finish_written {d : Draft} (empty : d.Tracks [] []) {written : List Written}
    {words : List (List UInt16)} {lines : List Line} (stand : List.Forall₂ Written.Stands written words)
    (reads : List.Forall₂ Written.Reads written lines) (filled : words.flatten ≠ [])
    (fits : d.addr + words.flatten.length ≤ memorySize) :
    (lines.foldl Draft.line d).finish.errors = [] ∧
      (lines.foldl Draft.line d).finish.memory.toList.take (lines.foldl Draft.line d).finish.size =
        List.replicate d.addr 0 ++ words.flatten := by
  obtain ⟨all, each, same⟩ := lays_of_reads stand reads
  have length : all.flatten.length = words.flatten.length := by
    rw [← List.length_map (Piece.word? []), same, List.length_map]
  have drafted := Draft.foldl_line_plain empty each (by rw [length]; exact fits)
  exact image_of_tracks (by simpa using drafted) same filled

theorem assemble_statements {written : List Written} {words : List (List UInt16)}
    (stand : List.Forall₂ Written.Stands written words) (filled : words.flatten ≠ [])
    (fits : words.flatten.length ≤ memorySize) (table : Option SymbolTable) :
    (assemble (sourceOf written) table).outcome = .ok words.flatten := by
  have some' : written ≠ [] := by
    rintro rfl
    cases stand
    exact filled rfl
  have few := Written.length_of_stands stand
  have limit := Written.three_memories_lt
  obtain ⟨lines, parsed, reads⟩ := parse_sourceOf some' (Written.sound_of_stands stand) (by omega)
  obtain ⟨clean, image⟩ := Draft.finish_written (Draft.tracks_empty table) stand reads filled
    (by simpa using fits)
  simp [assemble, parsed, clean, image]

end WordMachine.Assembly
