import WordMachine.Proofs.Assembly.Drafting
import WordMachine.Proofs.Machine.Loading

/-! The image of a source and the machine it is for. Where no cell is written twice the image
is the one that the two passes of the layout describe, whatever the order of labels and their
uses, and every operation of the source is decoded where the layout puts it. -/

namespace WordMachine.Assembly

/-- On a machine with the image, a statement's operation is decoded at its address, with
operands that stand in memory as the statement gives them. -/
def DecodesAt (image : List UInt16) (labels : List (Bytes × Nat)) (base : Nat) (s : Statement) : Prop :=
  ∀ m : Machine, ∃ m' op i, m.loadWords image = .ok m' ∧ s.opcode? = some op ∧
    m'.state.decode base.toUInt16 = .ok i ∧ i.opcode = op ∧
    (i.raw.toList.take op.arity).map some = s.operands.map (operandWord? labels literalLimit)

/-- An image that holds what the lines of a layout say, and nothing else. -/
structure Realizes (image : List UInt16) (placed : List (Nat × Line)) : Prop where
  fits : image.length ≤ memorySize
  covers : ∀ addr ∈ addressesOf placed, addr < image.length
  ends : image = [] ∨ ∃ addr ∈ addressesOf placed, image.length = addr + 1
  unwritten : ∀ addr, addr < image.length → addr ∉ addressesOf placed → image[addr]? = some 0
  distinct : ((labelsOf placed).map Prod.fst).Nodup
  words : ∀ base l s, (base, l) ∈ placed → l.statement = some s →
    s.words (labelsOf placed) = ((image.drop base).take s.size).map some
  decodes : ∀ base l s, (base, l) ∈ placed → l.statement = some s → s.head.kind ≠ .directive →
    DecodesAt image (labelsOf placed) base s

theorem assemble_ok {source : Bytes} {table : Option SymbolTable} {image : List UInt16}
    (accepted : (assemble source table).outcome = .ok image) :
    ∃ lines, parse source = .ok lines ∧
      ((lines.foldl Draft.line { table }).finish.errors = []) ∧
      image = (lines.foldl Draft.line { table }).finish.memory.toList.take
        (lines.foldl Draft.line { table }).finish.size := by
  rw [assemble] at accepted
  split at accepted
  · simp at accepted
  · next lines parsed =>
    dsimp only at accepted
    split at accepted
    · next clean => exact ⟨lines, parsed, by simpa using clean, (Except.ok.inj accepted).symm⟩
    · simp at accepted

theorem Line.Lays.statement_lays {l : Line} {pieces : List Piece} {s : Statement} (lays : l.Lays pieces)
    (stated : l.statement = some s) (named : s.head.kind ≠ .directive) : s.Lays pieces := by
  cases lays with
  | bare missing => simp [missing] at stated
  | orig stated' moves number =>
    obtain rfl := Option.some.inj (stated'.symm.trans stated)
    simp [Draft.movesLabels, named] at moves
  | placed stated' lays =>
    obtain rfl := Option.some.inj (stated'.symm.trans stated)
    exact lays

theorem Line.Lays.words_eq {l : Line} {pieces : List Piece} {s : Statement} (lays : l.Lays pieces)
    (stated : l.statement = some s) (labels : List (Bytes × Nat)) :
    s.words labels = pieces.map (Piece.word? labels) := by
  cases lays with
  | bare missing => simp [missing] at stated
  | orig stated' moves number =>
    obtain rfl := Option.some.inj (stated'.symm.trans stated)
    obtain ⟨directive, named⟩ := Draft.movesLabels_iff.mp moves
    simp [Statement.words, directive, named]
  | placed stated' lays =>
    obtain rfl := Option.some.inj (stated'.symm.trans stated)
    exact lays.words_eq labels

theorem characterValue_le {text : Bytes} {w : UInt16} (value : characterValue text = .ok w) :
    w.toNat ≤ literalLimit := by
  rw [characterValue] at value
  split at value
  · next code _ =>
    split at value
    · simp at value
    · next small =>
      obtain rfl := Except.ok.inj value
      exact Nat.le_trans (Nat.mod_le code _) (Nat.le_of_not_lt small)
  · simp at value

theorem takes_of_rolePiece? {role : Role} {t : Token} {p : Piece} {w : UInt16}
    {labels : List (Bytes × Nat)} (piece : rolePiece? role t = some p) (word : p.word? labels = some w)
    (located : ∀ e ∈ labels, e.2 < memorySize) :
    role.Takes w := by
  obtain ⟨operand, dest⟩ := operandPiece?_of_rolePiece? piece
  have value_role : operandKind t ≠ .register → role = .value := by
    intro other
    cases role with
    | dest => exact absurd (dest rfl) other
    | value => rfl
  have small : w.toNat ≤ literalLimit → w < registerBase := by
    intro bound
    rw [UInt16.lt_iff_toNat_lt]
    exact Nat.lt_of_le_of_lt bound (by decide)
  unfold operandPiece? at operand
  split at operand
  · next kind =>
    obtain ⟨v, value, rfl⟩ := Option.map_eq_some_iff.mp operand
    obtain rfl := Option.some.inj word
    exact .inr ⟨value_role (by simp [kind]), small (literalValue_le (ok_of_toOption value))⟩
  · next kind =>
    obtain ⟨v, value, rfl⟩ := Option.map_eq_some_iff.mp operand
    obtain rfl := Option.some.inj word
    exact .inr ⟨value_role (by simp [kind]), small (characterValue_le (ok_of_toOption value))⟩
  · next kind =>
    obtain ⟨v, value, rfl⟩ := Option.map_eq_some_iff.mp operand
    obtain rfl := Option.some.inj word
    have read := ok_of_toOption value
    rw [registerValue] at read
    split at read
    · next r _ => exact .inl ⟨r, (Except.ok.inj read).symm⟩
    · simp at read
  · next kind =>
    obtain rfl := Option.some.inj operand
    obtain ⟨addr, looked, rfl⟩ := Option.map_eq_some_iff.mp word
    obtain ⟨before, after, rfl, -⟩ := List.lookup_eq_some_iff.mp looked
    have bound : addr < memorySize := located (t.text, addr) (by simp)
    refine .inr ⟨value_role (by simp [kind]), small (Nat.le_trans (Nat.mod_le addr _) ?_)⟩
    rw [memorySize] at bound
    rw [literalLimit]
    omega
  · simp at operand
  · simp at operand

/-- The words of the operands of an operation have values, each in its role. -/
theorem valued_of_pieces {roles : List Role} {operands : List Token} {pieces : List Piece}
    {raws : List UInt16} {labels : List (Bytes × Nat)} (located : ∀ e ∈ labels, e.2 < memorySize)
    (all : List.Forall₂ (fun (entry : Role × Token) p => rolePiece? entry.1 entry.2 = some p)
      (roles.zip operands) pieces)
    (count : operands.length = roles.length) (words : raws.map some = pieces.map (Piece.word? labels))
    (s : State) (addr : UInt16) :
    List.Forall₂ (fun role raw => ∃ value, s.operandValue addr role raw = .ok value) roles raws := by
  induction roles generalizing operands pieces raws with
  | nil =>
    cases all
    obtain rfl : raws = [] := by simpa using words
    exact .nil
  | cons role roles ih =>
    cases operands with
    | nil => simp at count
    | cons t operands =>
      cases all with
      | cons piece rest =>
        cases raws with
        | nil => simp at words
        | cons raw raws =>
          obtain ⟨word, words⟩ := List.cons.inj words
          refine .cons ?_ (ih rest (by simpa using count) words)
          exact State.operandValue_ok_iff.mpr (takes_of_rolePiece? piece word.symm located)

theorem getElem?_of_window {image window : List UInt16} {base size k : Nat} {w : UInt16}
    (same : (image.drop base).take size = window) (listed : window[k]? = some w) :
    image[base + k]? = some w := by
  rw [← same, List.getElem?_take, List.getElem?_drop] at listed
  split at listed
  · exact listed
  · simp at listed

theorem decodesAt_of_words {image : List UInt16} {labels : List (Bytes × Nat)} {base : Nat} {s : Statement}
    {pieces : List Piece} (fits : image.length ≤ memorySize) (located : ∀ e ∈ labels, e.2 < memorySize)
    (lays : s.Lays pieces) (named : s.head.kind ≠ .directive)
    (words : s.words labels = ((image.drop base).take s.size).map some) :
    DecodesAt image labels base s := by
  have drafted := lays.words_eq labels
  cases lays with
  | @instruction op pieces _ known count operands =>
    have spelled : s.words labels = some op.code :: s.operands.map (operandWord? labels literalLimit) := by
      simp [Statement.words, named, known]
    rw [words] at drafted spelled
    cases same : (image.drop base).take s.size with
    | nil => simp [same] at spelled
    | cons code raws =>
      rw [same, List.map_cons, List.map_cons] at drafted
      rw [same, List.map_cons] at spelled
      obtain ⟨first, sources⟩ := List.cons.inj spelled
      obtain rfl := Option.some.inj first
      intro m
      obtain ⟨m', loaded, fetched⟩ := m.loadWords_fetch fits
      have head : image[base]? = some op.code := getElem?_of_window (k := 0) same rfl
      have inside : base < memorySize :=
        Nat.lt_of_lt_of_le (List.getElem?_eq_some_iff.mp head).1 fits
      have addr : base.toUInt16.toNat = base := by
        rw [memorySize] at inside
        exact Nat.mod_eq_of_lt (by omega)
      have code : m'.state.fetch base.toUInt16 base.toUInt16.toNat = .ok op.code := by
        rw [addr]
        exact fetched _ _ _ head
      obtain ⟨i, decoded, opcode, raw⟩ := State.decode_of_cells code
        (valued_of_pieces located operands count (List.cons.inj drafted).2 _ _)
        (fun n raw listed => by
          rw [addr]
          exact fetched _ _ _ (getElem?_of_window (k := n + 1) same listed))
      exact ⟨m', op, i, loaded, known, decoded, opcode, by rw [raw, sources]⟩
  | word directive | blkw directive | string directive | print directive => exact absurd directive named

theorem Piece.word?_reverse {labels : List (Bytes × Nat)} (distinct : (labels.map Prod.fst).Nodup)
    (p : Piece) : p.word? labels.reverse = p.word? labels := by
  cases p with
  | word value cursor => rfl
  | reference t => rw [word?, word?, lookup_reverse distinct]

theorem words_of_cells {image : List UInt16} {labels : List (Bytes × Nat)} {base : Nat} {l : Line}
    {s : Statement} {pieces : List Piece} (lays : l.Lays pieces) (stated : l.statement = some s)
    (cells : ∀ k p, pieces[k]? = some p → ∃ w, p.word? labels = some w ∧ image[base + k]? = some w) :
    s.words labels = ((image.drop base).take s.size).map some := by
  have size : s.size = pieces.length := by simp [lays.length_eq, Line.size, stated]
  rw [lays.words_eq stated, size]
  apply List.ext_getElem?
  intro k
  rw [List.getElem?_map, List.getElem?_map, List.getElem?_take, List.getElem?_drop]
  cases listed : pieces[k]? with
  | none =>
    have past : ¬k < pieces.length := by simpa using listed
    rw [if_neg past]
    rfl
  | some p =>
    obtain ⟨inside, -⟩ := List.getElem?_eq_some_iff.mp listed
    obtain ⟨w, word, held⟩ := cells k p listed
    rw [if_pos inside, held, Option.map_some, word]
    rfl

/-- The image of a source that writes no cell twice is the one its layout describes, and the
machine decodes every operation of the source where the layout puts it. -/
theorem assemble_realizes {source : Bytes} {table : Option SymbolTable} {image : List UInt16}
    (accepted : (assemble source table).outcome = .ok image) :
    ∃ lines, parse source = .ok lines ∧
      ((addressesOf (layout 0 lines)).Nodup → Realizes image (layout 0 lines)) := by
  obtain ⟨lines, parsed, finished, whole⟩ := assemble_ok accepted
  refine ⟨lines, parsed, fun once => ?_⟩
  have clean : (lines.foldl Draft.line { table }).errors = [] := by
    rw [Draft.finish_eq_foldr] at finished
    exact (Draft.foldr_fix finished).1
  obtain ⟨emitted, emits, tracks⟩ := Draft.foldl_line_tracks (Draft.tracks_empty table) clean
  rw [List.append_nil, List.append_nil] at tracks
  have addresses : emitted.map Prod.fst = addressesOf (layout 0 lines) := emits.map_fst
  have distinct : ((labelsOf (layout 0 lines)).map Prod.fst).Nodup := by
    have reversed := tracks.distinct
    rwa [List.map_reverse, List.nodup_reverse] at reversed
  obtain ⟨length, fits, written, unwritten⟩ := finish_image tracks
    (by rw [List.map_reverse, List.nodup_reverse, addresses]; exact once) finished
  rw [← whole] at length written unwritten
  have words : ∀ base l s, (base, l) ∈ layout 0 lines → l.statement = some s →
      s.words (labelsOf (layout 0 lines)) = ((image.drop base).take s.size).map some := by
    intro base l s placed stated
    obtain ⟨pieces, lays, all⟩ := emits.mem placed
    refine words_of_cells lays stated fun k p listed => ?_
    rw [← Piece.word?_reverse distinct]
    exact written (base + k, p) (List.mem_reverse.mpr (all k p listed))
  refine ⟨length ▸ fits, ?_, ?_, ?_, distinct, words, ?_⟩
  · intro addr mem
    rw [← addresses] at mem
    obtain ⟨e, found, rfl⟩ := List.mem_map.mp mem
    exact length ▸ lt_extent (List.mem_reverse.mpr found)
  · obtain zero | ⟨e, mem, last⟩ := extent_mem emitted.reverse
    · exact .inl (List.length_eq_zero_iff.mp (length.trans zero))
    · refine .inr ⟨e.1, ?_, length.trans last⟩
      rw [← addresses]
      exact List.mem_map_of_mem (List.mem_reverse.mp mem)
  · intro addr below untouched
    refine unwritten addr (length ▸ below) ?_
    rwa [List.map_reverse, List.mem_reverse, addresses]
  · intro base l s placed stated named
    obtain ⟨pieces, lays, -⟩ := emits.mem placed
    exact decodesAt_of_words (length ▸ fits) (fun e mem => tracks.located e (List.mem_reverse.mpr mem))
      (lays.statement_lays stated named) named (words base l s placed stated)

def crossing : Bytes := Bytes.ofString "jmp end\nback: end: .orig 7\nset r0 back\n.word 65535 'a'\n"

theorem assemble_realizes_crossing :
    ∃ image lines, (assemble crossing none).outcome = .ok image ∧ parse crossing = .ok lines ∧
      addressesOf (layout 0 lines) = [0, 1, 7, 8, 9, 10, 11] ∧ Realizes image (layout 0 lines) := by
  have some' : (assemble crossing none).outcome.toOption.isSome := by decide +kernel
  have cells : (parse crossing).toOption.map (fun lines => addressesOf (layout 0 lines)) =
      some [0, 1, 7, 8, 9, 10, 11] := by decide +kernel
  obtain ⟨image, found⟩ := Option.isSome_iff_exists.mp some'
  obtain ⟨lines, parsed, realizes⟩ := assemble_realizes (ok_of_toOption found)
  have addresses : addressesOf (layout 0 lines) = [0, 1, 7, 8, 9, 10, 11] := by
    simpa [parsed, Except.toOption] using cells
  exact ⟨image, lines, ok_of_toOption found, parsed, addresses, realizes (by rw [addresses]; decide)⟩

end WordMachine.Assembly
