import WordMachine.Proofs.SymbolTable.Stored

/-! The symbol table of an accepted source can be stored. Its offsets are places in the source,
and its labels are names that stand in the source, so all of them are as long as the source at
most. -/

namespace WordMachine

open Text

namespace SymbolTable

structure Lasting (limit : Nat) (P : SymbolTable → Prop) : Prop where
  addLabel : ∀ t addr name, P t → P (t.addLabel addr name)
  addSymbol : ∀ t addr (offset : Nat), offset ≤ limit → P t → P (t.addSymbol addr offset)

structure Outlines (origin : Bytes) (limit : Nat) (t : SymbolTable) : Prop where
  source : t.source = origin
  symbols : ∃ m, t.symbols = some m ∧ m.Ascending ∧ ∀ p ∈ m, 0 ≤ p.2 ∧ p.2 ≤ limit

theorem outlines_fresh (origin : Bytes) (limit : Nat) : Outlines origin limit { source := origin } where
  source := rfl
  symbols := ⟨[], rfl, .nil, by simp⟩

theorem outlines_lasting (origin : Bytes) (limit : Nat) : Lasting limit (Outlines origin limit) where
  addLabel t addr name outlines := ⟨outlines.source, outlines.symbols⟩
  addSymbol t addr offset inside outlines := by
    obtain ⟨source, m, symbols, ascending, bounded⟩ := outlines
    refine ⟨source, AddressMap.insert addr offset m, ?_, AddressMap.insert_ascending addr _ ascending, ?_⟩
    · rw [SymbolTable.addSymbol, symbols]
      rfl
    · intro p mem
      obtain rfl | earlier := AddressMap.mem_insert_fst mem
      · exact ⟨Int.natCast_nonneg _, Int.ofNat_le.mpr inside⟩
      · exact bounded p earlier

end SymbolTable

namespace Assembly

namespace Draft

variable {d : Draft} {l : Line} {limit : Nat} {P : SymbolTable → Prop}

def TableHas (P : SymbolTable → Prop) (d : Draft) : Prop := ∀ t, d.table = some t → P t

theorem foldl_place_table (d : Draft) (pieces : List Piece) : (pieces.foldl place d).table = d.table := by
  induction pieces generalizing d with
  | nil => rfl
  | cons p pieces ih => rw [List.foldl_cons, ih, (d.place_keeps p).1]

theorem TableHas.declare (lasting : SymbolTable.Lasting limit P) (has : d.TableHas P) (t : Token) :
    (d.declare t).TableHas P := by
  simp only [Draft.declare]
  split
  · exact has
  · split
    · exact has
    · split
      · exact has
      · intro table held
        obtain ⟨before, attached, rfl⟩ := Option.map_eq_some_iff.mp held
        exact lasting.addLabel _ _ _ (has before attached)

theorem TableHas.foldl_declare (lasting : SymbolTable.Lasting limit P) (has : d.TableHas P)
    (tokens : List Token) : (tokens.foldl Draft.declare d).TableHas P :=
  List.foldlRecOn tokens Draft.declare has fun _ has t _ => TableHas.declare lasting has t

theorem TableHas.recordLine (lasting : SymbolTable.Lasting limit P) (has : d.TableHas P)
    {start : Position} (inside : start.offset ≤ limit) : (d.recordLine start).TableHas P := by
  unfold Draft.recordLine
  split
  · intro table held
    obtain ⟨before, attached, rfl⟩ := Option.map_eq_some_iff.mp held
    exact lasting.addSymbol _ _ _ (Nat.le_trans (Nat.sub_le _ _) inside) (has before attached)
  · exact has

theorem TableHas.line (lasting : SymbolTable.Lasting limit P) (has : d.TableHas P)
    (inside : l.start.offset ≤ limit) (clean : (d.line l).errors = []) : (d.line l).TableHas P := by
  obtain ⟨pieces, lays⟩ := line_lays clean
  rw [line_eq lays]
  intro table held
  rw [foldl_place_table] at held
  cases lays with
  | bare missing =>
    simp only [enter, missing] at held
    exact has.foldl_declare lasting l.labels table held
  | @orig s n stated moves number =>
    have moved : TableHas P { d with addr := n.toNat } := has
    simp only [enter, stated, moves, directive_moves moves number, if_true] at held
    exact moved.foldl_declare lasting l.labels table held
  | placed stated lays =>
    simp only [enter, stated, (statement_eq lays).1, Bool.false_eq_true, if_false] at held
    exact (has.foldl_declare lasting l.labels).recordLine lasting inside table held

theorem TableHas.foldl_line (lasting : SymbolTable.Lasting limit P) (has : d.TableHas P)
    {lines : List Line} (inside : ∀ l ∈ lines, l.start.offset ≤ limit)
    (clean : (lines.foldl Draft.line d).errors = []) : (lines.foldl Draft.line d).TableHas P := by
  induction lines generalizing d with
  | nil => exact has
  | cons l lines ih =>
    have first : (d.line l).errors = [] := by
      by_contra spoiled
      exact foldl_line_spoiled spoiled lines clean
    exact ih (has.line lasting (inside l List.mem_cons_self) first)
      (fun l mem => inside l (List.mem_cons_of_mem _ mem)) clean

end Draft

theorem closeLast_length (source : Bytes) : (closeLast source).length ≤ source.length + 1 := by
  unfold closeLast
  split <;> simp

theorem Tokenized.bounds {source : Bytes} {tokens : List Token} (tokenized : Tokenized source tokens)
    {t : Token} (mem : t ∈ tokens) :
    t.position.offset ≤ source.length ∧ t.text.length ≤ source.length + 1 := by
  obtain ⟨⟨before, later, whole, position⟩, filled⟩ := tokenized.stands mem
  have length := congrArg List.length whole
  have closed := closeLast_length source
  have some' := List.length_pos_iff.mpr filled
  rw [List.length_append, List.length_append] at length
  rw [position]
  constructor
  · change before.length ≤ source.length
    omega
  · omega

theorem SourceForm.start {tokens : List Token} {lines : List Line} (form : SourceForm tokens lines)
    {limit : Nat} (bounded : ∀ t ∈ tokens, t.position.offset ≤ limit) :
    ∀ l ∈ lines, l.start.offset ≤ limit := by
  induction form with
  | nil => simp
  | @line tokens more newline l lines form ends rest ih =>
    refine List.forall_mem_cons.mpr ⟨?_, ih fun t mem => bounded t (by simp [mem])⟩
    cases form with
    | @intro labels rest statement all stated =>
      cases first : (labels ++ rest).head? with
      | none => exact Nat.zero_le _
      | some t => exact bounded t (List.mem_append_left _ (List.mem_of_mem_head? first))

theorem line_start_le {source : Bytes} {lines : List Line} (parsed : parse source = .ok lines) :
    ∀ l ∈ lines, l.start.offset ≤ source.length := by
  obtain ⟨tokens, tokenized, form⟩ := exists_form parsed
  exact form.start fun t mem => (tokenized.bounds mem).1

theorem isValid_of_ascii {t : Bytes} (plain : ∀ b ∈ t, b < 0x80) : Utf8.isValid t = true := by
  induction t with
  | nil => rfl
  | cons b t ih =>
    have rest := ih fun c mem => plain c (List.mem_cons_of_mem _ mem)
    rw [Utf8.isValid, Utf8.characters_ascii (plain b List.mem_cons_self)]
    simpa [Utf8.isValid] using rest

theorem IsName.plain {name : Bytes} (named : IsName name) : ∀ b ∈ name, b < 0x80 := by
  have letters : ∀ b : UInt8, Token.isNameByte b = true → b < 0x80 := by
    intro b named
    simp only [Token.isNameByte, Token.isNameStart, Bytes.isLetter, Bytes.isDigit, Bool.or_eq_true,
      Bool.and_eq_true, decide_eq_true_eq, UInt8.le_iff_toNat_le] at named
    rw [UInt8.lt_iff_toNat_lt]
    obtain (((⟨-, le⟩ | ⟨-, le⟩) | rfl) | ⟨-, le⟩) := named
    · exact Nat.lt_of_le_of_lt le (by decide)
    · exact Nat.lt_of_le_of_lt le (by decide)
    · decide
    · exact Nat.lt_of_le_of_lt le (by decide)
  obtain ⟨b, rest, rfl, first, others⟩ := named
  refine List.forall_mem_cons.mpr ⟨letters b ?_, fun c mem => letters c (others c mem)⟩
  simp [Token.isNameByte, first]

theorem storable_label {source : Bytes} {lines : List Line} (parsed : parse source = .ok lines)
    (countable : source.length < Cbor.lengthBound) {name : Bytes} {addr : Nat}
    (declared : (name, addr) ∈ labelsOf (layout 0 lines)) : SymbolTable.StorableText name := by
  obtain ⟨tokens, t, tokenized, mem, named, text⟩ := exists_token_of_label parsed declared
  have within := (tokenized.bounds mem).2
  rw [text, List.length_append, List.length_singleton] at within
  exact ⟨isValid_of_ascii named.plain, by omega⟩

theorem assemble_lasting {source : Bytes} {table : Option SymbolTable} {image : List UInt16}
    {P : SymbolTable → Prop} (accepted : (assemble source table).outcome = .ok image)
    (lasting : SymbolTable.Lasting source.length P) (before : ∀ t, table = some t → P t) :
    ∀ t, (assemble source table).table = some t → P t := by
  obtain ⟨lines, parsed, finished, -⟩ := assemble_ok accepted
  have clean : (lines.foldl Draft.line { table }).errors = [] := by
    rw [Draft.finish_eq_foldr] at finished
    exact (Draft.foldr_fix finished).1
  have has : Draft.TableHas P { table } := before
  intro t left
  rw [assemble, parsed] at left
  simp only [finished, List.isEmpty_nil, if_true, Draft.finish_table] at left
  exact has.foldl_line lasting (line_start_le parsed) clean t left

theorem assemble_table_none {source : Bytes} {image : List UInt16}
    (accepted : (assemble source none).outcome = .ok image) : (assemble source none).table = none := by
  rw [Option.eq_none_iff_forall_ne_some]
  exact assemble_lasting (P := fun _ => False) accepted ⟨by simp, by simp⟩ (by simp)

/-- The table of an accepted source can be stored, if the name of the source can. -/
theorem assemble_storable {source origin : Bytes} {image : List UInt16}
    (accepted : (assemble source (some { source := origin })).outcome = .ok image)
    (named : SymbolTable.StorableText origin) (countable : source.length < Cbor.lengthBound) :
    ∃ table, (assemble source (some { source := origin })).table = some table ∧ table.Storable := by
  obtain ⟨lines, table, parsed, attached, labels, declares⟩ := assemble_charted accepted
  have outlines : table.Outlines origin source.length := by
    refine assemble_lasting accepted (SymbolTable.outlines_lasting origin _) ?_ table attached
    rintro t ⟨⟩
    exact SymbolTable.outlines_fresh origin _
  refine ⟨table, attached, by rw [outlines.source]; exact named, ?_, ?_⟩
  · obtain ⟨m, symbols, ascending, bounded⟩ := outlines.symbols
    intro m' held
    obtain rfl := Option.some.inj (symbols.symm.trans held)
    refine ⟨ascending, fun p mem => ?_⟩
    have within := bounded p mem
    rw [Cbor.lengthBound] at countable
    constructor <;> omega
  · intro m held
    obtain rfl := Option.some.inj (labels.symm.trans held)
    refine ⟨chart_ascending _, fun p mem => ?_⟩
    have listed := List.mem_of_find?_eq_some (mem_chart_iff.mp mem)
    obtain ⟨e, declared, same⟩ := List.mem_map.mp listed
    have name : e.1 = p.2 := congrArg Prod.fst same
    exact name ▸ storable_label parsed countable (List.mem_reverse.mp declared)

end Assembly

end WordMachine
