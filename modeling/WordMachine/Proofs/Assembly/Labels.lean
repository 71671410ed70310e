import WordMachine.Proofs.Assembly.Agreement
import WordMachine.Proofs.Assembly.Parsing

/-! The labels that a source leaves in its symbol table. Names are kept twice while a source is
drafted: by name, for the references, and by address, for the table. Names are distinct but
addresses need not be, so the table keeps of the labels at an address only the last. -/

namespace WordMachine

namespace AddressMap

variable {α : Type}

theorem get?_insert (addr : UInt16) (value : α) (m : AddressMap α) (k : UInt16) :
    (insert addr value m).get? k = if k = addr then some value else m.get? k := by
  have headed : ∀ (a : UInt16) (v : α) (m : AddressMap α),
      get? ((a, v) :: m) k = if k = a then some v else m.get? k := by
    intro a v m
    rw [get?, List.lookup_cons]
    by_cases same : k = a
    · simp [same]
    · have other : (k == a) = false := by simpa using same
      simp [other, same, get?]
  induction m with
  | nil => exact headed addr value []
  | cons e m ih =>
    obtain ⟨a, v⟩ := e
    unfold insert
    split
    · exact headed addr value _
    · split
      · next here =>
        rw [headed, headed, here]
        split <;> rfl
      · next other =>
        rw [headed, headed, ih]
        by_cases first : k = a
        · simp [first, Ne.symm other]
        · simp [first]

theorem mem_iff_get? {m : AddressMap α} (ascending : m.Ascending) {k : UInt16} {value : α} :
    (k, value) ∈ m ↔ m.get? k = some value := by
  have distinct : (m.map Prod.fst).Nodup :=
    List.pairwise_map.mpr (ascending.imp fun below => UInt16.ne_of_lt below)
  rw [get?, Assembly.lookup_eq_some_iff_mem distinct]

end AddressMap

namespace Assembly

def chart (names : List (Bytes × UInt16)) : AddressMap Bytes :=
  names.foldr (fun (name, addr) m => AddressMap.insert addr name m) []

theorem chart_ascending (names : List (Bytes × UInt16)) : (chart names).Ascending := by
  induction names with
  | nil => exact .nil
  | cons e names ih => exact AddressMap.insert_ascending e.2 e.1 ih

theorem chart_get? (names : List (Bytes × UInt16)) (addr : UInt16) :
    (chart names).get? addr = (names.find? (·.2 = addr)).map Prod.fst := by
  induction names with
  | nil => rfl
  | cons e names ih =>
    have entered : chart (e :: names) = AddressMap.insert e.2 e.1 (chart names) := rfl
    rw [entered, AddressMap.get?_insert, List.find?_cons, ih]
    by_cases same : e.2 = addr
    · simp [same]
    · simp [same, Ne.symm same]

theorem mem_chart_iff {names : List (Bytes × UInt16)} {addr : UInt16} {name : Bytes} :
    (addr, name) ∈ chart names ↔ names.find? (·.2 = addr) = some (name, addr) := by
  rw [AddressMap.mem_iff_get? (chart_ascending names), chart_get?, Option.map_eq_some_iff]
  constructor
  · rintro ⟨e, found, rfl⟩
    have here : e.2 = addr := by simpa using List.find?_some found
    rw [found, ← here]
  · intro found
    exact ⟨_, found, rfl⟩

theorem lookup_chart {names : List (Bytes × UInt16)} (distinct : (names.map Prod.fst).Nodup)
    {t : SymbolTable} (charted : t.labels = some (chart names)) {name : Bytes} {addr : UInt16} :
    t.lookup name = some addr ↔ names.find? (·.2 = addr) = some (name, addr) := by
  have map : t.labelMap = chart names := by rw [SymbolTable.labelMap, charted]; rfl
  rw [SymbolTable.lookup, map, ← mem_chart_iff, Option.map_eq_some_iff]
  constructor
  · rintro ⟨⟨a, label⟩, found, rfl⟩
    obtain rfl : label = name := by simpa using List.find?_some found
    exact List.mem_of_find?_eq_some found
  · intro listed
    have some' : ((chart names).find? fun p => p.2 = name).isSome := by
      rw [List.find?_isSome]
      exact ⟨_, listed, by simp⟩
    obtain ⟨⟨a, label⟩, found⟩ := Option.isSome_iff_exists.mp some'
    obtain rfl : label = name := by simpa using List.find?_some found
    have first := List.mem_of_find?_eq_some (mem_chart_iff.mp listed)
    have second := List.mem_of_find?_eq_some (mem_chart_iff.mp (List.mem_of_find?_eq_some found))
    have same := ((lookup_eq_some_iff_mem distinct).mpr second).symm.trans
      ((lookup_eq_some_iff_mem distinct).mpr first)
    exact ⟨_, found, Option.some.inj same⟩

/-- A name that is followed by none at its address is found there; else it is not found. -/
theorem lookup_chart_append {later earlier : List (Bytes × UInt16)} {name : Bytes} {addr : UInt16}
    (distinct : ((later ++ (name, addr) :: earlier).map Prod.fst).Nodup) {t : SymbolTable}
    (charted : t.labels = some (chart (later ++ (name, addr) :: earlier))) :
    ((∀ e ∈ later, e.2 ≠ addr) → t.lookup name = some addr) ∧
      ((∃ e ∈ later, e.2 = addr) → t.lookup name = none) := by
  constructor
  · intro alone
    have passed : later.find? (·.2 = addr) = none := by simpa using alone
    rw [lookup_chart distinct charted, List.find?_append, passed]
    simp
  · rintro ⟨e, listed, here⟩
    have declared : (name, addr) ∈ later ++ (name, addr) :: earlier := by simp
    have fresh : name ∉ later.map Prod.fst := by
      rw [List.map_append, List.map_cons] at distinct
      exact fun mem => (List.nodup_append.mp distinct).2.2 name mem name List.mem_cons_self rfl
    have shadowed : (later.find? (·.2 = addr)).isSome := by
      rw [List.find?_isSome]
      exact ⟨e, listed, by simpa using here⟩
    obtain ⟨last, first⟩ := Option.isSome_iff_exists.mp shadowed
    rw [Option.eq_none_iff_forall_ne_some]
    intro a looked
    have found := (lookup_chart distinct charted).mp looked
    have same := ((lookup_eq_some_iff_mem distinct).mpr (List.mem_of_find?_eq_some found)).symm.trans
      ((lookup_eq_some_iff_mem distinct).mpr declared)
    obtain rfl := Option.some.inj same
    rw [List.find?_append, first] at found
    obtain rfl := Option.some.inj found
    exact fresh (List.mem_map.mpr ⟨_, List.mem_of_find?_eq_some first, rfl⟩)

namespace Draft

structure Charted (d : Draft) : Prop where
  held : ∃ t, d.table = some t ∧ t.labels = some (chart d.labels)
  unreserved : ∀ e ∈ d.labels, isRegisterName e.1 = false

theorem Charted.congr {d d' : Draft} (charted : d.Charted) (table : d'.table = d.table)
    (labels : d'.labels = d.labels) : d'.Charted := by
  constructor
  · rw [table, labels]
    exact charted.held
  · rw [labels]
    exact charted.unreserved

theorem emit_keeps (d : Draft) (value : UInt16) (cursor : Cursor) :
    (d.emit value cursor).table = d.table ∧ (d.emit value cursor).labels = d.labels := by
  unfold emit
  split
  · exact ⟨rfl, rfl⟩
  · split <;> exact ⟨rfl, rfl⟩

theorem place_keeps (d : Draft) (p : Piece) :
    (d.place p).table = d.table ∧ (d.place p).labels = d.labels := by
  cases p with
  | word value cursor => exact d.emit_keeps value cursor
  | reference t =>
    simp only [place, emitReference]
    split
    · exact emit_keeps _ 0 _
    · exact d.emit_keeps 0 _

variable {d : Draft} {l : Line}

theorem foldl_place_charted (charted : d.Charted) (pieces : List Piece) :
    (pieces.foldl place d).Charted := by
  induction pieces generalizing d with
  | nil => exact charted
  | cons p pieces ih => exact ih (charted.congr (d.place_keeps p).1 (d.place_keeps p).2)

theorem declare_charted (charted : d.Charted) (t : Token) : (d.declare t).Charted := by
  simp only [declare]
  split
  · exact charted.congr rfl rfl
  · next free =>
    split
    · exact charted.congr rfl rfl
    · split
      · exact charted.congr rfl rfl
      · obtain ⟨⟨table, attached, labels⟩, unreserved⟩ := charted
        constructor
        · refine ⟨table.addLabel d.addr.toUInt16 (labelName t), ?_, ?_⟩
          · rw [attached]
            rfl
          · rw [SymbolTable.addLabel, labels]
            rfl
        · exact List.forall_mem_cons.mpr ⟨by simpa using free, unreserved⟩

theorem foldl_declare_charted (charted : d.Charted) (tokens : List Token) :
    (tokens.foldl declare d).Charted := by
  induction tokens generalizing d with
  | nil => exact charted
  | cons t tokens ih => exact ih (declare_charted charted t)

theorem recordLine_charted (charted : d.Charted) (start : Position) : (d.recordLine start).Charted := by
  obtain ⟨⟨table, attached, labels⟩, unreserved⟩ := charted
  unfold recordLine
  split
  · refine ⟨⟨table.addSymbol d.addr.toUInt16 (Cursor.of start 1).lineByte, ?_, labels⟩, unreserved⟩
    rw [attached]
    rfl
  · exact ⟨⟨table, attached, labels⟩, unreserved⟩

theorem line_charted (charted : d.Charted) (clean : (d.line l).errors = []) : (d.line l).Charted := by
  obtain ⟨pieces, lays⟩ := line_lays clean
  rw [line_eq lays]
  apply foldl_place_charted
  cases lays with
  | bare missing => simpa [enter, missing] using foldl_declare_charted charted l.labels
  | @orig s n stated moves number =>
    have moved : Charted { d with addr := n.toNat } := charted.congr rfl rfl
    simpa [enter, stated, moves, directive_moves moves number] using foldl_declare_charted moved l.labels
  | placed stated lays =>
    simp only [enter, stated, (statement_eq lays).1, Bool.false_eq_true, if_false]
    exact recordLine_charted (foldl_declare_charted charted l.labels) l.start

theorem foldl_line_charted (charted : d.Charted) {lines : List Line}
    (clean : (lines.foldl line d).errors = []) : (lines.foldl line d).Charted := by
  induction lines generalizing d with
  | nil => exact charted
  | cons l lines ih =>
    have first : (d.line l).errors = [] := by
      by_contra spoiled
      exact foldl_line_spoiled spoiled lines clean
    exact ih (line_charted charted first) clean

theorem finish_table (d : Draft) : d.finish.table = d.table := by
  rw [finish_eq_foldr]
  generalize d.fixups = fixups
  induction fixups with
  | nil => rfl
  | cons f fixups ih =>
    rw [List.foldr_cons, fix]
    split <;> exact ih

end Draft

theorem mem_layout {addr base : Nat} {lines : List Line} {l : Line} (placed : (base, l) ∈ layout addr lines) :
    l ∈ lines := by
  induction lines generalizing addr with
  | nil => simp [layout] at placed
  | cons first lines ih =>
    rw [layout, List.mem_cons] at placed
    obtain here | later := placed
    · exact (Prod.mk.inj here).2 ▸ List.mem_cons_self
    · exact List.mem_cons_of_mem _ (ih later)

theorem trimSuffix_colon (t : Bytes) (b : UInt8) :
    Bytes.trimSuffix (t ++ [b]) ":" = if b = Bytes.ascii ':' then t else t ++ [b] := by
  have colon : Bytes.ofString ":" = [Bytes.ascii ':'] := by decide
  rw [Bytes.trimSuffix, colon]
  by_cases same : b = Bytes.ascii ':'
  · simp [same]
  · have other : ¬[Bytes.ascii ':'] <:+ t ++ [b] := by
      rintro ⟨front, whole⟩
      have last := List.singleton_inj.mp (List.append_inj' whole rfl).2
      exact same last.symm
    simp [same, other]

theorem labelName_append {t : Token} {name : Bytes} (text : t.text = name ++ [Bytes.ascii ':']) :
    labelName t = name := by
  rw [labelName, text, trimSuffix_colon, if_pos rfl]

theorem exists_token_of_label {source : Bytes} {lines : List Line} (parsed : parse source = .ok lines)
    {name : Bytes} {addr : Nat} (declared : (name, addr) ∈ labelsOf (layout 0 lines)) :
    ∃ tokens t, Tokenized source tokens ∧ t ∈ tokens ∧ IsName name ∧ t.text = name ++ [Bytes.ascii ':'] := by
  obtain ⟨tokens, tokenized, form⟩ := exists_form parsed
  obtain ⟨⟨base, l⟩, placed, listed⟩ := List.mem_flatMap.mp declared
  obtain ⟨t, label, same⟩ := List.mem_map.mp listed
  obtain ⟨mem, kind⟩ := form.labels l (mem_layout placed) t label
  obtain ⟨word, named, text⟩ := tokenized.label mem kind
  obtain rfl : name = word := (congrArg Prod.fst same).symm.trans (labelName_append text)
  exact ⟨tokens, t, tokenized, mem, named, text⟩

theorem isName_of_label {source : Bytes} {lines : List Line} (parsed : parse source = .ok lines) {name : Bytes}
    {addr : Nat} (declared : (name, addr) ∈ labelsOf (layout 0 lines)) : IsName name := by
  obtain ⟨-, -, -, -, named, -⟩ := exists_token_of_label parsed declared
  exact named

/-- The labels of an accepted source: each has a name of its own, which is free, and an address. -/
structure Declares (declared : List (Bytes × Nat)) : Prop where
  distinct : (declared.map Prod.fst).Nodup
  located : ∀ e ∈ declared, e.2 < memorySize
  named : ∀ e ∈ declared, IsName e.1 ∧ isRegisterName e.1 = false

/-- What a fresh table holds after an accepted source: its labels, each at its address. -/
theorem assemble_charted {source origin : Bytes} {image : List UInt16}
    (accepted : (assemble source (some { source := origin })).outcome = .ok image) :
    ∃ lines table, parse source = .ok lines ∧
      (assemble source (some { source := origin })).table = some table ∧
      table.labels = some (chart
        ((labelsOf (layout 0 lines)).reverse.map fun (name, addr) => (name, addr.toUInt16))) ∧
      Declares (labelsOf (layout 0 lines)) := by
  obtain ⟨lines, parsed, finished, -⟩ := assemble_ok accepted
  have clean : (lines.foldl Draft.line { table := some { source := origin } }).errors = [] := by
    rw [Draft.finish_eq_foldr] at finished
    exact (Draft.foldr_fix finished).1
  obtain ⟨emitted, -, tracks⟩ := Draft.foldl_line_tracks (Draft.tracks_empty _) clean
  rw [List.append_nil, List.append_nil] at tracks
  obtain ⟨⟨table, attached, labels⟩, unreserved⟩ :=
    Draft.foldl_line_charted ⟨⟨{ source := origin }, rfl, rfl⟩, by simp⟩ clean
  refine ⟨lines, table, parsed, ?_, by rw [labels, tracks.labels], ?_, ?_, ?_⟩
  · rw [assemble, parsed]
    simp only [finished, List.isEmpty_nil, if_true]
    rw [Draft.finish_table, attached]
  · have reversed := tracks.distinct
    rwa [List.map_reverse, List.nodup_reverse] at reversed
  · exact fun e mem => tracks.located e (List.mem_reverse.mpr mem)
  · intro e mem
    refine ⟨isName_of_label parsed mem, unreserved (e.1, e.2.toUInt16) ?_⟩
    rw [tracks.labels]
    exact List.mem_map.mpr ⟨e, List.mem_reverse.mpr mem, rfl⟩

theorem Declares.nodup_charted {declared : List (Bytes × Nat)} (declares : Declares declared) :
    ((declared.reverse.map fun (name, addr) => (name, addr.toUInt16)).map Prod.fst).Nodup := by
  rw [List.map_map, List.map_reverse, List.nodup_reverse]
  exact declares.distinct

theorem toUInt16_inj_of_lt {a b : Nat} (first : a < memorySize) (second : b < memorySize)
    (same : a.toUInt16 = b.toUInt16) : a = b := by
  have numbers := congrArg UInt16.toNat same
  rw [memorySize] at first second
  simp only [Nat.toUInt16, UInt16.toNat_ofNat'] at numbers
  omega

theorem assemble_label {source origin : Bytes} {image : List UInt16}
    (accepted : (assemble source (some { source := origin })).outcome = .ok image) :
    ∃ table, (assemble source (some { source := origin })).table = some table ∧
      ∀ name addr, table.lookup name = some addr →
        addr.toNat < memorySize ∧ IsName name ∧ isRegisterName name = false := by
  obtain ⟨lines, table, parsed, attached, labels, declares⟩ := assemble_charted accepted
  refine ⟨table, attached, fun name addr looked => ?_⟩
  have found := List.mem_of_find?_eq_some ((lookup_chart declares.nodup_charted labels).mp looked)
  obtain ⟨e, listed, same⟩ := List.mem_map.mp found
  have declared := List.mem_reverse.mp listed
  obtain ⟨rfl, rfl⟩ := Prod.mk.inj same
  have small := declares.located e declared
  refine ⟨?_, declares.named e declared⟩
  rw [Nat.toUInt16, UInt16.toNat_ofNat']
  exact Nat.lt_of_le_of_lt (Nat.mod_le _ _) small

/-- Of the labels that a source declares at an address the last is found in the symbol table,
and it is found there; the others are not found, and neither is any name that is no label. -/
theorem assemble_lookup {source origin : Bytes} {image : List UInt16}
    (accepted : (assemble source (some { source := origin })).outcome = .ok image) :
    ∃ lines table, parse source = .ok lines ∧
      (assemble source (some { source := origin })).table = some table ∧
      (∀ name, name ∉ (labelsOf (layout 0 lines)).map Prod.fst → table.lookup name = none) ∧
      ∀ earlier name addr later, labelsOf (layout 0 lines) = earlier ++ (name, addr) :: later →
        ((∀ e ∈ later, e.2 ≠ addr) → ∃ a : UInt16, a.toNat = addr ∧ table.lookup name = some a) ∧
        ((∃ e ∈ later, e.2 = addr) → table.lookup name = none) := by
  obtain ⟨lines, table, parsed, attached, labels, declares⟩ := assemble_charted accepted
  refine ⟨lines, table, parsed, attached, ?_⟩
  generalize labelsOf (layout 0 lines) = declared at labels declares
  have names := declares.nodup_charted
  refine ⟨fun name undeclared => ?_, ?_⟩
  · rw [Option.eq_none_iff_forall_ne_some]
    intro a looked
    have found := List.mem_of_find?_eq_some ((lookup_chart names labels).mp looked)
    obtain ⟨e, listed, same⟩ := List.mem_map.mp found
    exact undeclared (List.mem_map.mpr ⟨e, List.mem_reverse.mp listed, congrArg Prod.fst same⟩)
  · rintro earlier name addr later rfl
    have turned : ((earlier ++ (name, addr) :: later).reverse.map fun (name, addr) =>
        (name, addr.toUInt16)) = (later.reverse.map fun (name, addr) => (name, addr.toUInt16)) ++
          (name, addr.toUInt16) :: (earlier.reverse.map fun (name, addr) => (name, addr.toUInt16)) := by
      simp
    rw [turned] at names labels
    obtain ⟨alone, followed⟩ := lookup_chart_append names labels
    have small : addr < memorySize := declares.located (name, addr) (by simp)
    have word : addr.toUInt16.toNat = addr := by
      rw [memorySize] at small
      exact Nat.mod_eq_of_lt (by omega)
    constructor
    · intro last
      refine ⟨addr.toUInt16, word, alone ?_⟩
      intro e listed same
      obtain ⟨f, mem, rfl⟩ := List.mem_map.mp listed
      have inside : f.2 < memorySize := declares.located f (by simp [List.mem_reverse.mp mem])
      exact last f (List.mem_reverse.mp mem) (toUInt16_inj_of_lt inside small same)
    · rintro ⟨e, listed, same⟩
      exact followed ⟨(e.1, e.2.toUInt16), List.mem_map.mpr ⟨e, List.mem_reverse.mpr listed, rfl⟩,
        congrArg Nat.toUInt16 same⟩

def crowded : Bytes := Bytes.ofString "a: b: noop\nc: halt\n"

theorem crowded_accepted : ∃ image, (assemble crowded (some { source := [] })).outcome = .ok image :=
  exists_ok_of_toOption (by decide +kernel)

theorem crowded_labels {lines : List Line} (parsed : parse crowded = .ok lines) :
    labelsOf (layout 0 lines) =
      [(Bytes.ofString "a", 0), (Bytes.ofString "b", 0), (Bytes.ofString "c", 1)] := by
  have facts : (parse crowded).toOption.map (fun lines => labelsOf (layout 0 lines)) =
      some [(Bytes.ofString "a", 0), (Bytes.ofString "b", 0), (Bytes.ofString "c", 1)] := by
    decide +kernel
  simpa [parsed, Except.toOption] using facts

theorem assemble_lookup_crowded :
    ∃ table, (assemble crowded (some { source := [] })).table = some table ∧
      table.lookup (Bytes.ofString "a") = none ∧ table.lookup (Bytes.ofString "b") = some 0 ∧
      table.lookup (Bytes.ofString "c") = some 1 ∧ table.lookup (Bytes.ofString "d") = none := by
  obtain ⟨image, accepted⟩ := crowded_accepted
  obtain ⟨lines, table, parsed, attached, absent, found⟩ := assemble_lookup accepted
  rw [crowded_labels parsed] at absent found
  refine ⟨table, attached, (found [] _ _ _ rfl).2 (by decide), ?_, ?_, absent _ (by decide)⟩
  · obtain ⟨a, here, looked⟩ := (found [_] _ _ _ rfl).1 (by decide)
    rw [looked, UInt16.toNat_inj.mp (here.trans (by rfl : 0 = (0 : UInt16).toNat))]
  · obtain ⟨a, here, looked⟩ := (found [_, _] _ _ _ rfl).1 (by decide)
    rw [looked, UInt16.toNat_inj.mp (here.trans (by rfl : 1 = (1 : UInt16).toNat))]

/-- A label that a source declares need not be found in the table of the source. -/
theorem declared_label_lost :
    ¬∀ (source origin : Bytes) (image : List UInt16) (lines : List Line) (table : SymbolTable),
      (assemble source (some { source := origin })).outcome = .ok image →
      parse source = .ok lines →
      (assemble source (some { source := origin })).table = some table →
      ∀ name addr, (name, addr) ∈ labelsOf (layout 0 lines) →
        ∃ a : UInt16, a.toNat = addr ∧ table.lookup name = some a := by
  intro kept
  obtain ⟨image, accepted⟩ := crowded_accepted
  obtain ⟨lines, parsed, -, -⟩ := assemble_ok accepted
  have looked : (assemble crowded (some { source := [] })).table.map
      (fun table => table.lookup (Bytes.ofString "a")) = some none := by
    decide +kernel
  obtain ⟨table, attached, missing⟩ := Option.map_eq_some_iff.mp looked
  obtain ⟨a, -, found⟩ := kept crowded [] image lines table accepted parsed attached
    (Bytes.ofString "a") 0 (by rw [crowded_labels parsed]; exact List.mem_cons_self)
  exact absurd (missing.symm.trans found) nofun

end Assembly

end WordMachine
